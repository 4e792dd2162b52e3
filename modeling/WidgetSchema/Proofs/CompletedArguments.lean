/-
Arguments and their completion.

Arguments are completed by the defaults of the parameters that get none. A list between the
given arguments and the complete ones spells the same instantiation (`Spells`): the
arguments that it has more are those that the defaults would give, read with the same
bindings (`bindFrom_of_spells`). So all spellings are bound alike, and a request is the same
action for each of them, down to its errors and its records (`resolve_congr`).

The memo is asked for completed instantiations, and no two of its entries are for the same
one (`Memo.KeyedOnce`). Whichever spelling is asked for first leaves the one entry that all
of them find from then on (`spellings_share_one_entry`).
-/
import Mathlib.Data.List.Nodup
import WidgetSchema.Proofs.RaisedErrors
import WidgetSchema.Proofs.VerdictIndependence

set_option autoImplicit false

namespace WidgetSchema

/-! ## Spellings -/

/-- The second list spells what the first one is completed to: it has all of the given
arguments and behind them some of those that complete them. -/
def Spells (args full given : List TypeExpr) : Prop := given <+: full ∧ args.length ≤ given.length

instance (args full given : List TypeExpr) : Decidable (Spells args full given) := by
  unfold Spells
  infer_instance

section

variable {ps : List GenericParameter} {args full given : List TypeExpr} {before bindings : Bindings}

/-- The complete arguments are one of the spellings. -/
theorem spells_full {d : Definition} (h : d.bind args = .ok (bindings, full)) :
    Spells args full full := by
  obtain ⟨hle, hfrom⟩ := Composer.bind_eq_ok.1 h
  refine ⟨List.prefix_refl full, ?_⟩
  rw [length_bindFrom hfrom]
  exact hle

/-- **All spellings are bound alike.** Where a spelling ends, the parameters that are left
take the defaults that they took before, and the bindings that these are read with are the
same. The induction is on the parameters. -/
theorem bindFrom_of_spells (h : bindFrom before ps args = .ok (bindings, full))
    (hgiven : Spells args full given) : bindFrom before ps given = .ok (bindings, full) := by
  obtain ⟨hfront, hlong⟩ := hgiven
  induction ps generalizing args full given before with
  | nil =>
    rw [bindFrom] at h ⊢
    exact h
  | cons p ps ih =>
    obtain ⟨arg, rest, later, rfl, hlater, hargs⟩ := Composer.bindFrom_cons h
    cases given with
    | nil =>
      -- there were no arguments in the first place
      rw [List.length_nil, Nat.le_zero, List.length_eq_zero_iff] at hlong
      rw [← hlong]
      exact h
    | cons g gs =>
      obtain ⟨rfl, hgs⟩ := List.cons_prefix_cons.1 hfront
      have hrest : rest.length ≤ gs.length := by
        rcases hargs with rfl | ⟨-, rfl, -⟩
        · rw [List.length_cons, List.length_cons] at hlong
          omega
        · exact Nat.zero_le _
      rw [bindFrom, ih hlater hgs hrest]
      rfl

theorem Definition.bind_of_spells {d : Definition} (h : d.bind args = .ok (bindings, full))
    (hgiven : Spells args full given) : d.bind given = .ok (bindings, full) := by
  have hfrom := Composer.bindFrom_of_bind h
  refine Composer.bind_eq_ok.2 ⟨?_, bindFrom_of_spells hfrom hgiven⟩
  rw [← length_bindFrom hfrom]
  exact hgiven.1.length_le

end

namespace Composer

variable {c : Composer} {memo : Memo} {chain : List Instantiation} {i j key : Instantiation}
  {d : Definition} {bindings : Bindings}

/-! ## One request -/

theorem complete_of_spells {name : String} {args full given : List TypeExpr}
    (hd : c.registry.lookup name = .ok d) (h : d.bind args = .ok (bindings, full))
    (hgiven : Spells args full given) :
    c.complete ⟨name, given⟩ = .ok (d, bindings, ⟨name, full⟩) :=
  complete_eq_ok.2 ⟨hd, Definition.bind_of_spells h hgiven, rfl⟩

/-- A spelling that is complete is the complete list. -/
theorem args_eq_of_spells {e : Definition} {bindings' : Bindings} {args full : List TypeExpr}
    (hd : c.registry.lookup key.name = .ok d) (h : d.bind args = .ok (bindings, full))
    (hkey : c.complete key = .ok (e, bindings', key)) (hspells : Spells args full key.args) :
    key.args = full := by
  obtain ⟨hlookup, hbind, -⟩ := complete_eq_ok.1 hkey
  rw [hd] at hlookup
  cases hlookup
  apply hspells.1.eq_of_length
  rw [length_bindFrom (bindFrom_of_bind hbind), length_bindFrom (bindFrom_of_bind h)]

/-- What is completed alike under one name is composed alike. -/
theorem compose_congr (hname : i.name = j.name) (h : c.complete i = c.complete j) (room : Nat) :
    c.compose room chain i = c.compose room chain j := by
  have hstart : c.start chain i = c.start chain j := by
    unfold start
    rw [h, hname]
  cases room with
  | zero => rw [compose, compose, hstart, hname]
  | succ room => rw [compose, compose, hstart]

/-- **A request does not see the spelling**: it is the same action on the memo. -/
theorem resolve_congr (hname : i.name = j.name) (h : c.complete i = c.complete j) :
    c.resolveStruct i = c.resolveStruct j ∧ c.resolve i = c.resolve j := by
  have hstruct : c.resolveStruct i = c.resolveStruct j := compose_congr hname h c.maxDepth
  refine ⟨hstruct, ?_⟩
  unfold resolve
  rw [h, hstruct]

end Composer

/-! ## One entry for an instantiation -/

/-- Of a list in which no key stands twice, what has the key of an entry is that entry. -/
theorem filter_eq_singleton {α : Type} {entries : List (Instantiation × α)} {key : Instantiation}
    {a : α} {p : Instantiation × α → Bool} (hnodup : (entries.map Prod.fst).Nodup)
    (hmem : (key, a) ∈ entries) (hp : ∀ e ∈ entries, p e = true ↔ e.1 = key) :
    entries.filter p = [(key, a)] := by
  obtain ⟨before, behind, rfl⟩ := List.append_of_mem hmem
  rw [List.map_append, List.map_cons] at hnodup
  obtain ⟨-, hbehind, hbefore⟩ := List.nodup_append.1 hnodup
  have hnone (es : List (Instantiation × α)) (hsub : es ⊆ before ++ (key, a) :: behind)
      (hne : ∀ e ∈ es, e.1 ≠ key) : es.filter p = [] := by
    rw [List.filter_eq_nil_iff]
    intro e he hpe
    exact hne e he ((hp e (hsub he)).1 hpe)
  have hkey : p (key, a) = true := (hp _ hmem).2 rfl
  rw [List.filter_append, List.filter_cons_of_pos hkey, hnone before, hnone behind]
  · rfl
  · exact fun e he => List.mem_append_right _ (List.mem_cons_of_mem _ he)
  · intro e he heq
    exact (List.nodup_cons.1 hbehind).1 (List.mem_map.2 ⟨e, he, heq⟩)
  · exact fun e he => List.mem_append_left _ he
  · intro e he heq
    exact hbefore e.1 (List.mem_map.2 ⟨e, he, rfl⟩) key List.mem_cons_self heq

namespace Memo

/-- No two entries of a table are for the same instantiation. -/
structure KeyedOnce (memo : Memo) : Prop where
  schemas : (memo.schemas.map Prod.fst).Nodup
  expressions : (memo.expressions.map Prod.fst).Nodup

/-- The entries of the table that an answer is kept in. -/
def tableOf (memo : Memo) : Resolved → List (Instantiation × Resolved)
  | .schema _ => memo.schemas.map fun e => (e.1, .schema e.2)
  | .expression _ => memo.expressions.map fun e => (e.1, .expression e.2)

variable {memo : Memo} {key : Instantiation}

theorem nodup_append_of_lookup {α : Type} {entries : List (Instantiation × α)}
    (h : (entries.map Prod.fst).Nodup) (hnew : entries.lookup key = none) (a : α) :
    ((entries ++ [(key, a)]).map Prod.fst).Nodup := by
  rw [List.map_append, List.map_cons, List.map_nil, List.nodup_append]
  refine ⟨h, List.nodup_singleton key, ?_⟩
  intro k hk k' hk'
  rw [List.mem_singleton.1 hk']
  rintro rfl
  obtain ⟨entry, hentry, rfl⟩ := List.mem_map.1 hk
  have habsent := List.lookup_eq_none_iff.1 hnew entry hentry
  simp at habsent

theorem KeyedOnce.addSchema (h : memo.KeyedOnce) (hnew : ¬ memo.Knows key) (s : ResolvedSchema) :
    (memo.addSchema key s).KeyedOnce where
  schemas := nodup_append_of_lookup h.schemas (Option.not_isSome_iff_eq_none.1 hnew) s
  expressions := h.expressions

theorem KeyedOnce.addExpression (h : memo.KeyedOnce) (hnew : memo.expressions.lookup key = none)
    (e : TypeExpr) : (memo.addExpression key e).KeyedOnce where
  schemas := h.schemas
  expressions := nodup_append_of_lookup h.expressions hnew e

theorem KeyedOnce.tableOf (h : memo.KeyedOnce) (r : Resolved) :
    ((memo.tableOf r).map Prod.fst).Nodup := by
  cases r with
  | schema s => simpa [Memo.tableOf, List.map_map, Function.comp_def] using h.schemas
  | expression e => simpa [Memo.tableOf, List.map_map, Function.comp_def] using h.expressions

end Memo

namespace Composer

variable {c : Composer} {memo : Memo} {i key : Instantiation}

/-- **A composition enters only what is not known**: its instantiation stands on the chain
while its members are composed, so none of them enters it. -/
theorem compose_keyedOnce (room : Nat) (chain : List Instantiation) (i : Instantiation) :
    (c.compose room chain i).Keeps Memo.KeyedOnce := by
  induction room generalizing chain i with
  | zero =>
    intro memo hm
    rw [compose_state]
    cases ((c.start chain i).run memo).outcome with
    | error e => exact hm
    | ok start => cases start <;> exact hm
  | succ room ih =>
    intro memo hm
    rw [compose_state]
    cases hstart : ((c.start chain i).run memo).outcome with
    | error e => exact hm
    | ok start =>
      cases start with
      | known s => exact hm
      | fresh key bindings parts =>
        let p : Plan := { key, bindings, parts }
        obtain ⟨hnew, -⟩ := new_of_fresh hstart
        let merging := mergeEach (c.compose room (chain ++ [key])) key.name p.members
          { held := .empty, lineage := [] }
        have hmerging : (merging.run memo).state.KeyedOnce :=
          keeps_mergeEach (fun j => ih (chain ++ [key]) j) _ _ _ memo hm
        obtain ⟨added, hgrowth⟩ : ∃ added, memo.Growth (chain ++ [key]) added
            (merging.run memo).state := mergeEach_grows (compose_grows room _) _ _ _ memo
        have hunknown : ¬ (merging.run memo).state.Knows key :=
          hgrowth.not_knows (List.mem_append_right _ List.mem_cons_self) hnew
        obtain ⟨-, hstate⟩ := @composeNew_run memo (c.compose room (chain ++ [key])) p
        show ((composeNew _ p.key p.bindings p.parts).run memo).state.KeyedOnce
        rw [hstate]
        split
        · exact hmerging
        · exact hmerging.addSchema hunknown _

theorem keeps_resolve_keyedOnce (i : Instantiation) : (c.resolve i).Keeps Memo.KeyedOnce := by
  intro memo hm
  unfold resolve
  rw [Action.state_bind]
  simp only [Action.run_ofExcept]
  cases c.complete i with
  | error e => exact hm
  | ok found =>
    obtain ⟨d, bindings, key⟩ := found
    dsimp only
    cases d.plainExpression? with
    | none => exact Action.Keeps.map _ (compose_keyedOnce c.maxDepth [] i) memo hm
    | some body =>
      rw [Action.state_bind]
      simp only [Action.run_get]
      cases hl : memo.expressions.lookup key with
      | some known => exact hm
      | none => exact hm.addExpression hl _

/-- The entries of a filled memo are for complete instantiations. -/
theorem complete_of_mem_tableOf {r r' : Resolved} (hm : memo.FilledFor c)
    (h : (key, r') ∈ memo.tableOf r) : ∃ d bindings, c.complete key = .ok (d, bindings, key) := by
  cases r with
  | schema s =>
    obtain ⟨entry, hentry, heq⟩ := List.mem_map.1 h
    cases heq
    obtain ⟨hinst, j, hj⟩ := hm.sound.schemas _ _ hentry
    obtain ⟨d, bindings, hd⟩ := hj.exists_complete
    rw [hinst] at hd
    exact ⟨d, bindings, complete_key hd⟩
  | expression e =>
    obtain ⟨entry, hentry, heq⟩ := List.mem_map.1 h
    cases heq
    obtain ⟨j, d, bindings, body, hd, -, -⟩ := hm.sound.expressions _ _ hentry
    exact ⟨d, bindings, complete_key hd⟩

/-! ## Asking again -/

/-- What a request for a plain alias returns is in the table of expressions behind it, where
the next request finds it. -/
theorem resolve_plain_again {d : Definition} {bindings : Bindings} {body : TypeExpr} {r : Resolved}
    (hd : c.complete i = .ok (d, bindings, key)) (hplain : d.plainExpression? = some body)
    (h : ((c.resolve i).run memo).outcome = .ok r) :
    (key, r) ∈ ((c.resolve i).run memo).state.tableOf r ∧
      ((c.resolve i).run ((c.resolve i).run memo).state).outcome = .ok r ∧
      ((c.resolve i).run ((c.resolve i).run memo).state).state =
        ((c.resolve i).run memo).state := by
  obtain ⟨known, hl, hr⟩ : ∃ known,
      ((c.resolve i).run memo).state.expressions.lookup key = some known ∧
        r = .expression known := by
    cases hl : memo.expressions.lookup key with
    | some known =>
      obtain ⟨houtcome, hstate⟩ := resolve_plain_known hd hplain hl
      rw [h] at houtcome
      cases houtcome
      exact ⟨known, by rw [hstate, hl], rfl⟩
    | none =>
      obtain ⟨houtcome, hstate⟩ := resolve_plain_new hd hplain hl
      rw [h] at houtcome
      cases houtcome
      refine ⟨_, ?_, rfl⟩
      rw [hstate, Memo.addExpression, List.lookup_append, hl]
      simp
  obtain ⟨houtcome, hstate⟩ := resolve_plain_known hd hplain hl
  rw [houtcome, hstate, hr]
  exact ⟨List.mem_map.2 ⟨(key, known), mem_of_lookup hl, rfl⟩, rfl, rfl⟩

/-- **What a request returns is found by the next one**, under the completed instantiation,
and that one leaves the memo as it is. -/
theorem resolve_again {r : Resolved} (hm : memo.FilledFor c)
    (h : ((c.resolve i).run memo).outcome = .ok r) :
    ∃ d bindings key, c.complete i = .ok (d, bindings, key) ∧
      (key, r) ∈ ((c.resolve i).run memo).state.tableOf r ∧
      ((c.resolve i).run ((c.resolve i).run memo).state).outcome = .ok r ∧
      ((c.resolve i).run ((c.resolve i).run memo).state).state =
        ((c.resolve i).run memo).state := by
  cases hd : c.complete i with
  | error e =>
    rw [(resolve_unknown memo hd).1] at h
    cases h
  | ok found =>
    obtain ⟨d, bindings, key⟩ := found
    refine ⟨d, bindings, key, rfl, ?_⟩
    cases hplain : d.plainExpression? with
    | some body => exact resolve_plain_again hd hplain h
    | none =>
      obtain ⟨houtcome, hstate⟩ := resolve_composition memo hd hplain
      rw [houtcome] at h
      cases hs : ((c.resolveStruct i).run memo).outcome with
      | error e =>
        rw [hs] at h
        cases h
      | ok s =>
        rw [hs] at h
        cases h
        have hi : (TypeExpr.generic i.name i.args).instantiation? = some i := rfl
        -- a composition that succeeded is in the memo under its completed name
        obtain ⟨j, d', bindings', key', hj, hd', hl⟩ := remembers_of_compose hm.closed hi hs
        rw [hi] at hj
        cases hj
        rw [hd] at hd'
        cases hd'
        obtain ⟨hagain, hsame⟩ := @compose_known c _ i [] d bindings key s hd hl c.maxDepth
        obtain ⟨houtcome', hstate'⟩ :=
          resolve_composition ((c.resolveStruct i).run memo).state hd hplain
        rw [hstate]
        refine ⟨List.mem_map.2 ⟨(key, s), mem_of_lookup hl, rfl⟩, ?_, ?_⟩
        · rw [houtcome', resolveStruct, hagain]
          rfl
        · rw [hstate', resolveStruct, hsame]

/-- **The spellings have one entry**: an entry is for a complete instantiation, and of the
spellings only the full one is. -/
theorem filter_spells {d : Definition} {name : String} {args full : List TypeExpr}
    {bindings : Bindings} {r : Resolved} (hm : memo.FilledFor c) (hkeyed : memo.KeyedOnce)
    (hd : c.registry.lookup name = .ok d) (h : d.bind args = .ok (bindings, full))
    (hmem : (⟨name, full⟩, r) ∈ memo.tableOf r) :
    (memo.tableOf r).filter (fun e => e.1.name = name ∧ Spells args full e.1.args) =
      [(⟨name, full⟩, r)] := by
  apply filter_eq_singleton (hkeyed.tableOf r) hmem
  intro e he
  rw [decide_eq_true_iff]
  constructor
  · rintro ⟨hkey, hspells⟩
    obtain ⟨d', bindings', hd'⟩ := complete_of_mem_tableOf hm he
    rw [← hkey] at hd ⊢
    rw [← args_eq_of_spells hd h hd' hspells]
  · intro hkey
    rw [hkey]
    exact ⟨rfl, spells_full h⟩

end Composer

namespace Session

theorem lasting_keyedOnce : Lasting fun _ memo => memo.KeyedOnce where
  empty _ := ⟨List.nodup_nil, List.nodup_nil⟩
  mono _ _ _ _ hm := hm
  resolveStruct c i := Composer.compose_keyedOnce c.maxDepth [] i
  resolve _ i := Composer.keeps_resolve_keyedOnce i

/-- **All spellings of an instantiation are one.** Let arguments be accepted for a definition
and completed. A list of which they are no more than a part, and which itself is a part of the
complete list, is bound alike and completed to the same list. In every session in which the
definition is registered, a request with that list runs as the one with the given arguments.
Once one of them has returned, the next ones return the same and leave the session as it is,
and of all entries that the table of the answer has for these spellings there is just one,
under the complete list. -/
theorem spellings_share_one_entry {d : Definition} {args full given : List TypeExpr}
    {bindings : Bindings} (h : d.bind args = .ok (bindings, full))
    (hgiven : Spells args full given) :
    d.bind given = .ok (bindings, full) ∧
    ∀ (env : Environment) (maxDepth : Option Int) (prelude : Bool) (history : List Call)
      (name : String),
      let s := (opened env maxDepth prelude).after history
      s.registry.lookup name = .ok d →
        let asked := (resolve ⟨name, args⟩).run s
        (resolve ⟨name, given⟩).run s = asked ∧
        (resolveStruct ⟨name, given⟩).run s = (resolveStruct ⟨name, args⟩).run s ∧
        ∀ r, asked.outcome = .ok r →
          ((resolve ⟨name, given⟩).run asked.state).outcome = .ok r ∧
          ((resolve ⟨name, given⟩).run asked.state).state = asked.state ∧
          (asked.state.memo.tableOf r).filter
              (fun e => e.1.name = name ∧ Spells args full e.1.args) =
            [(⟨name, full⟩, r)] := by
  have hbind := Definition.bind_of_spells h hgiven
  refine ⟨hbind, ?_⟩
  intro env maxDepth prelude history name s hd asked
  have hargs : s.composer.complete ⟨name, args⟩ = .ok (d, bindings, ⟨name, full⟩) :=
    Composer.complete_eq_ok.2 ⟨hd, h, rfl⟩
  have hcomplete : s.composer.complete ⟨name, given⟩ = s.composer.complete ⟨name, args⟩ := by
    rw [Composer.complete_of_spells hd h hgiven, hargs]
  have hname : (Instantiation.mk name given).name = (Instantiation.mk name args).name := rfl
  obtain ⟨hstruct, hresolve⟩ := Composer.resolve_congr hname hcomplete
  have hsame (s' : Session) (hs' : s'.composer = s.composer) :
      (resolve ⟨name, given⟩).run s' = (resolve ⟨name, args⟩).run s' := by
    simp only [resolve, resolving, onMemo, Action.run, hs', hresolve]
  refine ⟨hsame s rfl, ?_, ?_⟩
  · simp only [resolveStruct, resolving, onMemo, Action.run, hstruct]
  · intro r hr
    have hfilled : s.memo.FilledFor s.composer :=
      lasting_filledFor.after env maxDepth prelude history
    have hkeyed : s.memo.KeyedOnce := lasting_keyedOnce.after env maxDepth prelude history
    obtain ⟨d', bindings', key, hd', hmem, hagain, hstate⟩ :=
      Composer.resolve_again hfilled (outcome_resolving.1 hr)
    rw [hargs] at hd'
    cases hd'
    refine ⟨?_, ?_, ?_⟩
    · rw [hsame asked.state rfl]
      exact outcome_resolving.2 hagain
    · rw [hsame asked.state rfl]
      exact congrArg (fun memo => { s with memo := memo }) hstate
    · have hasked : asked.state.memo.FilledFor s.composer :=
        (Composer.resolve_fills hfilled).2
      have hkeyed' : asked.state.memo.KeyedOnce :=
        Composer.keeps_resolve_keyedOnce ⟨name, args⟩ s.memo hkeyed
      exact Composer.filter_spells hasked hkeyed' hd h hmem

/-- A range, its step, which is of the type of its ends unless it is given, and its marks,
which are a sequence of steps unless they are given. -/
def markedRange : StructDef :=
  { name := "Range"
    fields := .ofList (["T", "Step", "Marks"].map fun p =>
      (p.toLower, { expression := .reference p, tags := .empty, raw := p }))
    supertype := none
    parameters :=
      [{ name := "T", default := none }, { name := "Step", default := some (.reference "T") },
       { name := "Marks", default := some (.sequence (.reference "Step")) }] }

def marking : List Call := [.register "Range" (.definition (.ofStruct markedRange) .none)]

/-- A range of numbers is the same with its step written out, and has one entry. -/
theorem marked_ranges_share_an_entry :
    let s := (opened .empty none false).after marking
    let number : TypeExpr := .primitive "number"
    let full := [number, number, .sequence number]
    let asked := (resolve ⟨"Range", [number]⟩).run s
    (resolve ⟨"Range", [number, number]⟩).run s = asked ∧
      ∃ r, asked.outcome = .ok r ∧
        ((resolve ⟨"Range", [number, number]⟩).run asked.state).outcome = .ok r ∧
        (asked.state.memo.tableOf r).filter
            (fun e => e.1.name = "Range" ∧ Spells [number] full e.1.args) =
          [(⟨"Range", full⟩, r)] := by
  intro s number full asked
  have hbind : (Definition.ofStruct markedRange).bind [number] =
      .ok ([("Marks", .sequence number), ("Step", number), ("T", number)], full) := rfl
  have hgiven : Spells [number] full [number, number] := by decide
  obtain ⟨-, hsessions⟩ := spellings_share_one_entry hbind hgiven
  obtain ⟨hsame, -, hentry⟩ := hsessions .empty none false marking "Range" rfl
  have hreturns : asked.outcome.isOk = true := by decide
  obtain ⟨r, hr⟩ := exists_of_isOk hreturns
  obtain ⟨hagain, -, htable⟩ := hentry r hr
  exact ⟨hsame, r, hr, hagain, htable⟩

end Session

end WidgetSchema
