/-
What a failed resolution leaves behind.

A composition is entered when it is complete, whatever happens afterwards to the
composition it is a member of. So a failed resolution leaves the members that were
completed before it failed, and nothing of those that were not: `Memo.Growth` says
that entries are appended, for instantiations that the memo did not know and that
are not being composed.

It leaves nothing exactly if it fails early: each member on the way to the failure
was known before (`FailsEarly`). One direction is by induction on the derivation of
that, the other by induction on the room below the bound, because a member that is
resolved and was not known is an entry more.
-/
import WidgetSchema.Proofs.ClosedMemos
import WidgetSchema.Proofs.Histories

set_option autoImplicit false

namespace WidgetSchema

/-! ## Growing memos -/

/-- The second memo has further schemas, of instantiations that the first did not
know and that do not stand on the chain. -/
structure Memo.Growth (chain : List Instantiation)
    (added : List (Instantiation × ResolvedSchema)) (memo memo' : Memo) : Prop where
  appended : memo' = { memo with schemas := memo.schemas ++ added }
  fresh : ∀ p ∈ added, ¬ memo.Knows p.1 ∧ p.1 ∉ chain

namespace Memo

variable {memo memo' memo'' : Memo} {chain : List Instantiation} {key : Instantiation}
  {added more : List (Instantiation × ResolvedSchema)} {s : ResolvedSchema}

theorem Growth.refl (chain : List Instantiation) (memo : Memo) : memo.Growth chain [] memo where
  appended := by rw [List.append_nil]
  fresh := List.forall_mem_nil _

theorem Growth.within (h : memo.Growth chain added memo') : memo.Within memo' := by
  rw [h.appended]
  exact @within_union_left memo { schemas := added, expressions := [] }

theorem Growth.trans (h₁ : memo.Growth chain added memo') (h₂ : memo'.Growth chain more memo'') :
    memo.Growth chain (added ++ more) memo'' where
  appended := by rw [h₂.appended, h₁.appended, List.append_assoc]
  fresh := by
    rw [List.forall_mem_append]
    refine ⟨h₁.fresh, fun p hp => ?_⟩
    obtain ⟨hnew, hchain⟩ := h₂.fresh p hp
    exact ⟨fun hknown => hnew (h₁.within _ hknown), hchain⟩

/-- What is added while more is being composed is added all the same. -/
theorem Growth.of_longer (h : memo.Growth (chain ++ [key]) added memo') :
    memo.Growth chain added memo' where
  appended := h.appended
  fresh p hp := by
    obtain ⟨hnew, hchain⟩ := h.fresh p hp
    exact ⟨hnew, fun hmem => hchain (List.mem_append_left _ hmem)⟩

/-- A composition that did not stand on the chain is entered after its members. -/
theorem Growth.addSchema (h : memo.Growth (chain ++ [key]) added memo') (hnew : ¬ memo.Knows key)
    (hchain : key ∉ chain) (s : ResolvedSchema) :
    memo.Growth chain (added ++ [(key, s)]) (memo'.addSchema key s) where
  appended := by rw [h.appended, Memo.addSchema, List.append_assoc]
  fresh := by
    rw [List.forall_mem_append]
    refine ⟨h.of_longer.fresh, fun p hp => ?_⟩
    rw [List.mem_singleton.1 hp]
    exact ⟨hnew, hchain⟩

/-- What stands on the chain does not come to be known. -/
theorem Growth.not_knows (h : memo.Growth chain added memo') (hkey : key ∈ chain)
    (hnew : ¬ memo.Knows key) : ¬ memo'.Knows key := by
  have hunion : memo' = memo.union { schemas := added, expressions := [] } := h.appended
  rw [hunion, knows_union]
  rintro (hold | hadded)
  · exact hnew hold
  · obtain ⟨s, hs⟩ := Option.isSome_iff_exists.1 hadded
    exact (h.fresh _ (mem_of_lookup hs)).2 hkey

/-- Nothing is added exactly if the memo is as it was. -/
theorem Growth.eq_iff (h : memo.Growth chain added memo') : memo' = memo ↔ added = [] := by
  rw [h.appended]
  constructor
  · intro hsame
    have hschemas : memo.schemas ++ added = memo.schemas := congrArg Memo.schemas hsame
    exact List.append_right_eq_self.1 hschemas
  · rintro rfl
    rw [List.append_nil]

/-- A memo between a memo and itself is that memo. -/
theorem Growth.eq_of_growth (h₁ : memo.Growth chain added memo')
    (h₂ : memo'.Growth chain more memo) : memo' = memo := by
  have hnone := (h₁.trans h₂).eq_iff.1 rfl
  exact h₁.eq_iff.2 (List.append_eq_nil_iff.1 hnone).1

end Memo

namespace Composer

variable {c : Composer} {memo memo' : Memo} {chain : List Instantiation} {i : Instantiation}
  {resolve : Instantiation → Resolving ResolvedSchema}

/-! ## Resolution only adds -/

/-- A way to resolve that adds to every memo, on whatever chain it stands. -/
def Grows (chain : List Instantiation) (resolve : Instantiation → Resolving ResolvedSchema) :
    Prop :=
  ∀ i (memo : Memo), ∃ added, memo.Growth chain added ((resolve i).run memo).state

theorem mergeEach_grows (hr : Grows chain resolve) (owner : String) (members : List TypeExpr)
    (merged : Merged) (memo : Memo) :
    ∃ added, memo.Growth chain added ((mergeEach resolve owner members merged).run memo).state := by
  induction members generalizing merged memo with
  | nil => exact ⟨[], .refl chain memo⟩
  | cons member rest ih =>
    cases hi : member.instantiation? with
    | none =>
      rw [mergeEach_state_none owner rest merged hi]
      exact ⟨[], .refl chain memo⟩
    | some i =>
      obtain ⟨added, hadded⟩ := hr i memo
      rw [mergeEach_state_some owner rest merged hi]
      split
      · exact ⟨added, hadded⟩
      · split
        · exact ⟨added, hadded⟩
        · obtain ⟨more, hmore⟩ := ih _ _
          exact ⟨added ++ more, hadded.trans hmore⟩

/-- A fresh instantiation is not known yet and does not stand on the chain. -/
theorem new_of_fresh {key : Instantiation} {bindings : Bindings} {parts : Composition}
    (h : ((c.start chain i).run memo).outcome = .ok (.fresh key bindings parts)) :
    ¬ memo.Knows key ∧ key ∉ chain := by
  rw [start_outcome] at h
  split at h
  · cases h
  · split at h
    · cases h
    · next hnew =>
      split at h
      · cases h
      · split_ifs at h with hchain
        cases h
        exact ⟨by simp [Memo.Knows, hnew], hchain⟩

/-- **Resolution only adds**, whether it succeeds or fails: schemas of instantiations
that were not known and are not being composed. -/
theorem compose_grows (room : Nat) (chain : List Instantiation) :
    Grows chain (c.compose room chain) := by
  induction room generalizing chain with
  | zero =>
    intro i memo
    rw [compose_state]
    refine ⟨[], ?_⟩
    cases ((c.start chain i).run memo).outcome with
    | error e => exact .refl chain memo
    | ok start => cases start <;> exact .refl chain memo
  | succ room ih =>
    intro i memo
    rw [compose_state]
    cases hstart : ((c.start chain i).run memo).outcome with
    | error e => exact ⟨[], .refl chain memo⟩
    | ok start =>
      cases start with
      | known s => exact ⟨[], .refl chain memo⟩
      | fresh key bindings parts =>
        obtain ⟨hnew, hchain⟩ := new_of_fresh hstart
        let p : Plan := { key, bindings, parts }
        obtain ⟨added, hadded⟩ := mergeEach_grows (ih (chain ++ [key])) key.name p.members
          { held := .empty, lineage := [] } memo
        -- behind the members the own schema is added, or nothing if one of them failed
        obtain ⟨-, hstate⟩ := @composeNew_run memo (c.compose room (chain ++ [key])) p
        show ∃ added,
          memo.Growth chain added ((composeNew _ p.key p.bindings p.parts).run memo).state
        rw [hstate]
        split
        · exact ⟨added, hadded.of_longer⟩
        · exact ⟨_, hadded.addSchema hnew hchain _⟩

/-! ## Failing before anything is added -/

/-- The type names an instantiation whose schema the memo knows. -/
def Remembers (c : Composer) (memo : Memo) (t : TypeExpr) (s : ResolvedSchema) : Prop :=
  ∃ i d bindings key, t.instantiation? = some i ∧ c.complete i = .ok (d, bindings, key) ∧
    memo.schemas.lookup key = some s

/-- The next member ends the composition by itself: it names no type, or the memo
knows a schema for it that conflicts with what is held. -/
def Stuck (c : Composer) (memo : Memo) (held : OrderedMap Contribution) (t : TypeExpr) : Prop :=
  t.instantiation? = none ∨
    ∃ s conflict, c.Remembers memo t s ∧ mergeMember held s = .error conflict

/-- The composition of an instantiation on a chain fails, and each member that is
passed on the way to the failure is known. -/
inductive FailsEarly (c : Composer) (memo : Memo) : List Instantiation → Instantiation → Prop
  /-- It has no plan, or it stands on the chain. -/
  | start {chain : List Instantiation} {i : Instantiation} {e : SchemaError}
      (h : ((c.start chain i).run memo).outcome = .error e) : FailsEarly c memo chain i
  /-- The chain is as long as the bound allows. -/
  | bound {chain : List Instantiation} {i : Instantiation} {p : Plan}
      (hstart : ((c.start chain i).run memo).outcome = .ok (.fresh p.key p.bindings p.parts))
      (hbound : c.maxDepth ≤ chain.length) : FailsEarly c memo chain i
  /-- Behind known members that can be merged, a member is stuck. -/
  | member {chain : List Instantiation} {i : Instantiation} {p : Plan}
      {before rest : List TypeExpr} {t : TypeExpr} {parents : List ResolvedSchema}
      {held : OrderedMap Contribution}
      (hstart : ((c.start chain i).run memo).outcome = .ok (.fresh p.key p.bindings p.parts))
      (hmembers : p.members = before ++ t :: rest)
      (hbefore : List.Forall₂ (c.Remembers memo) before parents)
      (hheld : mergeMembers parents .empty = .ok held) (hstuck : c.Stuck memo held t) :
      FailsEarly c memo chain i
  /-- Behind known members that can be merged, a member fails early itself. -/
  | inside {chain : List Instantiation} {i j : Instantiation} {p : Plan}
      {before rest : List TypeExpr} {t : TypeExpr} {parents : List ResolvedSchema}
      {held : OrderedMap Contribution}
      (hstart : ((c.start chain i).run memo).outcome = .ok (.fresh p.key p.bindings p.parts))
      (hmembers : p.members = before ++ t :: rest)
      (hbefore : List.Forall₂ (c.Remembers memo) before parents)
      (hheld : mergeMembers parents .empty = .ok held) (hj : t.instantiation? = some j)
      (hfails : FailsEarly c memo (chain ++ [p.key]) j) : FailsEarly c memo chain i

/-- A known member is resolved from the memo, whatever the room and the chain. -/
theorem compose_remembered {t : TypeExpr} {s : ResolvedSchema} (h : c.Remembers memo t s)
    (room : Nat) (chain : List Instantiation) :
    ∃ i, t.instantiation? = some i ∧
      ((c.compose room chain i).run memo).outcome = .ok s ∧
      ((c.compose room chain i).run memo).state = memo := by
  obtain ⟨i, d, bindings, key, hi, hd, hlookup⟩ := h
  exact ⟨i, hi, compose_known hd hlookup room⟩

/-- Known members are merged without a change to the memo. -/
theorem mergeEach_remembered {before : List TypeExpr} {parents : List ResolvedSchema}
    (hbefore : List.Forall₂ (c.Remembers memo) before parents) (room : Nat)
    (chain : List Instantiation) (owner : String) (rest : List TypeExpr) (merged : Merged)
    {held : OrderedMap Contribution} (hheld : mergeMembers parents merged.held = .ok held) :
    ∃ merged' : Merged, merged'.held = held ∧
      ((mergeEach (c.compose room chain) owner (before ++ rest) merged).run memo).outcome =
        ((mergeEach (c.compose room chain) owner rest merged').run memo).outcome ∧
      ((mergeEach (c.compose room chain) owner (before ++ rest) merged).run memo).state =
        ((mergeEach (c.compose room chain) owner rest merged').run memo).state := by
  induction hbefore generalizing merged with
  | nil =>
    cases hheld
    exact ⟨merged, rfl, rfl, rfl⟩
  | @cons t s before parents ht hbefore ih =>
    obtain ⟨i, hi, houtcome, hstate⟩ := compose_remembered ht room chain
    rw [mergeMembers_cons] at hheld
    rw [List.cons_append, mergeEach_outcome_some owner _ merged hi,
      mergeEach_state_some owner _ merged hi, houtcome, hstate]
    dsimp only
    cases hmerge : mergeMember merged.held s with
    | error conflict =>
      rw [hmerge] at hheld
      cases hheld
    | ok held' =>
      rw [hmerge] at hheld
      exact ih { held := held', lineage := merged.lineage ++ s.lineage.toList } hheld

/-- What a fresh composition does with room for it. -/
theorem compose_fresh {p : Plan}
    (hstart : ((c.start chain i).run memo).outcome = .ok (.fresh p.key p.bindings p.parts))
    (room : Nat) :
    let merging := (mergeEach (c.compose room (chain ++ [p.key])) p.key.name p.members
      { held := .empty, lineage := [] }).run memo
    (∀ e, merging.outcome = .error e →
        ((c.compose (room + 1) chain i).run memo).outcome = .error e ∧
        ((c.compose (room + 1) chain i).run memo).state = merging.state) ∧
      ∀ merged, merging.outcome = .ok merged →
        ∃ s, ((c.compose (room + 1) chain i).run memo).outcome = .ok s ∧
          ((c.compose (room + 1) chain i).run memo).state = merging.state.addSchema p.key s := by
  intro merging
  obtain ⟨houtcome, hstate⟩ := @composeNew_run memo (c.compose room (chain ++ [p.key])) p
  rw [compose_outcome, compose_state, hstart]
  dsimp only
  rw [houtcome, hstate]
  constructor
  · intro e he
    rw [show _ = Except.error e from he]
    exact ⟨rfl, rfl⟩
  · intro merged hmerged
    rw [show _ = Except.ok merged from hmerged]
    exact ⟨_, rfl, rfl⟩

/-- How a composition can fail: it does not start, there is no room for it, or its
members fail; and only these add to the memo. -/
theorem compose_error_cases {room : Nat} {e : SchemaError}
    (h : ((c.compose room chain i).run memo).outcome = .error e) :
    (((c.start chain i).run memo).outcome = .error e ∧
        ((c.compose room chain i).run memo).state = memo) ∨
      ∃ p : Plan, ((c.start chain i).run memo).outcome = .ok (.fresh p.key p.bindings p.parts) ∧
        ((room = 0 ∧ ((c.compose room chain i).run memo).state = memo) ∨
          ∃ room', room = room' + 1 ∧
            ((mergeEach (c.compose room' (chain ++ [p.key])) p.key.name p.members
              { held := .empty, lineage := [] }).run memo).outcome = .error e ∧
            ((c.compose room chain i).run memo).state =
              ((mergeEach (c.compose room' (chain ++ [p.key])) p.key.name p.members
                { held := .empty, lineage := [] }).run memo).state) := by
  cases hstart : ((c.start chain i).run memo).outcome with
  | error e' =>
    rw [compose_outcome, hstart] at h
    cases h
    exact .inl ⟨rfl, by rw [compose_state, hstart]⟩
  | ok start =>
    cases start with
    | known s =>
      rw [compose_outcome, hstart] at h
      cases h
    | fresh key bindings parts =>
      refine .inr ⟨{ key, bindings, parts }, rfl, ?_⟩
      cases room with
      | zero => exact .inl ⟨rfl, by rw [compose_state, hstart]⟩
      | succ room =>
        -- with room the members are merged, and only their errors are left
        obtain ⟨hfail, hdone⟩ := compose_fresh (p := { key, bindings, parts }) hstart room
        refine .inr ⟨room, rfl, ?_⟩
        dsimp only at hfail hdone ⊢
        revert hfail hdone
        generalize (mergeEach (c.compose room (chain ++ [key])) key.name _ _).run memo = merging
        intro hfail hdone
        cases hmerging : merging.outcome with
        | error e' =>
          obtain ⟨herror, hstate⟩ := hfail e' hmerging
          rw [h] at herror
          cases herror
          exact ⟨rfl, hstate⟩
        | ok merged =>
          obtain ⟨s, hs, -⟩ := hdone merged hmerging
          rw [h] at hs
          cases hs

/-- A composition whose members fail behind known ones, and leave the memo as it was,
does so itself. -/
theorem compose_fails_behind {p : Plan} {before rest : List TypeExpr}
    {parents : List ResolvedSchema} {held : OrderedMap Contribution}
    (hstart : ((c.start chain i).run memo).outcome = .ok (.fresh p.key p.bindings p.parts))
    (hmembers : p.members = before ++ rest)
    (hbefore : List.Forall₂ (c.Remembers memo) before parents)
    (hheld : mergeMembers parents .empty = .ok held) (room : Nat)
    (hrest : ∀ merged : Merged, merged.held = held → ∃ e,
      ((mergeEach (c.compose room (chain ++ [p.key])) p.key.name rest merged).run memo).outcome =
        .error e ∧
      ((mergeEach (c.compose room (chain ++ [p.key])) p.key.name rest merged).run memo).state =
        memo) :
    (∃ e, ((c.compose (room + 1) chain i).run memo).outcome = .error e) ∧
      ((c.compose (room + 1) chain i).run memo).state = memo := by
  obtain ⟨merged, hmerged, houtcome, hstate⟩ := mergeEach_remembered hbefore room
    (chain ++ [p.key]) p.key.name rest { held := .empty, lineage := [] } hheld
  rw [← hmembers] at houtcome hstate
  obtain ⟨e, he, hsame⟩ := hrest merged hmerged
  obtain ⟨hfail, -⟩ := compose_fresh hstart room
  obtain ⟨herror, hleft⟩ := hfail e (houtcome.trans he)
  exact ⟨⟨e, herror⟩, hleft.trans (hstate.trans hsame)⟩

/-- **Failing early leaves the memo as it was.** -/
theorem FailsEarly.fails (h : c.FailsEarly memo chain i) (room : Nat)
    (hroom : room + chain.length = c.maxDepth) :
    (∃ e, ((c.compose room chain i).run memo).outcome = .error e) ∧
      ((c.compose room chain i).run memo).state = memo := by
  -- the bound ends whatever would begin without room
  have hfull {chain : List Instantiation} {i : Instantiation} {p : Plan}
      (hstart : ((c.start chain i).run memo).outcome = .ok (.fresh p.key p.bindings p.parts)) :
      (∃ e, ((c.compose 0 chain i).run memo).outcome = .error e) ∧
        ((c.compose 0 chain i).run memo).state = memo := by
    rw [compose_outcome, compose_state, hstart]
    exact ⟨⟨_, rfl⟩, rfl⟩
  induction h generalizing room with
  | start h =>
    rw [compose_outcome, compose_state, h]
    exact ⟨⟨_, rfl⟩, rfl⟩
  | bound hstart hbound =>
    have hzero : room = 0 := by omega
    rw [hzero]
    exact hfull hstart
  | @member chain i p before rest t parents held hstart hmembers hbefore hheld hstuck =>
    cases room with
    | zero => exact hfull hstart
    | succ room =>
      apply compose_fails_behind hstart hmembers hbefore hheld
      intro merged hmerged
      rcases hstuck with hnone | ⟨s, conflict, hremembers, hconflict⟩
      · rw [mergeEach_outcome_none _ _ _ hnone, mergeEach_state_none _ _ _ hnone]
        exact ⟨_, rfl, rfl⟩
      · obtain ⟨j, hj, houtcome, hstate⟩ := compose_remembered hremembers room (chain ++ [p.key])
        rw [mergeEach_outcome_some _ _ _ hj, mergeEach_state_some _ _ _ hj, houtcome, hstate,
          hmerged]
        dsimp only
        rw [hconflict]
        exact ⟨_, rfl, rfl⟩
  | @inside chain i j p before rest t parents held hstart hmembers hbefore hheld hj hfails ih =>
    cases room with
    | zero => exact hfull hstart
    | succ room =>
      apply compose_fails_behind hstart hmembers hbefore hheld
      intro merged _
      obtain ⟨⟨e, he⟩, hmemo⟩ := ih room (by rw [List.length_append, List.length_singleton]; omega)
      rw [mergeEach_outcome_some _ _ _ hj, mergeEach_state_some _ _ _ hj, he, hmemo]
      exact ⟨_, rfl, rfl⟩

/-- A composition that returns and leaves the memo as it was is known. -/
theorem remembers_of_state {t : TypeExpr} {s : ResolvedSchema} {room : Nat}
    (hi : t.instantiation? = some i)
    (houtcome : ((c.compose room chain i).run memo).outcome = .ok s)
    (hstate : ((c.compose room chain i).run memo).state = memo) : c.Remembers memo t s := by
  cases hstart : ((c.start chain i).run memo).outcome with
  | error e =>
    rw [compose_outcome, hstart] at houtcome
    cases houtcome
  | ok start =>
    cases start with
    | known s' =>
      rw [compose_outcome, hstart] at houtcome
      cases houtcome
      obtain ⟨d, bindings, key, hd, hlookup⟩ := start_eq_known hstart
      exact ⟨i, d, bindings, key, hi, hd, hlookup⟩
    | fresh key bindings parts =>
      cases room with
      | zero =>
        rw [compose_outcome, hstart] at houtcome
        cases houtcome
      | succ room =>
        -- otherwise it would have been entered, and would be one entry more
        exfalso
        let p : Plan := { key, bindings, parts }
        obtain ⟨hfail, hdone⟩ := compose_fresh (p := p) hstart room
        obtain ⟨added, hadded⟩ := mergeEach_grows (compose_grows room (chain ++ [key])) key.name
          p.members { held := .empty, lineage := [] } memo
        cases hmerging : ((mergeEach (c.compose room (chain ++ [key])) key.name p.members
            { held := .empty, lineage := [] }).run memo).outcome with
        | error e =>
          rw [(hfail e hmerging).1] at houtcome
          cases houtcome
        | ok merged =>
          obtain ⟨s', -, hentered⟩ := hdone merged hmerging
          obtain ⟨hnew, hchain⟩ := new_of_fresh hstart
          have hgrowth := hadded.addSchema hnew hchain s'
          have hnone := hgrowth.eq_iff.1 (hentered.symm.trans hstate)
          simp at hnone

/-- The loop over the members that fails and leaves the memo as it was fails behind
known members, at a member that is stuck or that leaves the memo as it was. -/
theorem mergeEach_early {room : Nat} {owner : String} {members : List TypeExpr} {merged : Merged}
    {e : SchemaError}
    (houtcome :
      ((mergeEach (c.compose room chain) owner members merged).run memo).outcome = .error e)
    (hstate : ((mergeEach (c.compose room chain) owner members merged).run memo).state = memo) :
    ∃ before t rest parents held, members = before ++ t :: rest ∧
      List.Forall₂ (c.Remembers memo) before parents ∧ mergeMembers parents merged.held = .ok held ∧
      (c.Stuck memo held t ∨ ∃ j e, t.instantiation? = some j ∧
        ((c.compose room chain j).run memo).outcome = .error e ∧
        ((c.compose room chain j).run memo).state = memo) := by
  induction members generalizing merged with
  | nil => cases houtcome
  | cons t rest ih =>
    cases hi : t.instantiation? with
    | none => exact ⟨[], t, rest, [], merged.held, rfl, .nil, rfl, .inl (.inl hi)⟩
    | some i =>
      rw [mergeEach_outcome_some owner rest merged hi] at houtcome
      rw [mergeEach_state_some owner rest merged hi] at hstate
      obtain ⟨added, hadded⟩ := compose_grows (c := c) room chain i memo
      cases hparent : ((c.compose room chain i).run memo).outcome with
      | error e' =>
        rw [hparent] at hstate
        exact ⟨[], t, rest, [], merged.held, rfl, .nil, rfl, .inr ⟨i, e', hi, hparent, hstate⟩⟩
      | ok parent =>
        rw [hparent] at houtcome hstate
        dsimp only at houtcome hstate
        cases hmerge : mergeMember merged.held parent with
        | error conflict =>
          rw [hmerge] at hstate
          have hremembers := remembers_of_state hi hparent hstate
          exact ⟨[], t, rest, [], merged.held, rfl, .nil, rfl,
            .inl (.inr ⟨parent, conflict, hremembers, hmerge⟩)⟩
        | ok held =>
          rw [hmerge] at houtcome hstate
          dsimp only at houtcome hstate
          -- the memo lies between itself and itself, so this member added nothing
          obtain ⟨more, hmore⟩ := mergeEach_grows (compose_grows (c := c) room chain) owner rest
            { held, lineage := merged.lineage ++ parent.lineage.toList }
            ((c.compose room chain i).run memo).state
          rw [hstate] at hmore
          have hsame := hadded.eq_of_growth hmore
          rw [hsame] at houtcome hstate
          obtain ⟨before, t', rest', parents, held', hsplit, hbefore, hheld, hend⟩ :=
            ih houtcome hstate
          refine ⟨t :: before, t', rest', parent :: parents, held', ?_, ?_, ?_, hend⟩
          · rw [hsplit, List.cons_append]
          · exact .cons (remembers_of_state hi hparent hsame) hbefore
          · rw [mergeMembers_cons, hmerge]
            exact hheld

/-- **What fails and leaves the memo as it was fails early.** -/
theorem failsEarly_of_state (room : Nat) (hroom : room + chain.length = c.maxDepth)
    {e : SchemaError} (houtcome : ((c.compose room chain i).run memo).outcome = .error e)
    (hstate : ((c.compose room chain i).run memo).state = memo) : c.FailsEarly memo chain i := by
  induction room generalizing chain i e with
  | zero =>
    rcases compose_error_cases houtcome with ⟨hstart, -⟩ | ⟨p, hstart, -⟩
    · exact .start hstart
    · exact .bound hstart (by omega)
  | succ room ih =>
    rcases compose_error_cases houtcome with ⟨hstart, -⟩ |
      ⟨p, hstart, ⟨hzero, -⟩ | ⟨room', hsucc, hmerging, hmemo⟩⟩
    · exact .start hstart
    · cases hzero
    · cases hsucc
      rw [hmemo] at hstate
      obtain ⟨before, t, rest, parents, held, hsplit, hbefore, hheld, hend⟩ :=
        mergeEach_early hmerging hstate
      rcases hend with hstuck | ⟨j, e', hj, hfails, hsame⟩
      · exact .member hstart hsplit hbefore hheld hstuck
      · refine .inside hstart hsplit hbefore hheld hj (ih ?_ hfails hsame)
        rw [List.length_append, List.length_singleton]
        omega

/-- **A failed composition is not entered itself.** -/
theorem not_knows_of_error {d : Definition} {bindings : Bindings} {key : Instantiation}
    (hd : c.complete i = .ok (d, bindings, key)) {room : Nat} {e : SchemaError}
    (houtcome : ((c.compose room chain i).run memo).outcome = .error e) :
    ¬ ((c.compose room chain i).run memo).state.Knows key := by
  have hnew : ¬ memo.Knows key := by
    intro hknows
    obtain ⟨s, hs⟩ := Option.isSome_iff_exists.1 hknows
    have hstart : ((c.start chain i).run memo).outcome = .ok (.known s) := by
      rw [start_outcome, hd]
      dsimp only
      rw [hs]
    rw [compose_outcome, hstart] at houtcome
    cases houtcome
  rcases compose_error_cases houtcome with ⟨-, hsame⟩ |
    ⟨p, hstart, ⟨-, hsame⟩ | ⟨room', -, -, hstate⟩⟩
  · rw [hsame]
    exact hnew
  · rw [hsame]
    exact hnew
  · -- its members do not add what is being composed
    obtain ⟨d', hd', -⟩ := plan_eq_ok.1 (start_eq_fresh hstart)
    rw [hd] at hd'
    cases hd'
    obtain ⟨added, hadded⟩ := mergeEach_grows (compose_grows (c := c) room' (chain ++ [p.key]))
      p.key.name p.members { held := .empty, lineage := [] } memo
    rw [hstate]
    exact hadded.not_knows (List.mem_append_right _ List.mem_cons_self) hnew

/-- A request that fails in `resolve` fails in `resolveStruct`, and leaves the same. -/
theorem resolve_error {e : SchemaError} (h : ((c.resolve i).run memo).outcome = .error e) :
    ((c.resolveStruct i).run memo).outcome = .error e ∧
      ((c.resolve i).run memo).state = ((c.resolveStruct i).run memo).state := by
  unfold resolve at h ⊢
  rw [Action.outcome_bind] at h
  rw [Action.state_bind]
  simp only [Action.run_ofExcept] at h ⊢
  cases hd : c.complete i with
  | error e' =>
    rw [hd] at h
    cases h
    have hstart : ((c.start [] i).run memo).outcome = .error e := by rw [start_outcome, hd]
    rw [resolveStruct, compose_outcome, compose_state, hstart]
    exact ⟨rfl, rfl⟩
  | ok found =>
    obtain ⟨d, bindings, key⟩ := found
    rw [hd] at h
    dsimp only at h ⊢
    cases hplain : d.plainExpression? with
    | none =>
      rw [hplain] at h
      have hmap : Resolved.schema <$> c.resolveStruct i =
          (c.resolveStruct i >>= fun s => pure (Resolved.schema s) : Resolving Resolved) := rfl
      dsimp only at h ⊢
      rw [hmap] at h ⊢
      rw [Action.outcome_bind] at h
      rw [Action.state_bind]
      cases hstruct : ((c.resolveStruct i).run memo).outcome with
      | error e' =>
        rw [hstruct] at h
        cases h
        exact ⟨rfl, rfl⟩
      | ok s =>
        rw [hstruct] at h
        cases h
    | some body =>
      -- an expression is always returned
      rw [hplain] at h
      dsimp only at h
      rw [Action.outcome_bind] at h
      simp only [Action.run_get] at h
      cases hl : memo.expressions.lookup key <;> rw [hl] at h <;> cases h

end Composer

namespace Session

theorem outcome_resolving_error {α : Type} {x : Composer → Action SchemaError Memo α}
    {s : Session} {e : Fault} (h : ((resolving x).run s).outcome = .error e) :
    ∃ fault, ((x s.composer).run s.memo).outcome = .error fault ∧ e = .schema fault := by
  have houtcome : ((resolving x).run s).outcome =
      ((x s.composer).run s.memo).outcome.mapError Fault.schema := rfl
  rw [houtcome] at h
  cases hx : ((x s.composer).run s.memo).outcome with
  | error fault =>
    rw [hx] at h
    cases h
    exact ⟨fault, rfl, rfl⟩
  | ok a =>
    rw [hx] at h
    cases h

/-- The error in a type that a request ends with is that of the composer. -/
theorem outcome_resolving_schema {α : Type} {x : Composer → Action SchemaError Memo α}
    {s : Session} {e : SchemaError} (h : ((resolving x).run s).outcome = .error (.schema e)) :
    ((x s.composer).run s.memo).outcome = .error e := by
  obtain ⟨fault, hfault, hsame⟩ := outcome_resolving_error h
  cases hsame
  exact hfault

/-- What a failed request for an instantiation leaves of a session: the expressions
as they were; behind the schemas, further ones, each of them the schema that the
definitions give an instantiation that was not known, and none for the failed
instantiation; and no further one exactly if it failed early. -/
structure FailureLeaves (s : Session) (i : Instantiation) (s' : Session) : Prop where
  expressions : s'.memo.expressions = s.memo.expressions
  schemas : ∃ added, s'.memo.schemas = s.memo.schemas ++ added ∧
    ∀ key t, (key, t) ∈ added →
      ¬ s.memo.Knows key ∧ t.instantiation = key ∧ ∃ j, s.composer.Derives j t
  own : ∀ d bindings key, s.composer.complete i = .ok (d, bindings, key) → ¬ s'.memo.Knows key
  unchanged : s'.memo = s.memo ↔ s.composer.FailsEarly s.memo [] i
  size : s'.memo.size = s.memo.size ↔ s.composer.FailsEarly s.memo [] i

/-- A failed request for a schema leaves the session so, if its memo is sound. -/
theorem failureLeaves_of_sound {s s' : Session} {i : Instantiation} {e : SchemaError}
    (hsound : s.memo.SoundFor s.composer)
    (houtcome : ((s.composer.resolveStruct i).run s.memo).outcome = .error e)
    (hmemo : s'.memo = ((s.composer.resolveStruct i).run s.memo).state) :
    FailureLeaves s i s' := by
  obtain ⟨added, hadded⟩ := Composer.compose_grows (c := s.composer) s.maxDepth [] i s.memo
  have hgrowth : s.memo.Growth [] added s'.memo := by
    rw [hmemo]
    exact hadded
  -- the memo is the same only if the request fails before anything is composed
  have hunchanged : s'.memo = s.memo ↔ s.composer.FailsEarly s.memo [] i := by
    rw [hmemo]
    exact ⟨fun hsame => Composer.failsEarly_of_state _ rfl houtcome hsame,
      fun hearly => (hearly.fails _ rfl).2⟩
  refine ⟨?_, ⟨added, ?_, fun key t hmem => ?_⟩, fun d bindings key hd => ?_, hunchanged, ?_⟩
  · rw [hgrowth.appended]
  · rw [hgrowth.appended]
  · refine ⟨(hgrowth.fresh _ hmem).1, ?_⟩
    have hderived : s'.memo.DerivedBy s.composer := by
      rw [hmemo]
      exact Composer.resolveStruct_state hsound.schemas
    apply hderived
    rw [hgrowth.appended]
    exact List.mem_append_right _ hmem
  · rw [hmemo]
    exact Composer.not_knows_of_error hd houtcome
  · rw [← hunchanged, hgrowth.eq_iff, hgrowth.appended, Memo.size, Memo.size, List.length_append]
    dsimp only
    constructor
    · intro hsize
      exact List.length_eq_zero_iff.1 (by omega)
    · rintro rfl
      rfl

/-- **A failed resolution keeps what it completed.** After any history, a request
that fails leaves the session as `FailureLeaves` says. -/
theorem failure_keeps_completed (env : Environment) (maxDepth : Option Int) (prelude : Bool)
    (history : List Call) (i : Instantiation) :
    let s := (opened env maxDepth prelude).after history
    (∀ e, ((resolveStruct i).run s).outcome = .error e →
        FailureLeaves s i ((resolveStruct i).run s).state) ∧
      ∀ e, ((resolve i).run s).outcome = .error e →
        FailureLeaves s i ((resolve i).run s).state := by
  intro s
  have hsound : s.memo.SoundFor s.composer := lasting_soundFor.after env maxDepth prelude history
  constructor
  · intro e he
    obtain ⟨fault, hfault, -⟩ := outcome_resolving_error he
    exact failureLeaves_of_sound hsound hfault rfl
  · intro e he
    obtain ⟨fault, hfault, -⟩ := outcome_resolving_error he
    obtain ⟨hstruct, hstate⟩ := Composer.resolve_error hfault
    exact failureLeaves_of_sound hsound hstruct hstate

open Composer.ofPlainTypes in
/-- A sum of a type that there is and one that is missing. -/
def brokenSum : List Call :=
  [.register "A" (.definition (plain "A" [] [("x", "number")]) .none),
   .register "N" (.definition (plain "N" ["A", "Missing"] []) .none)]

/-- Once its first member is known, the broken sum fails early and leaves nothing. -/
theorem known_member_fails_early :
    let s := (opened .empty none false).after (brokenSum ++ [.resolve ⟨"A", []⟩])
    s.memo.size = 1 ∧ s.composer.FailsEarly s.memo [] ⟨"N", []⟩ ∧
      ((resolve ⟨"N", []⟩).run s).outcome = .error (.schema (.unknownType "Missing")) := by
  intro s
  have hfails : ((resolve ⟨"N", []⟩).run s).outcome =
      .error (.schema (.unknownType "Missing")) := by rfl
  have hsize : ((resolve ⟨"N", []⟩).run s).state.memo.size = s.memo.size := by decide
  have hkeeps := failure_keeps_completed .empty none false
    (brokenSum ++ [.resolve ⟨"A", []⟩]) ⟨"N", []⟩
  have hleaves := hkeeps.2 _ hfails
  exact ⟨by decide, hleaves.size.1 hsize, hfails⟩

/-- Asked for at once, the broken sum fails and leaves its first member. -/
theorem failure_leaves_member :
    let s := (opened .empty none false).after brokenSum
    ((resolve ⟨"N", []⟩).run s).outcome = .error (.schema (.unknownType "Missing")) ∧
      s.memo.size = 0 ∧ ((resolve ⟨"N", []⟩).run s).state.memo.size = 1 := by
  exact ⟨rfl, by decide, by decide⟩

end Session

end WidgetSchema
