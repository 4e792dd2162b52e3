/-
Resolution with a memo, against derivation without one.

A memo is *derived* when each of its schemas is the one the definitions give. The
empty memo is, and every resolution keeps it so, whether it succeeds or fails,
because an instantiation is entered only when its composition is complete
(`compose_derived`). Whatever a resolution returns is then the derived schema.

The converse is `resolveStruct_of_plan`: an instantiation that has a schema is
resolved to it unless the bound on the nesting stops the resolution. The chain
never does: what stands on it is above what is being resolved, and so cannot be
derived below the height that this one needs.
-/
import Mathlib.Data.Nat.Find
import WidgetSchema.Proofs.Actions
import WidgetSchema.Proofs.Derivation
import WidgetSchema.Proofs.HeldFields

set_option autoImplicit false

namespace WidgetSchema

/-- Every remembered schema is the one the definitions give. -/
def Memo.DerivedBy (memo : Memo) (c : Composer) : Prop :=
  ∀ key s, (key, s) ∈ memo.schemas → s.instantiation = key ∧ ∃ i, c.Derives i s

namespace Memo

variable {c : Composer} {memo : Memo}

theorem empty_derivedBy (c : Composer) : Memo.empty.DerivedBy c := by
  intro key s h
  simp [empty] at h

theorem DerivedBy.addSchema {i : Instantiation} {s : ResolvedSchema} (h : memo.DerivedBy c)
    (hs : c.Derives i s) : (memo.addSchema s.instantiation s).DerivedBy c := by
  intro key t ht
  rcases List.mem_append.1 ht with ht | ht
  · exact h key t ht
  · cases List.mem_singleton.1 ht
    exact ⟨rfl, i, hs⟩

/-- What a memo knows of a completed instantiation is what the definitions give
the instantiation that was completed. -/
theorem DerivedBy.lookup {i key : Instantiation} {d : Definition} {bindings : Bindings}
    {s : ResolvedSchema} (h : memo.DerivedBy c) (hi : c.complete i = .ok (d, bindings, key))
    (hs : memo.schemas.lookup key = some s) : c.Derives i s := by
  obtain ⟨hkey, j, hj⟩ := h key s (mem_of_lookup hs)
  obtain ⟨p, -, hp, -⟩ := Composer.derives_iff.1 hj
  -- the entry was derived for an instantiation that completes to the same key
  have hpkey : p.key = key := by rw [← hj.instantiation_eq hp, hkey]
  subst hpkey
  obtain ⟨height, hheight⟩ := hj
  refine ⟨height, ?_⟩
  rw [Composer.derive_congr (j := j) _ height, hheight]
  rw [Composer.plan_of_key_eq hi hp, hp]

end Memo

namespace Composer

variable {c : Composer} {memo : Memo} {chain : List Instantiation} {i : Instantiation}

/-! ## Looking an instantiation up -/

@[simp] theorem start_state : ((c.start chain i).run memo).state = memo := by
  unfold start
  cases hc : c.complete i with
  | error e => simp [Action.state_bind]
  | ok found =>
    obtain ⟨d, bindings, key⟩ := found
    cases hl : memo.schemas.lookup key with
    | some s => simp [Action.state_bind, hl, Action.run_pure]
    | none =>
      cases hd : d.composition with
      | error e => simp [Action.state_bind, hl, hd]
      | ok parts =>
        by_cases hk : key ∈ chain <;> simp [Action.state_bind, hl, hd, hk, Action.run_pure]

/-- What looking up decides, in the order in which it decides. -/
theorem start_outcome :
    ((c.start chain i).run memo).outcome =
      match c.complete i with
      | .error e => .error e
      | .ok (d, bindings, key) =>
        match memo.schemas.lookup key with
        | some s => .ok (.known s)
        | none =>
          match d.composition with
          | .error e => .error e
          | .ok parts =>
            if key ∈ chain then
              .error (.inheritanceCycle (chain.map Instantiation.label ++ [i.name]))
            else .ok (.fresh key bindings parts) := by
  unfold start
  cases hc : c.complete i with
  | error e => simp [Action.outcome_bind]
  | ok found =>
    obtain ⟨d, bindings, key⟩ := found
    cases hl : memo.schemas.lookup key with
    | some s => simp [Action.outcome_bind, hl, Action.run_pure]
    | none =>
      cases hd : d.composition with
      | error e => simp [Action.outcome_bind, hl, hd]
      | ok parts =>
        by_cases hk : key ∈ chain <;> simp [Action.outcome_bind, hl, hd, hk, Action.run_pure]

/-- A known instantiation completes to an entry of the memo. -/
theorem start_eq_known {s : ResolvedSchema}
    (h : ((c.start chain i).run memo).outcome = .ok (.known s)) :
    ∃ d bindings key, c.complete i = .ok (d, bindings, key) ∧
      memo.schemas.lookup key = some s := by
  rw [start_outcome] at h
  cases hc : c.complete i with
  | error e => simp [hc] at h
  | ok found =>
    obtain ⟨d, bindings, key⟩ := found
    refine ⟨d, bindings, key, rfl, ?_⟩
    simp only [hc] at h
    cases hl : memo.schemas.lookup key with
    | some t =>
      rw [hl] at h
      cases h
      rfl
    | none =>
      simp only [hl] at h
      split at h
      · cases h
      · split at h <;> cases h

/-- A fresh instantiation is handed on with its plan. -/
theorem start_eq_fresh {key : Instantiation} {bindings : Bindings} {parts : Composition}
    (h : ((c.start chain i).run memo).outcome = .ok (.fresh key bindings parts)) :
    c.plan i = .ok { key, bindings, parts } := by
  rw [start_outcome] at h
  cases hc : c.complete i with
  | error e => simp [hc] at h
  | ok found =>
    obtain ⟨d, bs, k⟩ := found
    simp only [hc] at h
    split at h
    · cases h
    · split at h
      · cases h
      · next hparts =>
        split at h <;> cases h
        exact plan_eq_ok.2 ⟨d, hc, hparts⟩

/-- An instantiation that has a plan and stands nowhere on the chain is known or fresh. -/
theorem start_of_plan {p : Plan} (hp : c.plan i = .ok p) (hchain : p.key ∉ chain) :
    (∃ s, ((c.start chain i).run memo).outcome = .ok (.known s)) ∨
      ((c.start chain i).run memo).outcome = .ok (.fresh p.key p.bindings p.parts) := by
  obtain ⟨d, hd, hparts⟩ := plan_eq_ok.1 hp
  rw [start_outcome, hd]
  cases hl : memo.schemas.lookup p.key with
  | some s => exact .inl ⟨s, by simp only [hl]⟩
  | none => exact .inr (by simp only [hl, hparts, if_neg hchain])

/-! ## Whatever is returned or remembered is derived -/

/-- A way to resolve instantiations that keeps derived memos derived and returns
derived schemas only. -/
def Faithful (c : Composer) (resolve : Instantiation → Resolving ResolvedSchema) : Prop :=
  ∀ i memo, memo.DerivedBy c →
    ((resolve i).run memo).state.DerivedBy c ∧
      ∀ s, ((resolve i).run memo).outcome = .ok s → c.Derives i s

variable {resolve : Instantiation → Resolving ResolvedSchema}

/-- A sequence whose parts keep a memo derived keeps it derived. -/
theorem bind_derived {α β : Type} {x : Resolving α} {f : α → Resolving β}
    (hx : (x.run memo).state.DerivedBy c)
    (hf : ∀ a, (x.run memo).outcome = .ok a →
      ((f a).run (x.run memo).state).state.DerivedBy c) :
    ((x >>= f).run memo).state.DerivedBy c :=
  Action.bind_invariant (P := (Memo.DerivedBy · c)) hx hf

/-- The loop over the members keeps the memo derived, member after member. -/
theorem mergeEach_state (hr : c.Faithful resolve) (owner : String) {members : List TypeExpr}
    {merged : Merged} (hm : memo.DerivedBy c) :
    ((mergeEach resolve owner members merged).run memo).state.DerivedBy c := by
  induction members generalizing merged memo with
  | nil => exact hm
  | cons member rest ih =>
    rw [mergeEach]
    cases member.instantiation? with
    | none => exact hm
    | some i =>
      have hparent := (hr i memo hm).1
      refine bind_derived hparent fun parent _ => ?_
      cases mergeMember merged.held parent with
      | error conflict => exact bind_derived hparent fun _ _ => hparent
      | ok held => exact ih hparent

/-- If the loop over the members returns, it has merged the members' derived schemas. -/
theorem mergeEach_ok (hr : c.Faithful resolve) {owner : String} {members : List TypeExpr}
    {merged result : Merged} (hm : memo.DerivedBy c)
    (h : ((mergeEach resolve owner members merged).run memo).outcome = .ok result) :
    ∃ parents, c.DerivesEach members parents ∧
      mergeMembers parents merged.held = .ok result.held ∧
      result.lineage = merged.lineage ++ parents.flatMap fun s => s.lineage.toList := by
  induction members generalizing merged memo with
  | nil =>
    cases h
    exact ⟨[], .nil, rfl, by simp⟩
  | cons member rest ih =>
    rw [mergeEach] at h
    cases hi : member.instantiation? with
    | none =>
      rw [hi] at h
      cases h
    | some i =>
      simp only [hi, Action.outcome_bind_eq_ok] at h
      obtain ⟨parent, hparent, h⟩ := h
      -- the first member is derived and leaves a derived memo to the others
      obtain ⟨hstate, hderives⟩ := hr i memo hm
      cases hmerge : mergeMember merged.held parent with
      | error conflict =>
        simp only [hmerge, Action.outcome_bind_eq_ok] at h
        obtain ⟨-, -, h⟩ := h
        cases h
      | ok held =>
        simp only [hmerge] at h
        obtain ⟨parents, hparents, hheld, hlineage⟩ := ih hstate h
        refine ⟨parent :: parents, .cons ⟨i, hi, hderives parent hparent⟩ hparents, ?_, ?_⟩
        · rw [mergeMembers_cons, hmerge]
          exact hheld
        · rw [hlineage, List.flatMap_cons, List.append_assoc]

theorem composeNew_state (hr : c.Faithful resolve) {p : Plan} (hp : c.plan i = .ok p)
    (hm : memo.DerivedBy c) :
    ((composeNew resolve p.key p.bindings p.parts).run memo).state.DerivedBy c ∧
      ∀ s, ((composeNew resolve p.key p.bindings p.parts).run memo).outcome = .ok s →
        c.Derives i s := by
  -- the only new entry is the schema that the plan combines
  have hnew : ∀ merged,
      ((mergeEach resolve p.key.name p.members { held := .empty, lineage := [] }).run memo).outcome
        = .ok merged →
      c.Derives i (assemble p.key p.bindings p.parts.fields merged) := by
    intro merged h
    obtain ⟨parents, hparents, hheld, hlineage⟩ := mergeEach_ok hr hm h
    refine derives_iff.2 ⟨p, parents, hp, hparents, Plan.combine_eq_ok.2 ⟨merged.held, hheld, ?_⟩⟩
    rw [List.nil_append] at hlineage
    rw [← hlineage]
  unfold composeNew
  constructor
  · refine bind_derived (mergeEach_state hr _ hm) fun merged hmerged => ?_
    exact (mergeEach_state hr p.key.name hm).addSchema (hnew merged hmerged)
  · intro s h
    obtain ⟨merged, hmerged, h⟩ := Action.outcome_bind_eq_ok.1 h
    cases h
    exact hnew merged hmerged

/-- After a lookup, a known schema is derived and the memo is as before, so it is
enough that what is done with a fresh instantiation is right. -/
theorem start_then {next : Instantiation → Bindings → Composition → Resolving ResolvedSchema}
    (hm : memo.DerivedBy c)
    (hnext : ∀ p, c.plan i = .ok p →
      ((next p.key p.bindings p.parts).run memo).state.DerivedBy c ∧
        ∀ s, ((next p.key p.bindings p.parts).run memo).outcome = .ok s → c.Derives i s) :
    let action : Resolving ResolvedSchema := do
      match ← c.start chain i with
      | .known schema => return schema
      | .fresh key bindings parts => next key bindings parts
    (action.run memo).state.DerivedBy c ∧
      ∀ s, (action.run memo).outcome = .ok s → c.Derives i s := by
  intro action
  constructor
  · refine bind_derived (by simpa using hm) fun start hstart => ?_
    rw [start_state]
    cases start with
    | known t => exact hm
    | fresh key bindings parts => exact (hnext _ (start_eq_fresh hstart)).1
  · intro s h
    obtain ⟨start, hstart, h⟩ := Action.outcome_bind_eq_ok.1 h
    rw [start_state] at h
    cases start with
    | known t =>
      cases h
      obtain ⟨d, bindings, key, hd, hl⟩ := start_eq_known hstart
      exact hm.lookup hd hl
    | fresh key bindings parts => exact (hnext _ (start_eq_fresh hstart)).2 s h

/-- **Resolution derives.** From a derived memo, a resolution at any depth ends in
a derived memo, whether it succeeds or fails, and returns the derived schema if
it returns one. -/
theorem compose_derived (room : Nat) (chain : List Instantiation) :
    c.Faithful (c.compose room chain) := by
  induction room generalizing chain with
  | zero =>
    intro i memo hm
    rw [compose]
    refine start_then hm fun p _ => ⟨hm, fun s h => ?_⟩
    cases h
  | succ room ih =>
    intro i memo hm
    rw [compose]
    exact start_then hm fun p hp => composeNew_state (ih _) hp hm

/-- A struct that is resolved from a derived memo has the derived schema. -/
theorem resolveStruct_derives {s : ResolvedSchema} (hm : memo.DerivedBy c)
    (h : ((c.resolveStruct i).run memo).outcome = .ok s) : c.Derives i s :=
  (compose_derived c.maxDepth [] i memo hm).2 s h

/-- Resolving a struct keeps a memo derived, also when it fails. -/
theorem resolveStruct_state (hm : memo.DerivedBy c) :
    ((c.resolveStruct i).run memo).state.DerivedBy c :=
  (compose_derived c.maxDepth [] i memo hm).1

/-! ## Whatever is derived is returned, unless the depth bound stops it -/

/-- The bound on the nesting stopped a resolution. -/
def StoppedByDepth {α : Type} (outcome : Except SchemaError α) : Prop :=
  ∃ name bound, outcome = .error (.resolutionDepth name bound)

/-- A way to resolve instantiations that finds every schema derived at a height,
unless the bound stops it. -/
def Reaches (c : Composer) (height : Nat) (resolve : Instantiation → Resolving ResolvedSchema) :
    Prop :=
  ∀ i s memo, memo.DerivedBy c → c.derive height i = some s →
    StoppedByDepth ((resolve i).run memo).outcome ∨ ((resolve i).run memo).outcome = .ok s

/-- Nothing that completes to an instantiation of the chain is derived at the height. -/
def Above (c : Composer) (height : Nat) (chain : List Instantiation) : Prop :=
  ∀ j p, c.plan j = .ok p → p.key ∈ chain → c.derive height j = none

theorem Above.mono {m n : Nat} (hmn : m ≤ n) (h : c.Above n chain) : c.Above m chain := by
  intro j p hp hkey
  cases hd : c.derive m j with
  | none => rfl
  | some s =>
    have hn := derive_mono hmn hd
    rw [h j p hp hkey] at hn
    cases hn

/-- An instantiation not yet derived at a height can go on a chain above it. -/
theorem Above.append {height : Nat} {p : Plan} (h : c.Above height chain) (hp : c.plan i = .ok p)
    (hi : c.derive height i = none) : c.Above height (chain ++ [p.key]) := by
  intro j q hq hkey
  rcases List.mem_append.1 hkey with hkey | hkey
  · exact h j q hq hkey
  · have hqp : q = p := plan_eq_of_key_eq hq hp (List.mem_singleton.1 hkey)
    rw [derive_congr (j := i) _ height, hi]
    rw [hq, hp, hqp]

/-- The loop over members that are derived at a height ends as their merge does. -/
theorem mergeEach_of_deriveEach (hr : c.Faithful resolve) {height : Nat}
    (hreach : c.Reaches height resolve) (owner : String) {members : List TypeExpr}
    {parents : List ResolvedSchema} {merged : Merged} (hm : memo.DerivedBy c)
    (hparents : deriveEach (c.derive height) members = some parents) :
    StoppedByDepth ((mergeEach resolve owner members merged).run memo).outcome ∨
      ((mergeEach resolve owner members merged).run memo).outcome =
        match mergeMembers parents merged.held with
        | .error conflict => .error conflict.toSchemaError
        | .ok held =>
          .ok { held, lineage := merged.lineage ++ parents.flatMap fun s => s.lineage.toList } := by
  rw [deriveEach_eq_some] at hparents
  induction hparents generalizing merged memo with
  | nil =>
    refine .inr ?_
    simp [mergeEach, mergeMembers, Action.run_pure]
  | @cons member parent rest parents h _ ih =>
    obtain ⟨i, hi, hparent⟩ := h
    rw [mergeEach]
    simp only [hi]
    -- the bound may stop any of the members
    rcases hreach i parent memo hm hparent with ⟨name, bound, hstop⟩ | hok
    · refine .inl ⟨name, bound, ?_⟩
      rw [Action.outcome_bind, hstop]
    · rw [Action.outcome_bind, hok]
      dsimp only
      cases hmerge : mergeMember merged.held parent with
      | error conflict =>
        refine .inr ?_
        rw [mergeMembers_cons, hmerge]
        rfl
      | ok held =>
        rcases @ih _ { held, lineage := merged.lineage ++ parent.lineage.toList }
          (hr i memo hm).1 with hstop | hrest
        · exact .inl hstop
        · refine .inr ?_
          rw [hrest, mergeMembers_cons, hmerge]
          simp only [List.flatMap_cons, List.append_assoc]

/-- A composition ends as the merge of its members' derived schemas does. -/
theorem composeNew_of_deriveEach (hr : c.Faithful resolve) {height : Nat}
    (hreach : c.Reaches height resolve) {p : Plan} {parents : List ResolvedSchema}
    (hm : memo.DerivedBy c) (hparents : deriveEach (c.derive height) p.members = some parents) :
    StoppedByDepth ((composeNew resolve p.key p.bindings p.parts).run memo).outcome ∨
      ((composeNew resolve p.key p.bindings p.parts).run memo).outcome =
        (p.combine parents).mapError Conflict.toSchemaError := by
  have hmembers : p.parts.members p.bindings = p.members := rfl
  unfold composeNew
  rw [Action.outcome_bind, hmembers]
  rcases mergeEach_of_deriveEach hr hreach p.key.name hm hparents with
    ⟨name, bound, hstop⟩ | hmerged
  · refine .inl ⟨name, bound, ?_⟩
    rw [hstop]
  · refine .inr ?_
    rw [hmerged]
    unfold Plan.combine
    cases mergeMembers parents .empty with
    | error conflict => rfl
    | ok held => rfl

/-- An instantiation that is not on the chain ends as the merge of its members'
derived schemas does, if resolution below it reaches them. -/
theorem compose_of_plan {room height : Nat} {p : Plan} {parents : List ResolvedSchema}
    (hp : c.plan i = .ok p) (hkey : p.key ∉ chain) (hm : memo.DerivedBy c)
    (hreach : ∀ below, room = below + 1 →
      c.Reaches height (c.compose below (chain ++ [p.key])))
    (hparents : deriveEach (c.derive height) p.members = some parents) :
    StoppedByDepth ((c.compose room chain i).run memo).outcome ∨
      ((c.compose room chain i).run memo).outcome =
        (p.combine parents).mapError Conflict.toSchemaError := by
  rcases @start_of_plan c memo chain i p hp hkey with ⟨s, hknown⟩ | hfresh
  · -- a remembered schema is derived, so it is the combined one
    refine .inr ?_
    obtain ⟨d, bindings, key, hd, hl⟩ := start_eq_known hknown
    obtain ⟨q, qs, hq, hqs, hs⟩ := derives_iff.1 (hm.lookup hd hl)
    rw [hp] at hq
    cases hq
    rw [(DerivesEach.of_height hparents).unique hqs, hs]
    cases room <;> rw [compose, Action.outcome_bind, hknown] <;> rfl
  · cases room with
    | zero =>
      refine .inl ⟨i.name, c.maxDepth, ?_⟩
      rw [compose, Action.outcome_bind, hfresh]
      rfl
    | succ room =>
      rw [compose, Action.outcome_bind, hfresh, start_state]
      exact composeNew_of_deriveEach (compose_derived room _) (hreach room rfl) hm hparents

/-- An instantiation with a plan and derived members has a height at which the
members are derived and it is not. -/
theorem exists_height_below {p : Plan} {parents : List ResolvedSchema} (hp : c.plan i = .ok p)
    (hparents : c.DerivesEach p.members parents) :
    ∃ height, deriveEach (c.derive height) p.members = some parents ∧
      c.derive height i = none := by
  classical
  by_cases hi : ∃ height, ∃ s, c.derive height i = some s
  · -- the least height of a derived instantiation is one above its members'
    obtain ⟨s, hs⟩ := Nat.find_spec hi
    cases hleast : Nat.find hi with
    | zero =>
      rw [hleast] at hs
      simp [derive] at hs
    | succ height =>
      rw [hleast] at hs
      obtain ⟨q, qs, hq, hqs, -⟩ := derive_succ_eq_some.1 hs
      rw [hp] at hq
      cases hq
      refine ⟨height, by rw [hqs, hparents.unique (.of_height hqs)], ?_⟩
      cases hd : c.derive height i with
      | none => rfl
      | some t =>
        have hlt : height < Nat.find hi := by omega
        exact absurd ⟨t, hd⟩ (Nat.find_min hi hlt)
  · obtain ⟨height, hheight⟩ := hparents.exists_height
    refine ⟨height, hheight, ?_⟩
    cases hd : c.derive height i with
    | none => rfl
    | some s => exact absurd ⟨height, s, hd⟩ hi

/-- **Resolution finds what is derived.** The chain never stands in the way: the
induction is on the room, and what is put on the chain is not derived at the
height at which the members are. -/
theorem compose_reaches (room : Nat) {chain : List Instantiation} {height : Nat}
    (habove : c.Above height chain) : c.Reaches height (c.compose room chain) := by
  induction room using Nat.strongRecOn generalizing chain height with
  | ind room ih =>
    intro i s memo hm hs
    obtain ⟨p, parents, hp, hparents, hcombine⟩ := derives_iff.1 ⟨height, hs⟩
    obtain ⟨below, hbelow, hnone⟩ := exists_height_below hp hparents
    -- what goes on the chain is not derived at the height of its members
    have hlt : below ≤ height := by
      rcases Nat.le_total below height with h | h
      · exact h
      · rw [derive_mono h hs] at hnone
        cases hnone
    have hkey : p.key ∉ chain := by
      intro hmem
      rw [habove i p hp hmem] at hs
      cases hs
    have h := @compose_of_plan c memo chain i room below p parents hp hkey hm
      (fun room' hroom => ih room' (by omega) ((habove.mono hlt).append hp hnone)) hbelow
    rw [hcombine] at h
    exact h

/-- **A composition of derived members is resolved to what its plan combines**, in
every derived memo, unless the bound on the nesting stops it. -/
theorem resolveStruct_of_plan {p : Plan} {parents : List ResolvedSchema}
    (hm : memo.DerivedBy c) (hp : c.plan i = .ok p) (hparents : c.DerivesEach p.members parents) :
    StoppedByDepth ((c.resolveStruct i).run memo).outcome ∨
      ((c.resolveStruct i).run memo).outcome =
        (p.combine parents).mapError Conflict.toSchemaError := by
  obtain ⟨height, hheight, hnone⟩ := exists_height_below hp hparents
  have habove : c.Above height [] := by
    intro j q _ hkey
    cases hkey
  exact compose_of_plan hp (List.not_mem_nil) hm
    (fun room _ => compose_reaches room (habove.append hp hnone)) hheight

end Composer

end WidgetSchema
