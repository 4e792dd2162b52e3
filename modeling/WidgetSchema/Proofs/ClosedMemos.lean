/-
Memos that know the members of what they know.

A composition is entered after all its members, so a memo that resolution has
filled is closed: with an instantiation it knows each of its members, and with
them all that is below. Closed memos can be compared. If one knows all that
another knows, it goes on doing so while both are filled by the same request,
because whatever the smaller one adds below an instantiation that the greater one
knows, the greater one knows already (`compose_within`).
-/
import WidgetSchema.Proofs.MemoDerivation
import WidgetSchema.Proofs.MemoInvariants
import WidgetSchema.Proofs.RegistryGrowth

set_option autoImplicit false

namespace WidgetSchema

/-- The memo has a schema for the completed instantiation. -/
def Memo.Knows (memo : Memo) (key : Instantiation) : Prop := (memo.schemas.lookup key).isSome

/-- Whatever the first memo knows, the second knows. -/
def Memo.Within (memo memo' : Memo) : Prop := ∀ key, memo.Knows key → memo'.Knows key

/-- What two memos know together. -/
def Memo.union (memo memo' : Memo) : Memo :=
  { memo with schemas := memo.schemas ++ memo'.schemas }

/-- The memo knows the instantiation, once it is completed. -/
def Composer.KnowsOf (c : Composer) (memo : Memo) (i : Instantiation) : Prop :=
  ∃ d bindings key, c.complete i = .ok (d, bindings, key) ∧ memo.Knows key

/-- Each of the members names an instantiation that the memo knows. -/
def Composer.KnowsEach (c : Composer) (memo : Memo) (members : List TypeExpr) : Prop :=
  ∀ t ∈ members, ∃ i, t.instantiation? = some i ∧ c.KnowsOf memo i

/-- A derived memo that knows the members of every composition it knows. -/
structure Memo.ClosedFor (memo : Memo) (c : Composer) : Prop where
  derived : memo.DerivedBy c
  members : ∀ i p, c.plan i = .ok p → memo.Knows p.key → c.KnowsEach memo p.members

namespace Memo

variable {c c' : Composer} {memo memo' memo'' : Memo} {key key' : Instantiation}
  {s : ResolvedSchema}

/-- A memo knows what it knows. -/
theorem Within.refl (memo : Memo) : memo.Within memo := fun _ h => h

/-- Knowledge that passes on twice passes on. -/
theorem Within.trans (h₁ : memo.Within memo') (h₂ : memo'.Within memo'') : memo.Within memo'' :=
  fun key h => h₂ key (h₁ key h)

/-- A memo with one more schema knows one more name. -/
theorem knows_addSchema : (memo.addSchema key s).Knows key' ↔ memo.Knows key' ∨ key' = key := by
  have hlookup : (memo.addSchema key s).schemas.lookup key' =
      (memo.schemas.lookup key').or ([(key, s)].lookup key') := List.lookup_append
  unfold Knows
  rw [hlookup]
  by_cases hkey : key' = key
  · simp [hkey]
  · have hne : (key' == key) = false := by simp [hkey]
    simp [List.lookup_cons, hne, hkey]

/-- What was known stays known: a table only gets longer. -/
theorem within_addSchema : memo.Within (memo.addSchema key s) :=
  fun _ h => knows_addSchema.2 (.inl h)

/-- Adding the same name on both sides keeps one within the other, whatever the schemas are. -/
theorem Within.addSchema (h : memo.Within memo') (s s' : ResolvedSchema) :
    (memo.addSchema key s).Within (memo'.addSchema key s') := by
  intro key' hkey'
  rcases knows_addSchema.1 hkey' with hold | hnew
  · exact knows_addSchema.2 (.inl (h key' hold))
  · exact knows_addSchema.2 (.inr hnew)

/-- Nothing is known of an empty memo. -/
theorem empty_within (memo : Memo) : Memo.empty.Within memo := by
  intro key hkey
  simp [Knows, Memo.empty] at hkey

/-- The union of two memos knows what either of them knows. -/
theorem knows_union : (memo.union memo').Knows key ↔ memo.Knows key ∨ memo'.Knows key := by
  unfold Knows union
  rw [List.lookup_append, Option.isSome_or, Bool.or_eq_true]

/-- Each of the two is within the union. -/
theorem within_union_left : memo.Within (memo.union memo') := fun _ h => knows_union.2 (.inl h)

theorem within_union_right : memo'.Within (memo.union memo') := fun _ h => knows_union.2 (.inr h)

end Memo

namespace Composer

/-- Whether an instantiation is known depends on its completed name. -/
theorem KnowsOf.mono {c : Composer} {memo memo' : Memo} {i : Instantiation}
    (h : c.KnowsOf memo i) (hw : memo.Within memo') : c.KnowsOf memo' i := by
  obtain ⟨d, bindings, key, hd, hkey⟩ := h
  exact ⟨d, bindings, key, hd, hw key hkey⟩

/-- The same for all members of a composition. -/
theorem KnowsEach.mono {c : Composer} {memo memo' : Memo} {members : List TypeExpr}
    (h : c.KnowsEach memo members) (hw : memo.Within memo') :
    c.KnowsEach memo' members := by
  intro t ht
  obtain ⟨i, hi, hknows⟩ := h t ht
  exact ⟨i, hi, hknows.mono hw⟩

end Composer

/-! ## Closed memos -/

namespace Memo.ClosedFor

variable {c c' : Composer} {memo memo' : Memo}

/-- An empty memo is closed, as it has no schema whose members could be missing. -/
theorem empty (c : Composer) : Memo.empty.ClosedFor c where
  derived := Memo.empty_derivedBy c
  members i p _ hkey := by simp [Memo.Knows, Memo.empty] at hkey

/-- The plan behind an entry of a derived memo. -/
theorem exists_plan {key : Instantiation} (h : memo.DerivedBy c) (hkey : memo.Knows key) :
    ∃ j q, c.plan j = .ok q ∧ q.key = key := by
  obtain ⟨s, hs⟩ := Option.isSome_iff_exists.1 hkey
  obtain ⟨hinst, j, hj⟩ := h key s (mem_of_lookup hs)
  obtain ⟨q, -, hq, -⟩ := Composer.derives_iff.1 hj
  exact ⟨j, q, hq, by rw [← hj.instantiation_eq hq, hinst]⟩

/-- **A closed memo stays closed when definitions are added**: what it knows has
its members by old definitions, and these are still there. -/
theorem mono (h : memo.ClosedFor c) (hc : c'.registry.Extends c.registry) :
    memo.ClosedFor c' where
  derived key s hs := by
    obtain ⟨hkey, i, hi⟩ := h.derived key s hs
    exact ⟨hkey, i, hi.mono hc⟩
  members i p hp hkey := by
    obtain ⟨j, q, hq, hqp⟩ := exists_plan h.derived hkey
    have hpq : p = q :=
      Composer.plan_eq_of_key_eq hp (Composer.plan_mono hc hq) hqp.symm
    subst hpq
    intro t ht
    obtain ⟨k, hk, d, bindings, key', hd, hkey'⟩ := h.members j p hq hkey t ht
    exact ⟨k, hk, d, bindings, key', Composer.complete_mono hc hd, hkey'⟩

/-- Two closed memos make a closed memo. -/
theorem union (h : memo.ClosedFor c) (h' : memo'.ClosedFor c) :
    (memo.union memo').ClosedFor c where
  derived key s hs := by
    rcases List.mem_append.1 hs with hs | hs
    · exact h.derived key s hs
    · exact h'.derived key s hs
  members i p hp hkey := by
    rcases Memo.knows_union.1 hkey with hkey | hkey
    · exact (h.members i p hp hkey).mono Memo.within_union_left
    · exact (h'.members i p hp hkey).mono Memo.within_union_right

end Memo.ClosedFor

namespace Composer

variable {c : Composer} {memo memo' : Memo} {i : Instantiation} {members : List TypeExpr}
  {chain : List Instantiation}

/-! ## How a composition runs -/

/-- The state after a composition, by what looking its instantiation up decides. -/
theorem compose_state (room : Nat) :
    ((c.compose room chain i).run memo).state =
      match ((c.start chain i).run memo).outcome, room with
      | .ok (.fresh key bindings parts), room + 1 =>
        ((composeNew (c.compose room (chain ++ [key])) key bindings parts).run memo).state
      | _, _ => memo := by
  cases room with
  | zero =>
    rw [compose, Action.state_bind, start_state]
    cases ((c.start chain i).run memo).outcome with
    | error e => rfl
    | ok start => cases start <;> rfl
  | succ room =>
    rw [compose, Action.state_bind, start_state]
    cases ((c.start chain i).run memo).outcome with
    | error e => rfl
    | ok start => cases start <;> rfl

/-- The outcome of a composition, likewise. -/
theorem compose_outcome (room : Nat) :
    ((c.compose room chain i).run memo).outcome =
      match ((c.start chain i).run memo).outcome, room with
      | .error e, _ => .error e
      | .ok (.known s), _ => .ok s
      | .ok (.fresh _ _ _), 0 => .error (.resolutionDepth i.name c.maxDepth)
      | .ok (.fresh key bindings parts), room + 1 =>
        ((composeNew (c.compose room (chain ++ [key])) key bindings parts).run memo).outcome := by
  cases room with
  | zero =>
    rw [compose, Action.outcome_bind, start_state]
    cases ((c.start chain i).run memo).outcome with
    | error e => rfl
    | ok start => cases start <;> rfl
  | succ room =>
    rw [compose, Action.outcome_bind, start_state]
    cases ((c.start chain i).run memo).outcome with
    | error e => rfl
    | ok start => cases start <;> rfl

/-- An instantiation that the memo knows, once it is completed, is returned from there. -/
theorem compose_known {d : Definition} {bindings : Bindings} {key : Instantiation}
    {s : ResolvedSchema} (hd : c.complete i = .ok (d, bindings, key))
    (hs : memo.schemas.lookup key = some s) (room : Nat) :
    ((c.compose room chain i).run memo).outcome = .ok s ∧
      ((c.compose room chain i).run memo).state = memo := by
  have hstart : ((c.start chain i).run memo).outcome = .ok (.known s) := by
    rw [start_outcome, hd]
    dsimp only
    rw [hs]
  constructor
  · rw [compose_outcome, hstart]
  · rw [compose_state, hstart]

variable {resolve : Instantiation → Resolving ResolvedSchema}

/-- A member that names no type ends the loop over the members. -/
theorem mergeEach_outcome_none {member : TypeExpr} (owner : String) (rest : List TypeExpr)
    (merged : Merged) (hi : member.instantiation? = none) :
    ((mergeEach resolve owner (member :: rest) merged).run memo).outcome =
      .error (.definition owner (.notTypeName member.render)) := by
  rw [mergeEach]
  simp only [hi]
  rfl

/-- A member that is no type name ends the merge before anything is resolved. -/
theorem mergeEach_state_none {member : TypeExpr} (owner : String) (rest : List TypeExpr)
    (merged : Merged) (hi : member.instantiation? = none) :
    ((mergeEach resolve owner (member :: rest) merged).run memo).state = memo := by
  rw [mergeEach]
  simp only [hi]
  rfl

/-- The loop goes on after a member that is resolved and merged. -/
theorem mergeEach_outcome_some {member : TypeExpr} (owner : String) (rest : List TypeExpr)
    (merged : Merged) (hi : member.instantiation? = some i) :
    ((mergeEach resolve owner (member :: rest) merged).run memo).outcome =
      match ((resolve i).run memo).outcome with
      | .error e => .error e
      | .ok parent =>
        match mergeMember merged.held parent with
        | .error conflict => .error conflict.toSchemaError
        | .ok held =>
          ((mergeEach resolve owner rest
            { held, lineage := merged.lineage ++ parent.lineage.toList }).run
              ((resolve i).run memo).state).outcome := by
  rw [mergeEach]
  simp only [hi]
  rw [Action.outcome_bind]
  cases ((resolve i).run memo).outcome with
  | error e => rfl
  | ok parent =>
    dsimp only
    cases mergeMember merged.held parent <;> rfl

/-- A member that is a type name is resolved, and the others are merged from the memo
behind that. -/
theorem mergeEach_state_some {member : TypeExpr} (owner : String) (rest : List TypeExpr)
    (merged : Merged) (hi : member.instantiation? = some i) :
    ((mergeEach resolve owner (member :: rest) merged).run memo).state =
      match ((resolve i).run memo).outcome with
      | .error _ => ((resolve i).run memo).state
      | .ok parent =>
        match mergeMember merged.held parent with
        | .error _ => ((resolve i).run memo).state
        | .ok held =>
          ((mergeEach resolve owner rest
            { held, lineage := merged.lineage ++ parent.lineage.toList }).run
              ((resolve i).run memo).state).state := by
  rw [mergeEach]
  simp only [hi]
  rw [Action.state_bind]
  cases ((resolve i).run memo).outcome with
  | error e => rfl
  | ok parent =>
    dsimp only
    cases mergeMember merged.held parent <;> rfl

/-- A composition enters its schema exactly if its members could be merged. -/
theorem composeNew_run (p : Plan) :
    let merging :=
      (mergeEach resolve p.key.name p.members { held := .empty, lineage := [] }).run memo
    ((composeNew resolve p.key p.bindings p.parts).run memo).outcome =
        (match merging.outcome with
        | .error e => .error e
        | .ok merged => .ok (assemble p.key p.bindings p.parts.fields merged)) ∧
      ((composeNew resolve p.key p.bindings p.parts).run memo).state =
        (match merging.outcome with
        | .error _ => merging.state
        | .ok merged =>
          merging.state.addSchema p.key (assemble p.key p.bindings p.parts.fields merged)) := by
  intro merging
  have hmembers : p.parts.members p.bindings = p.members := rfl
  unfold composeNew
  rw [Action.outcome_bind, Action.state_bind, hmembers]
  cases merging.outcome <;> exact ⟨rfl, rfl⟩

/-! ## Resolution keeps memos closed -/

/-- How a run from a closed memo ends: nothing is forgotten, the memo is closed
again, and if the run returns, it has come to know something. -/
structure ClosesOver {α : Type} (c : Composer) (memo : Memo) (outcome : Except SchemaError α)
    (state : Memo) (known : Memo → Prop) : Prop where
  within : memo.Within state
  closed : state.ClosedFor c
  knows : ∀ a, outcome = .ok a → known state

/-- A run that fails at once has nothing to know. -/
theorem closesOver_error {α : Type} {known : Memo → Prop} (e : SchemaError)
    (hm : memo.ClosedFor c) : c.ClosesOver memo (.error e : Except SchemaError α) memo known :=
  ⟨.refl memo, hm, fun a h => by cases h⟩

/-- A way to resolve that knows what it has resolved. -/
def Closes (c : Composer) (resolve : Instantiation → Resolving ResolvedSchema) : Prop :=
  ∀ i memo, memo.ClosedFor c →
    c.ClosesOver memo ((resolve i).run memo).outcome ((resolve i).run memo).state (c.KnowsOf · i)

/-- The loop over the members knows them all if it returns. -/
theorem mergeEach_closes (hr : c.Closes resolve) (owner : String) {merged : Merged}
    (hm : memo.ClosedFor c) :
    c.ClosesOver memo ((mergeEach resolve owner members merged).run memo).outcome
      ((mergeEach resolve owner members merged).run memo).state (c.KnowsEach · members) := by
  induction members generalizing merged memo with
  | nil =>
    refine ⟨.refl memo, hm, ?_⟩
    intro result _ t ht
    cases ht
  | cons member rest ih =>
    cases hi : member.instantiation? with
    | none =>
      rw [mergeEach_outcome_none owner rest merged hi, mergeEach_state_none owner rest merged hi]
      exact closesOver_error _ hm
    | some i =>
      have hmember := hr i memo hm
      rw [mergeEach_outcome_some owner rest merged hi, mergeEach_state_some owner rest merged hi]
      cases hparent : ((resolve i).run memo).outcome with
      | error e => exact ⟨hmember.within, hmember.closed, fun result h => by cases h⟩
      | ok parent =>
        dsimp only
        cases mergeMember merged.held parent with
        | error conflict => exact ⟨hmember.within, hmember.closed, fun result h => by cases h⟩
        | ok held =>
          have hrest :=
            @ih _ { held, lineage := merged.lineage ++ parent.lineage.toList } hmember.closed
          refine ⟨hmember.within.trans hrest.within, hrest.closed, ?_⟩
          intro result hresult t ht
          rcases List.mem_cons.1 ht with rfl | ht
          · exact ⟨i, hi, (hmember.knows parent hparent).mono hrest.within⟩
          · exact hrest.knows result hresult t ht

/-- A new entry comes after its members. -/
theorem composeNew_closes (hr : c.Closes resolve) {p : Plan} {d : Definition}
    (hp : c.plan i = .ok p) (hd : c.complete i = .ok (d, p.bindings, p.key))
    (hm : memo.ClosedFor c)
    (hderived : ((composeNew resolve p.key p.bindings p.parts).run memo).state.DerivedBy c) :
    c.ClosesOver memo ((composeNew resolve p.key p.bindings p.parts).run memo).outcome
      ((composeNew resolve p.key p.bindings p.parts).run memo).state (c.KnowsOf · i) := by
  obtain ⟨houtcome, hstate⟩ := @composeNew_run memo resolve p
  rw [hstate] at hderived
  rw [hstate, houtcome]
  have hmerging := @mergeEach_closes c memo p.members resolve hr p.key.name
    { held := .empty, lineage := [] } hm
  revert hderived
  cases hmerged : ((mergeEach resolve p.key.name p.members { held := .empty, lineage := [] }).run
      memo).outcome with
  | error e => exact fun _ => ⟨hmerging.within, hmerging.closed, fun s h => by cases h⟩
  | ok merged =>
    dsimp only
    intro hderived
    have hknown := hmerging.knows merged hmerged
    refine ⟨hmerging.within.trans Memo.within_addSchema, ⟨hderived, ?_⟩, ?_⟩
    · -- the new entry is the plan's, and its members are known by now
      intro j q hq hkey
      rcases Memo.knows_addSchema.1 hkey with hold | hnew
      · exact (hmerging.closed.members j q hq hold).mono Memo.within_addSchema
      · have hqp : q = p := plan_eq_of_key_eq hq hp hnew
        rw [hqp]
        exact hknown.mono Memo.within_addSchema
    · intro s _
      exact ⟨d, p.bindings, p.key, hd, Memo.knows_addSchema.2 (.inr rfl)⟩

/-- **Resolution keeps memos closed**, whether it succeeds or fails. -/
theorem compose_closes (room : Nat) (chain : List Instantiation) :
    c.Closes (c.compose room chain) := by
  induction room using Nat.strongRecOn generalizing chain with
  | ind room ih =>
    intro i memo hm
    rw [compose_state, compose_outcome]
    cases hstart : ((c.start chain i).run memo).outcome with
    | error e => exact closesOver_error e hm
    | ok start =>
      cases start with
      | known s =>
        obtain ⟨d, bindings, key, hd, hl⟩ := start_eq_known hstart
        have hknows : memo.Knows key := by simp [Memo.Knows, hl]
        exact ⟨.refl memo, hm, fun _ _ => ⟨d, bindings, key, hd, hknows⟩⟩
      | fresh key bindings parts =>
        cases room with
        | zero => exact closesOver_error _ hm
        | succ room =>
          let p : Plan := { key, bindings, parts }
          have hp : c.plan i = .ok p := start_eq_fresh hstart
          obtain ⟨d, hd, -⟩ := plan_eq_ok.1 hp
          exact composeNew_closes (ih room (Nat.lt_succ_self _) _) hp hd hm
            (composeNew_state (compose_derived room _) hp hm.derived).1

/-- A composition keeps its members, and it comes after them. -/
theorem keeps_resolveStruct_closedFor (i : Instantiation) :
    (c.resolveStruct i).Keeps (Memo.ClosedFor · c) :=
  fun memo hm => (compose_closes c.maxDepth [] i memo hm).closed

/-- An alias adds an expression and no schema. -/
theorem keeps_resolve_closedFor (i : Instantiation) :
    (c.resolve i).Keeps (Memo.ClosedFor · c) := by
  unfold resolve
  refine (Action.keeps_ofExcept _).bind fun found => ?_
  obtain ⟨d, bindings, key⟩ := found
  dsimp only
  cases d.plainExpression? with
  | none => exact (keeps_resolveStruct_closedFor i).map _
  | some e =>
    refine Action.keeps_get.bind fun known => ?_
    cases known.expressions.lookup key with
    | some e' => exact Action.keeps_pure _
    | none =>
      -- expressions stand in a table of their own
      refine Action.Keeps.bind ?_ fun _ => Action.keeps_pure _
      exact fun memo hm => ⟨hm.derived, hm.members⟩

/-! ## What a closed memo knows bounds what is added -/

/-- The loop over known members adds known instantiations only, if resolving a
known instantiation does. -/
theorem mergeEach_within
    (hresolve : ∀ j memo, c.KnowsOf memo' j → memo.Within memo' →
      ((resolve j).run memo).state.Within memo')
    (owner : String) (hmembers : c.KnowsEach memo' members) (merged : Merged)
    (hw : memo.Within memo') :
    ((mergeEach resolve owner members merged).run memo).state.Within memo' := by
  induction members generalizing merged memo with
  | nil => exact hw
  | cons member rest ih =>
    obtain ⟨j, hj, hknows⟩ := hmembers member (List.mem_cons_self ..)
    have hrest : c.KnowsEach memo' rest := fun t ht => hmembers t (List.mem_cons_of_mem _ ht)
    have hparent := hresolve j memo hknows hw
    rw [mergeEach_state_some owner rest merged hj]
    split
    · exact hparent
    · split
      · exact hparent
      · exact ih hrest _ hparent

/-- **Below what a closed memo knows nothing new is found.** A request for an instantiation that
the memo knows adds to a smaller memo only what the memo knows already. -/
theorem compose_within (hclosed : memo'.ClosedFor c) (room : Nat) (chain : List Instantiation)
    (hknows : c.KnowsOf memo' i) (hw : memo.Within memo') :
    ((c.compose room chain i).run memo).state.Within memo' := by
  induction room using Nat.strongRecOn generalizing chain i memo with
  | ind room ih =>
    rw [compose_state]
    cases hstart : ((c.start chain i).run memo).outcome with
    | error e => exact hw
    | ok start =>
      cases start with
      | known s => exact hw
      | fresh key' bindings' parts =>
        cases room with
        | zero => exact hw
        | succ room =>
          let p : Plan := { key := key', bindings := bindings', parts }
          have hp : c.plan i = .ok p := start_eq_fresh hstart
          obtain ⟨e, he, -⟩ := plan_eq_ok.1 hp
          obtain ⟨d, bindings, key, hd, hkey⟩ := hknows
          rw [hd] at he
          cases he
          -- its members are known, and so is whatever is found below them
          have hmembers := hclosed.members i p hp hkey
          have hresolve := fun j memo => @ih room (Nat.lt_succ_self _) memo j (chain ++ [p.key])
          have hmerging := mergeEach_within hresolve p.key.name hmembers
            { held := .empty, lineage := [] } hw
          obtain ⟨-, hstate⟩ := @composeNew_run memo (c.compose room (chain ++ [p.key])) p
          show ((composeNew _ p.key p.bindings p.parts).run memo).state.Within memo'
          rw [hstate]
          split
          · exact hmerging
          · intro other hother
            rcases Memo.knows_addSchema.1 hother with hold | hnew
            · exact hmerging other hold
            · rw [hnew]
              exact hkey

end Composer

end WidgetSchema
