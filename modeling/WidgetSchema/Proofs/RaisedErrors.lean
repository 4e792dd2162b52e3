/-
Where an error of a resolution is raised.

A resolution that fails does so at one place: some instantiation cannot be begun, there is
no room for it, or a member names no type or conflicts with the members before it. Nothing
happens behind that place, so the memo that is left is the memo in which the error was
raised, and it knows the members that were passed on the way there. `RaisedAt` is the
evidence of such a place, with the way that leads to it.

`compose_raisedAt` finds the evidence for every error, by induction on the room below the
bound; whatever is to be said of one kind of error is then an induction on the evidence,
with no run left in it.
-/
import WidgetSchema.Proofs.ResolutionOutcomes
import WidgetSchema.Proofs.Supertypes

set_option autoImplicit false

namespace WidgetSchema

/-! ## Merging one more member -/

theorem mergeMembers_append {members : List ResolvedSchema} {s : ResolvedSchema}
    {held merged : OrderedMap Contribution} (h : mergeMembers members held = .ok merged) :
    mergeMembers (members ++ [s]) held = mergeMember merged s := by
  induction members generalizing held with
  | nil =>
    cases h
    rw [List.nil_append, mergeMembers_cons]
    cases mergeMember merged s <;> rfl
  | cons m members ih =>
    rw [mergeMembers_cons] at h
    rw [List.cons_append, mergeMembers_cons]
    cases hm : mergeMember held m with
    | error conflict =>
      rw [hm] at h
      cases h
    | ok held' =>
      rw [hm] at h
      exact ih h

namespace Composer

variable {c : Composer} {memo memo' : Memo} {chain : List Instantiation} {i j : Instantiation}
  {e : SchemaError}

/-! ## The place -/

/-- The members of a plan before this one are known and have been merged. -/
structure PassesTo (c : Composer) (memo : Memo) (p : Plan) (parents : List ResolvedSchema)
    (held : OrderedMap Contribution) (before : List TypeExpr) (t : TypeExpr)
    (rest : List TypeExpr) : Prop where
  members : p.members = before ++ t :: rest
  known : List.Forall₂ (c.Remembers memo) before parents
  merged : mergeMembers parents .empty = .ok held

theorem PassesTo.mem {p : Plan} {parents : List ResolvedSchema} {held : OrderedMap Contribution}
    {before rest : List TypeExpr} {t : TypeExpr}
    (h : c.PassesTo memo p parents held before t rest) : t ∈ p.members := by
  rw [h.members]
  exact List.mem_append_right _ List.mem_cons_self

/-- The member that the loop has come to names a direct supertype, if it names a type. -/
theorem PassesTo.hasSupertype {p : Plan} {parents : List ResolvedSchema}
    {held : OrderedMap Contribution} {before rest : List TypeExpr} {t : TypeExpr} {d : Definition}
    {bindings : Bindings} {k key : Instantiation} (hp : c.plan i = .ok p)
    (hpass : c.PassesTo memo p parents held before t rest) (hk : t.instantiation? = some k)
    (hd : c.complete k = .ok (d, bindings, key)) : c.HasSupertype p.key key :=
  ⟨p, plan_key hp, t, hpass.mem, k, hk, d, bindings, hd⟩

/-- The composition of an instantiation on a chain raises the error, and the memo knows each
member that is passed on the way. -/
inductive RaisedAt (c : Composer) (memo : Memo) :
    List Instantiation → Instantiation → SchemaError → Prop
  /-- The instantiation cannot be begun. -/
  | start {chain : List Instantiation} {i : Instantiation} {e : SchemaError}
      (h : ((c.start chain i).run memo).outcome = .error e) : RaisedAt c memo chain i e
  /-- There is no room for it. -/
  | bound {chain : List Instantiation} {i : Instantiation} {p : Plan}
      (hstart : ((c.start chain i).run memo).outcome = .ok (.fresh p.key p.bindings p.parts)) :
      RaisedAt c memo chain i (.resolutionDepth i.name c.maxDepth)
  /-- A member names no type. -/
  | member {chain : List Instantiation} {i : Instantiation} {p : Plan}
      {before rest : List TypeExpr} {t : TypeExpr} {parents : List ResolvedSchema}
      {held : OrderedMap Contribution} (hp : c.plan i = .ok p)
      (hpass : c.PassesTo memo p parents held before t rest) (ht : t.instantiation? = none) :
      RaisedAt c memo chain i (.definition p.key.name (.notTypeName t.render))
  /-- A member conflicts with those before it. -/
  | conflict {chain : List Instantiation} {i : Instantiation} {p : Plan}
      {before rest : List TypeExpr} {t : TypeExpr} {parents : List ResolvedSchema}
      {held : OrderedMap Contribution} {s : ResolvedSchema} {conflict : Conflict}
      (hp : c.plan i = .ok p) (hpass : c.PassesTo memo p parents held before t rest)
      (hs : c.Remembers memo t s) (hconflict : mergeMember held s = .error conflict) :
      RaisedAt c memo chain i conflict.toSchemaError
  /-- The error is raised in the composition of a member. -/
  | inside {chain : List Instantiation} {i j : Instantiation} {p : Plan}
      {before rest : List TypeExpr} {t : TypeExpr} {parents : List ResolvedSchema}
      {held : OrderedMap Contribution} {e : SchemaError} (hp : c.plan i = .ok p)
      (hpass : c.PassesTo memo p parents held before t rest) (hj : t.instantiation? = some j)
      (hraised : RaisedAt c memo (chain ++ [p.key]) j e) : RaisedAt c memo chain i e

/-! ## What is known stays known -/

theorem Remembers.growth {t : TypeExpr} {s : ResolvedSchema}
    {added : List (Instantiation × ResolvedSchema)} (h : c.Remembers memo t s)
    (hgrowth : memo.Growth chain added memo') : c.Remembers memo' t s := by
  obtain ⟨i, d, bindings, key, hi, hd, hlookup⟩ := h
  refine ⟨i, d, bindings, key, hi, hd, ?_⟩
  rw [hgrowth.appended]
  show (memo.schemas ++ added).lookup key = some s
  rw [List.lookup_append, hlookup]
  rfl

/-- What a composition returns is known behind it. -/
theorem remembers_of_compose {t : TypeExpr} {s : ResolvedSchema} {room : Nat}
    (hm : memo.ClosedFor c) (hi : t.instantiation? = some i)
    (hs : ((c.compose room chain i).run memo).outcome = .ok s) :
    c.Remembers ((c.compose room chain i).run memo).state t s := by
  have hcloses := compose_closes (c := c) room chain i memo hm
  obtain ⟨d, bindings, key, hd, hknown⟩ := hcloses.knows s hs
  obtain ⟨u, hu⟩ := Option.isSome_iff_exists.1 hknown
  -- the entry is the schema that was returned, because there is one only
  have hderives : c.Derives i s := (compose_derived room chain i memo hm.derived).2 s hs
  have hsame : u = s := (hcloses.closed.derived.lookup hd hu).unique hderives
  rw [hsame] at hu
  exact ⟨i, d, bindings, key, hi, hd, hu⟩

theorem Remembers.derives {t : TypeExpr} {s : ResolvedSchema} (hm : memo.DerivedBy c)
    (h : c.Remembers memo t s) : ∃ i, t.instantiation? = some i ∧ c.Derives i s := by
  obtain ⟨i, d, bindings, key, hi, hd, hlookup⟩ := h
  exact ⟨i, hi, hm.lookup hd hlookup⟩

/-! ## Every error has its place -/

/-- How the loop over the members fails at one of them: it names no type, it conflicts with
what is held, or its composition raises the error. -/
def FailsWith (c : Composer) (memo : Memo) (chain : List Instantiation) (owner : String)
    (held : OrderedMap Contribution) (t : TypeExpr) (e : SchemaError) : Prop :=
  (t.instantiation? = none ∧ e = .definition owner (.notTypeName t.render)) ∨
    (∃ s conflict, c.Remembers memo t s ∧ mergeMember held s = .error conflict ∧
      e = conflict.toSchemaError) ∨
    ∃ j, t.instantiation? = some j ∧ c.RaisedAt memo chain j e

/-- **The loop over the members fails at one of them**, behind members that it has merged.
The induction is on the members that are left; those before them are known already. -/
theorem mergeEach_raises {room : Nat} {owner : String} {before members : List TypeExpr}
    {parents : List ResolvedSchema} {merged : Merged}
    (hcompose : ∀ j memo e, memo.ClosedFor c →
      ((c.compose room chain j).run memo).outcome = .error e →
      c.RaisedAt ((c.compose room chain j).run memo).state chain j e)
    (hm : memo.ClosedFor c) (hbefore : List.Forall₂ (c.Remembers memo) before parents)
    (hheld : mergeMembers parents .empty = .ok merged.held)
    (h : ((mergeEach (c.compose room chain) owner members merged).run memo).outcome = .error e) :
    ∃ passed t rest others held, before ++ members = passed ++ t :: rest ∧
      List.Forall₂ (c.Remembers
        ((mergeEach (c.compose room chain) owner members merged).run memo).state) passed others ∧
      mergeMembers others .empty = .ok held ∧
      c.FailsWith ((mergeEach (c.compose room chain) owner members merged).run memo).state chain
        owner held t e := by
  induction members generalizing memo before parents merged with
  | nil => cases h
  | cons t rest ih =>
    cases hi : t.instantiation? with
    | none =>
      rw [mergeEach_outcome_none owner rest merged hi] at h
      rw [mergeEach_state_none owner rest merged hi]
      cases h
      exact ⟨before, t, rest, parents, merged.held, rfl, hbefore, hheld, .inl ⟨hi, rfl⟩⟩
    | some i =>
      rw [mergeEach_outcome_some owner rest merged hi] at h
      rw [mergeEach_state_some owner rest merged hi]
      obtain ⟨added, hgrowth⟩ := compose_grows (c := c) room chain i memo
      have hkept : List.Forall₂ (c.Remembers ((c.compose room chain i).run memo).state)
          before parents := hbefore.imp fun u s hu => hu.growth hgrowth
      cases hparent : ((c.compose room chain i).run memo).outcome with
      | error e' =>
        rw [hparent] at h
        cases h
        exact ⟨before, t, rest, parents, merged.held, rfl, hkept, hheld,
          .inr (.inr ⟨i, hi, hcompose i memo _ hm hparent⟩)⟩
      | ok parent =>
        rw [hparent] at h
        dsimp only at h ⊢
        have hknown := remembers_of_compose hm hi hparent
        cases hmerge : mergeMember merged.held parent with
        | error conflict =>
          rw [hmerge] at h
          cases h
          exact ⟨before, t, rest, parents, merged.held, rfl, hkept, hheld,
            .inr (.inl ⟨parent, conflict, hknown, hmerge, rfl⟩)⟩
        | ok held =>
          rw [hmerge] at h
          dsimp only at h ⊢
          -- the member joins those that are known and merged
          have hclosed := (compose_closes (c := c) room chain i memo hm).closed
          have hmerged : mergeMembers (parents ++ [parent]) .empty = .ok held := by
            rw [mergeMembers_append hheld, hmerge]
          have hpassed := List.rel_append hkept (.cons hknown .nil)
          obtain ⟨passed, u, later, others, held', hsplit, hrest⟩ := @ih _ _ _
            { held, lineage := merged.lineage ++ parent.lineage.toList } hclosed hpassed hmerged h
          refine ⟨passed, u, later, others, held', ?_, hrest⟩
          rw [← hsplit, List.append_assoc]
          rfl

/-- **Every error of a composition is raised somewhere**, in the memo that is left. -/
theorem compose_raisedAt (room : Nat) (hm : memo.ClosedFor c)
    (h : ((c.compose room chain i).run memo).outcome = .error e) :
    c.RaisedAt ((c.compose room chain i).run memo).state chain i e := by
  induction room using Nat.strongRecOn generalizing chain i memo e with
  | ind room ih =>
    rcases compose_error_cases h with ⟨hstart, hsame⟩ |
      ⟨p, hstart, ⟨rfl, hsame⟩ | ⟨room', rfl, hmerging, hstate⟩⟩
    · rw [hsame]
      exact .start hstart
    · rw [compose_outcome, hstart] at h
      cases h
      rw [hsame]
      exact .bound hstart
    · rw [hstate]
      have hp : c.plan i = .ok p := start_eq_fresh hstart
      obtain ⟨before, t, rest, parents, held, hsplit, hknown, hheld, hfails⟩ :=
        mergeEach_raises (fun j memo e hm => ih room' (Nat.lt_succ_self _) hm) hm .nil
          rfl hmerging
      have hpass := PassesTo.mk hsplit hknown hheld
      rcases hfails with ⟨ht, rfl⟩ | ⟨s, conflict, hs, hconflict, rfl⟩ | ⟨j, hj, hraised⟩
      · exact .member hp hpass ht
      · exact .conflict hp hpass hs hconflict
      · exact .inside hp hpass hj hraised

/-- And so is every error of a request. -/
theorem resolveStruct_raisedAt (hm : memo.ClosedFor c)
    (h : ((c.resolveStruct i).run memo).outcome = .error e) :
    c.RaisedAt ((c.resolveStruct i).run memo).state [] i e :=
  compose_raisedAt c.maxDepth hm h

theorem resolve_raisedAt (hm : memo.ClosedFor c)
    (h : ((c.resolve i).run memo).outcome = .error e) :
    c.RaisedAt ((c.resolve i).run memo).state [] i e := by
  obtain ⟨hstruct, hstate⟩ := resolve_error h
  rw [hstate]
  exact resolveStruct_raisedAt hm hstruct

/-! ## Errors of a definition that cannot be composed -/

/-- Arguments that are not bound are too many or too few. -/
theorem bind_error_cases {d : Definition} {args : List TypeExpr} (h : d.bind args = .error e) :
    ∃ name expected given explanation, e = .arity name expected given explanation := by
  unfold Definition.bind at h
  dsimp only at h
  split at h
  · cases h
    exact ⟨_, _, _, _, rfl⟩
  · cases hfrom : bindFrom [] d.parameters args with
    | error p =>
      rw [hfrom] at h
      cases h
      exact ⟨_, _, _, _, rfl⟩
    | ok found =>
      rw [hfrom] at h
      cases h

/-- Why an instantiation cannot be completed: its name is not registered, or it has the wrong
arguments. -/
theorem complete_error_cases (h : c.complete i = .error e) :
    (∃ name, e = .unknownType name) ∨
      ∃ name expected given explanation, e = .arity name expected given explanation := by
  unfold complete at h
  cases hlookup : c.registry.lookup i.name with
  | error e' =>
    rw [hlookup] at h
    cases h
    unfold Registry.lookup at hlookup
    split at hlookup <;> cases hlookup
    exact .inl ⟨_, rfl⟩
  | ok d =>
    rw [hlookup] at h
    cases hbind : d.bind i.args with
    | error e' =>
      simp only [bind, Except.bind, hbind] at h
      cases h
      exact .inr (bind_error_cases hbind)
    | ok found => simp [bind, Except.bind, pure, Except.pure, hbind] at h

/-- Why an instantiation has no plan: it cannot be completed, or its definition composes
nothing. -/
theorem plan_error_cases (h : c.plan i = .error e) :
    (∃ name, e = .unknownType name) ∨
      (∃ name expected given explanation, e = .arity name expected given explanation) ∨
      ∃ name fault, e = .definition name fault := by
  unfold plan at h
  cases hcomplete : c.complete i with
  | error e' =>
    rw [hcomplete] at h
    cases h
    exact (complete_error_cases hcomplete).imp_right .inl
  | ok found =>
    obtain ⟨d, bindings, key⟩ := found
    simp only [hcomplete] at h
    cases hparts : d.composition with
    | ok parts =>
      rw [hparts] at h
      cases h
    | error e' =>
      rw [hparts] at h
      cases h
      unfold Definition.composition at hparts
      split at hparts
      · cases hparts
      · split at hparts <;> cases hparts
        exact .inr (.inr ⟨_, _, rfl⟩)

end Composer

end WidgetSchema
