/-
Arguments that are specialized.

Names that are not registered may stand in the arguments of a type, and it makes no difference
when they are replaced: before the type is resolved, or in the fields that it is resolved to
(`specialized_arguments`). So no definition captures a name of its arguments, also not one
that a parameter of it has, and no parameter gets out of the definition that declares it.

Replacing names twice is replacing them once (`TypeExpr.substitute_substitute`). An expression
of a definition keeps nothing but names of types when its parameters are replaced, hence what
is replaced afterwards is replaced in what the parameters are bound to. That carries over from
the defaults to the bindings, from these to the members and the own fields, and along the
members to the whole derivation (`derive_substitute`).

The bound on the nesting does not stop the specialized type where it lets the other one pass.
With one supertype at most a composition needs as much room as its derivation is high
(`derive_of_compose`), and both derivations are equally high.
-/
import WidgetSchema.Proofs.DanglingNames
import WidgetSchema.Proofs.DepthErrors
import WidgetSchema.Proofs.FieldTable
import WidgetSchema.Proofs.TypeAliases

set_option autoImplicit false

namespace WidgetSchema

variable {σ bindings : Bindings}

/-! ## Replacing twice -/

/-- The bindings with names replaced in what is bound. -/
def Bindings.substitute (b σ : Bindings) : Bindings := b.map fun p => (p.1, p.2.substitute σ)

theorem Bindings.lookup_substitute (b σ : Bindings) (name : String) :
    (b.substitute σ).lookup name = (b.lookup name).map (TypeExpr.substitute σ) :=
  OrderedMap.lookup_map _ name b

namespace TypeExpr

mutual
/-- **Two replacements are one**: names in what was put in are replaced, and those that were
left alone. -/
theorem substitute_substitute (b σ : Bindings) :
    (e : TypeExpr) → (e.substitute b).substitute σ = e.substitute (b.substitute σ ++ σ)
  | primitive _ | literal _ | enumSet _ => by rw [substitute, substitute, substitute]
  | reference name => by
    rw [substitute, substitute, List.lookup_append, Bindings.lookup_substitute]
    cases b.lookup name with
    | none =>
      rw [Option.getD_none, substitute]
      rfl
    | some e => rfl
  | generic base args => by
    rw [substitute, substitute, substitute, substituteAll_substituteAll b σ args]
  | union members => by
    rw [substitute, substitute, substitute, substituteAll_substituteAll b σ members]
  | intersection members => by
    rw [substitute, substitute, substitute, substituteAll_substituteAll b σ members]
  | optional inner => by
    rw [substitute, substitute, substitute, substitute_substitute b σ inner]
  | sequence inner => by
    rw [substitute, substitute, substitute, substitute_substitute b σ inner]
  | mapping inner => by
    rw [substitute, substitute, substitute, substitute_substitute b σ inner]

theorem substituteAll_substituteAll (b σ : Bindings) :
    (es : List TypeExpr) → substituteAll σ (substituteAll b es) =
      substituteAll (b.substitute σ ++ σ) es
  | [] => by rw [substituteAll, substituteAll, substituteAll]
  | e :: es => by
    rw [substituteAll, substituteAll, substituteAll, substitute_substitute b σ e,
      substituteAll_substituteAll b σ es]
end

/-- **What is bound is specialized**, and nothing else, in an expression that keeps no name
which is replaced afterwards. -/
theorem substitute_bound {bound : List String} {e : TypeExpr}
    (hbound : ∀ n ∈ bound, (bindings.lookup n).isSome)
    (hkept : ∀ n ∈ e.keptNames bound, σ.lookup n = none) :
    (e.substitute bindings).substitute σ = e.substitute (bindings.substitute σ) := by
  rw [substitute_substitute]
  refine substitute_congr bound (fun n hn => ?_) e fun n hn => ?_
  · obtain ⟨arg, harg⟩ := Option.isSome_iff_exists.1 (hbound n hn)
    rw [List.lookup_append, Bindings.lookup_substitute, harg]
    rfl
  · rw [List.lookup_append, hkept n hn, Option.or_none]

/-- A declared member that is no parameter stays one member. -/
theorem operands_substitute {e : TypeExpr}
    (h : ∀ t ∈ e.operands, ∃ k ∈ t.instantiation?, bindings.lookup k.name = none) :
    (e.substitute bindings).operands = e.operands.map (substitute bindings) := by
  cases e with
  | reference name =>
    obtain ⟨k, hk, hnone⟩ := h _ (List.mem_singleton_self _)
    cases hk
    simp only [substitute, hnone, Option.getD_none, operands, List.map_cons, List.map_nil]
  | intersection members => rw [substitute, substituteAll_eq, operands, operands]
  | _ => simp only [substitute, operands, List.map_cons, List.map_nil]

end TypeExpr

/-- An instantiation with names replaced in its arguments. -/
def Instantiation.substitute (i : Instantiation) (σ : Bindings) : Instantiation :=
  { i with args := i.args.map (TypeExpr.substitute σ) }

/-- What names a type still names it when other names are replaced. -/
theorem TypeExpr.instantiation_substitute {t : TypeExpr} {k : Instantiation}
    (hk : t.instantiation? = some k) (hnone : bindings.lookup k.name = none) :
    (t.substitute bindings).instantiation? = some (k.substitute bindings) := by
  cases t with
  | reference name =>
    cases hk
    rw [substitute, hnone]
    rfl
  | generic base args =>
    cases hk
    rw [substitute, substituteAll_eq]
    rfl
  | _ => cases hk

/-! ## Arguments -/

/-- **Specialized arguments are bound to specialized bindings.** The induction is on the
parameters: a default is read with bindings that are specialized already. -/
theorem bindFrom_substitute {ps : List GenericParameter} {args full : List TypeExpr}
    {before : Bindings} {bound : List String}
    (h : bindFrom before ps args = .ok (bindings, full))
    (hbound : ∀ n ∈ bound, (before.lookup n).isSome)
    (hkept : ∀ n ∈ defaultNames bound ps, σ.lookup n = none) :
    bindFrom (before.substitute σ) ps (args.map (TypeExpr.substitute σ)) =
      .ok (bindings.substitute σ, full.map (TypeExpr.substitute σ)) := by
  induction ps generalizing args full before bound with
  | nil =>
    rw [bindFrom] at h ⊢
    cases h
    rfl
  | cons p ps ih =>
    obtain ⟨arg, rest, later, rfl, hlater, hfrom⟩ := Composer.bindFrom_cons h
    rw [defaultNames] at hkept
    obtain ⟨hdefault, hkept⟩ := List.forall_mem_append.1 hkept
    have hrest := ih hlater (bound_cons p.name arg hbound) hkept
    -- an argument is specialized as it is; a default is read with the earlier bindings
    rcases hfrom with rfl | ⟨rfl, rfl, e, he, rfl⟩
    · rw [List.map_cons, bindFrom]
      show (bindFrom (Bindings.substitute ((p.name, arg) :: before) σ) ps _ >>= _) = _
      rw [hrest]
      rfl
    · have hsame : (e.substitute before).substitute σ = e.substitute (before.substitute σ) := by
        refine TypeExpr.substitute_bound hbound fun n hn => hdefault n ?_
        simpa [he] using hn
      rw [List.map_nil, bindFrom, he]
      dsimp only
      rw [← hsame]
      show (bindFrom (Bindings.substitute ((p.name, e.substitute before) :: before) σ) ps _ >>= _) =
        _
      rw [List.map_nil] at hrest
      rw [hrest]
      rfl

/-! ## Plans -/

/-- The supertype members of a definition, as they are declared. -/
def Definition.supertypes (d : Definition) : List TypeExpr :=
  match d.composition with
  | .ok parts => parts.supertype.toList.flatMap TypeExpr.operands
  | .error _ => []

/-- No definition has more than one supertype member, and that is a registered type which the
definition does not name through a parameter. -/
def Registry.SingleLine (r : Registry) : Prop :=
  ∀ d ∈ r.definitions.values, d.supertypes.length ≤ 1 ∧
    ∀ t ∈ d.supertypes, ∃ k ∈ t.instantiation?, k.name ∈ r.names ∧ k.name ∉ d.parameterNames

/-- A plan with names replaced in what the parameters are bound to. -/
def Plan.substitute (p : Plan) (σ : Bindings) : Plan :=
  { p with key := p.key.substitute σ, bindings := p.bindings.substitute σ }

/-- A field with names replaced in its type. -/
def ResolvedField.substitute (x : ResolvedField) (σ : Bindings) : ResolvedField :=
  { x with expression := x.expression.substitute σ }

namespace Composer

variable {c : Composer} {i key : Instantiation} {d : Definition} {p : Plan}

/-- Every parameter is bound. -/
theorem bound_of_parameter {args full : List TypeExpr} (h : d.bind args = .ok (bindings, full)) :
    ∀ n ∈ d.parameterNames, (bindings.lookup n).isSome := by
  intro n hn
  have hlength : (d.parameters.map GenericParameter.name).length ≤ full.length := by
    rw [List.length_map, length_bindFrom (bindFrom_of_bind h)]
  rw [OrderedMap.lookup_isSome, bind_eq_zip h, List.map_reverse, List.map_fst_zip hlength,
    List.mem_reverse]
  exact hn

/-- The names that a definition keeps are not replaced. -/
theorem complete_substitute (hr : c.registry.KeepsWithin fun n => σ.lookup n = none)
    (h : c.complete i = .ok (d, bindings, key)) :
    c.complete (i.substitute σ) = .ok (d, bindings.substitute σ, key.substitute σ) := by
  obtain ⟨hlookup, hbind, hname⟩ := complete_eq_ok.1 h
  obtain ⟨hlength, hfrom⟩ := bind_eq_ok.1 hbind
  refine complete_eq_ok.2 ⟨hlookup, bind_eq_ok.2 ⟨?_, ?_⟩, hname⟩
  · show (i.args.map _).length ≤ _
    rw [List.length_map]
    exact hlength
  · have hkept := hr _ _ hlookup
    unfold Definition.keptNames at hkept
    exact bindFrom_substitute hfrom (fun n hn => absurd hn List.not_mem_nil)
      (List.forall_mem_append.1 hkept).1

theorem plan_substitute (hr : c.registry.KeepsWithin fun n => σ.lookup n = none)
    (hp : c.plan i = .ok p) : c.plan (i.substitute σ) = .ok (p.substitute σ) := by
  obtain ⟨d, hd, hparts⟩ := plan_eq_ok.1 hp
  exact plan_eq_ok.2 ⟨d, complete_substitute hr hd, hparts⟩

/-- **What a definition composes is specialized with its arguments.** -/
theorem body_substitute (hr : c.registry.KeepsWithin fun n => σ.lookup n = none)
    (h : c.complete i = .ok (d, bindings, key)) {e : TypeExpr} (he : e ∈ d.bodyExpressions) :
    (e.substitute bindings).substitute σ = e.substitute (bindings.substitute σ) := by
  obtain ⟨hlookup, hbind, -⟩ := complete_eq_ok.1 h
  have hkept := hr _ _ hlookup
  unfold Definition.keptNames at hkept
  refine TypeExpr.substitute_bound (bound_of_parameter hbind) fun n hn => ?_
  exact (List.forall_mem_append.1 hkept).2 n (List.mem_flatMap.2 ⟨e, he, hn⟩)

/-- **A plan has one member at most**, and that names a registered type. -/
theorem members_of_singleLine (hline : c.registry.SingleLine) (hp : c.plan i = .ok p) :
    p.members.length ≤ 1 ∧
      ∀ t ∈ p.members, ∃ k ∈ t.instantiation?, k.name ∈ c.registry.names := by
  obtain ⟨d, hd, hparts⟩ := plan_eq_ok.1 hp
  obtain ⟨hlookup, hbind, -⟩ := complete_eq_ok.1 hd
  obtain ⟨hone, hnamed⟩ := hline d (List.mem_map_of_mem (Registry.lookup_mem.1 hlookup))
  have hfree : ∀ t ∈ d.supertypes, ∃ k ∈ t.instantiation?,
      k.name ∈ c.registry.names ∧ p.bindings.lookup k.name = none := by
    intro t ht
    obtain ⟨k, hk, hname, hparameter⟩ := hnamed t ht
    refine ⟨k, hk, hname, Option.not_isSome_iff_eq_none.1 fun hbound => ?_⟩
    exact hparameter (parameter_of_bound hbind k.name hbound)
  -- so each of the members is a declared one, with its arguments bound
  have hmembers : p.members = d.supertypes.map (TypeExpr.substitute p.bindings) := by
    unfold Definition.supertypes at hfree ⊢
    unfold Plan.members Composition.members
    rw [hparts] at hfree ⊢
    dsimp only at hfree ⊢
    cases hs : p.parts.supertype with
    | none => rfl
    | some e =>
      rw [hs, Option.toList_some, List.flatMap_singleton] at hfree
      rw [Option.toList_some, List.flatMap_singleton]
      refine TypeExpr.operands_substitute fun t ht => ?_
      obtain ⟨k, hk, -, hnone⟩ := hfree t ht
      exact ⟨k, hk, hnone⟩
  rw [hmembers, List.length_map]
  refine ⟨hone, fun t ht => ?_⟩
  obtain ⟨u, hu, rfl⟩ := List.mem_map.1 ht
  obtain ⟨k, hk, hname, hnone⟩ := hfree u hu
  exact ⟨_, TypeExpr.instantiation_substitute hk hnone, hname⟩

/-- **The members of a plan are specialized** with it. -/
theorem members_substitute (hr : c.registry.KeepsWithin fun n => σ.lookup n = none)
    (hσ : ∀ n ∈ c.registry.names, σ.lookup n = none) (hline : c.registry.SingleLine)
    (hp : c.plan i = .ok p) :
    (p.substitute σ).members = p.members.map (TypeExpr.substitute σ) := by
  obtain ⟨d, hd, hparts⟩ := plan_eq_ok.1 hp
  have hnamed := (members_of_singleLine hline hp).2
  have hsame : (p.substitute σ).parts = p.parts := rfl
  unfold Plan.members Composition.members at hnamed ⊢
  rw [hsame]
  cases hs : p.parts.supertype with
  | none => rfl
  | some e =>
    rw [hs] at hnamed
    show (e.substitute (p.bindings.substitute σ)).operands = _
    rw [← body_substitute hr hd ((composition_body hparts).1 e hs)]
    refine TypeExpr.operands_substitute fun t ht => ?_
    obtain ⟨k, hk, hname⟩ := hnamed t ht
    exact ⟨k, hk, hσ k.name hname⟩

/-! ## Derivation -/

theorem eq_nil_of_length_le {α : Type} {a : α} {rest : List α} (h : (a :: rest).length ≤ 1) :
    rest = [] :=
  List.length_eq_zero_iff.1 (Nat.le_zero.1 (Nat.le_of_succ_le_succ h))

/-- With one member at most nothing conflicts. -/
theorem exists_combine (p : Plan) {parents : List ResolvedSchema} (hone : parents.length ≤ 1) :
    ∃ s, p.combine parents = .ok s := by
  have hmerge : ∃ held, mergeMembers parents .empty = .ok held := by
    cases parents with
    | nil => exact ⟨.empty, rfl⟩
    | cons m rest =>
      obtain rfl := eq_nil_of_length_le hone
      obtain ⟨held, hheld⟩ := exists_mergeMember_empty m
      refine ⟨held, ?_⟩
      rw [mergeMembers_cons, hheld]
      rfl
  obtain ⟨held, hheld⟩ := hmerge
  exact ⟨_, Plan.combine_eq_ok.2 ⟨held, hheld, rfl⟩⟩

/-- A field of a combined schema is an own one, or the member has it. -/
theorem get?_combine_of_length_le {parents : List ResolvedSchema} {s : ResolvedSchema}
    (hs : p.combine parents = .ok s) (hone : parents.length ≤ 1) (f : String) :
    s.fields.get? f = ((p.parts.fields.get? f).map (ownField p.key.name p.bindings)).or
      (parents.head?.bind fun m => m.fields.get? f) := by
  cases hown : p.parts.fields.get? f with
  | some fd => exact Plan.combine_own hs hown
  | none =>
    cases parents with
    | nil =>
      obtain ⟨held, hheld, hget⟩ := Plan.combine_get? hs f
      rw [hget, hown]
      cases hheld
      rfl
    | cons m rest =>
      obtain rfl := eq_nil_of_length_le hone
      exact get?_combine_singleton hs hown

/-- The second schema has the fields of the first one with names replaced in their types. -/
def Specialized (σ : Bindings) (s s' : ResolvedSchema) : Prop :=
  s'.fields = s.fields.mapValues (ResolvedField.substitute · σ)

variable {parents parents' : List ResolvedSchema} {s s' : ResolvedSchema}

/-- Specialized members contribute the same names. -/
theorem contributedNames_specialized (h : List.Forall₂ (Specialized σ) parents parents') :
    contributedNames parents' = contributedNames parents := by
  unfold contributedNames
  congr 1
  induction h with
  | nil => rfl
  | cons hm _ ih => rw [List.flatMap_cons, List.flatMap_cons, ih, hm, OrderedMap.keys_mapValues]

/-- **A specialized plan combines specialized fields.** -/
theorem combine_substitute (hs : p.combine parents = .ok s) (hone : parents.length ≤ 1)
    (hparents : List.Forall₂ (Specialized σ) parents parents')
    (hown : ∀ fd ∈ p.parts.fields.values, (fd.expression.substitute p.bindings).substitute σ =
      fd.expression.substitute (p.bindings.substitute σ)) :
    ∃ s', (p.substitute σ).combine parents' = .ok s' ∧ Specialized σ s s' := by
  have hone' : parents'.length ≤ 1 := by
    rw [← hparents.length_eq]
    exact hone
  obtain ⟨s', hs'⟩ := exists_combine (p.substitute σ) hone'
  refine ⟨s', hs', OrderedMap.ext_get? ?_ fun f => ?_⟩
  · rw [OrderedMap.keys_mapValues, Plan.combine_table hs, Plan.combine_table hs',
      contributedNames_specialized hparents]
    rfl
  · rw [get?_combine_of_length_le hs' hone', OrderedMap.get?_mapValues,
      get?_combine_of_length_le hs hone]
    show ((p.parts.fields.get? f).map _).or _ = _
    cases hfd : p.parts.fields.get? f with
    | some fd =>
      have hfield := hown fd (List.mem_map_of_mem (mem_of_lookup hfd))
      simp only [Option.map_some, Option.some_or, ownField, ResolvedField.substitute, hfield]
      rfl
    | none =>
      cases hparents with
      | nil => rfl
      | @cons m m' _ _ hm _ =>
        show m'.fields.get? f = (m.fields.get? f).map _
        rw [hm, OrderedMap.get?_mapValues]

/-- Members that name types are derived one by one. -/
theorem deriveEach_substitute {derive : Instantiation → Option ResolvedSchema}
    {members : List TypeExpr}
    (hderive : ∀ k m, derive k = some m → ∃ m', derive (k.substitute σ) = some m' ∧
      Specialized σ m m')
    (hnamed : ∀ t ∈ members, ∃ k ∈ t.instantiation?, σ.lookup k.name = none)
    (h : deriveEach derive members = some parents) :
    ∃ parents', deriveEach derive (members.map (TypeExpr.substitute σ)) = some parents' ∧
      List.Forall₂ (Specialized σ) parents parents' := by
  simp only [deriveEach_eq_some] at h ⊢
  induction h with
  | nil => exact ⟨[], .nil, .nil⟩
  | cons hfirst _ ih =>
    obtain ⟨k, hk, hm⟩ := hfirst
    obtain ⟨⟨k', hk', hnone⟩, hrest⟩ := List.forall_mem_cons.1 hnamed
    rw [Option.mem_def, hk] at hk'
    cases hk'
    obtain ⟨m', hm', hspecialized⟩ := hderive k _ hm
    obtain ⟨ms', hms', hspecialized'⟩ := ih hrest
    exact ⟨m' :: ms', .cons ⟨_, TypeExpr.instantiation_substitute hk hnone, hm'⟩ hms',
      .cons hspecialized hspecialized'⟩

/-- **What is derived is derived for specialized arguments**, at the same height, with its
fields specialized. The induction is on the height, along the members. -/
theorem derive_substitute (hr : c.registry.KeepsWithin fun n => σ.lookup n = none)
    (hσ : ∀ n ∈ c.registry.names, σ.lookup n = none) (hline : c.registry.SingleLine)
    (height : Nat) (h : c.derive height i = some s) :
    ∃ s', c.derive height (i.substitute σ) = some s' ∧ Specialized σ s s' := by
  induction height generalizing i s with
  | zero => simp [derive] at h
  | succ height ih =>
    obtain ⟨p, parents, hp, hparents, hcombine⟩ := derive_succ_eq_some.1 h
    obtain ⟨d, hd, hparts⟩ := plan_eq_ok.1 hp
    obtain ⟨hone, hnamed⟩ := members_of_singleLine hline hp
    rw [(deriveEach_eq_some.1 hparents).length_eq] at hone
    obtain ⟨parents', hparents', hspecialized⟩ := deriveEach_substitute (fun k m => ih)
      (fun t ht => (hnamed t ht).imp fun k hk => ⟨hk.1, hσ k.name hk.2⟩) hparents
    obtain ⟨s', hs', hfields⟩ := combine_substitute hcombine hone hspecialized fun fd hfd =>
      body_substitute hr hd ((composition_body hparts).2 fd hfd)
    refine ⟨s', derive_succ_eq_some.2 ⟨p.substitute σ, parents', plan_substitute hr hp, ?_, hs'⟩,
      hfields⟩
    rw [members_substitute hr hσ hline hp]
    exact hparents'

/-! ## Composition -/

/-- With nothing remembered a composition needs room, and its members are merged. -/
theorem exists_merging_of_compose {memo : Memo} {room : Nat} {chain : List Instantiation}
    (hempty : memo.schemas = []) (h : ((c.compose room chain i).run memo).outcome = .ok s) :
    ∃ room' p merged, room = room' + 1 ∧ c.plan i = .ok p ∧
      ((mergeEach (c.compose room' (chain ++ [p.key])) p.key.name p.members
        { held := .empty, lineage := [] }).run memo).outcome = .ok merged := by
  rw [compose_outcome] at h
  cases hstart : ((c.start chain i).run memo).outcome with
  | error e =>
    rw [hstart] at h
    cases h
  | ok start =>
    rw [hstart] at h
    cases start with
    | known t =>
      obtain ⟨d, bindings, key, -, hl⟩ := start_eq_known hstart
      rw [hempty] at hl
      cases hl
    | fresh key bindings parts =>
      cases room with
      | zero => cases h
      | succ room =>
        let p : Plan := { key, bindings, parts }
        obtain ⟨houtcome, -⟩ := @composeNew_run memo (c.compose room (chain ++ [key])) p
        change ((composeNew _ p.key p.bindings p.parts).run memo).outcome = _ at h
        rw [houtcome] at h
        split at h
        · cases h
        · next merged hmerged => exact ⟨room, p, merged, rfl, start_eq_fresh hstart, hmerged⟩

/-- A member that was merged was resolved. -/
theorem exists_outcome_of_mergeEach {memo : Memo} {t : TypeExpr} {rest : List TypeExpr}
    {k : Instantiation} {owner : String} {merged result : Merged}
    {resolve : Instantiation → Resolving ResolvedSchema} (hk : t.instantiation? = some k)
    (h : ((mergeEach resolve owner (t :: rest) merged).run memo).outcome = .ok result) :
    ∃ m, ((resolve k).run memo).outcome = .ok m := by
  rw [mergeEach_outcome_some owner rest merged hk] at h
  cases hm : ((resolve k).run memo).outcome with
  | ok m => exact ⟨m, rfl⟩
  | error e =>
    rw [hm] at h
    cases h

/-- **A single line needs as much room as its derivation is high.** With nothing remembered,
what is composed in some room is derived at that height: there is one member at most, and it
is composed with nothing remembered as well. -/
theorem derive_of_compose {memo : Memo} (hline : c.registry.SingleLine)
    (hempty : memo.schemas = []) (room : Nat) {chain : List Instantiation}
    (h : ((c.compose room chain i).run memo).outcome = .ok s) : c.derive room i = some s := by
  have hderived : memo.DerivedBy c := by
    intro key t hmem
    rw [hempty] at hmem
    cases hmem
  induction room generalizing chain i s with
  | zero =>
    obtain ⟨room, p, merged, hroom, -⟩ := exists_merging_of_compose hempty h
    cases hroom
  | succ room ih =>
    obtain ⟨room, p, merged, hroom, hp, hmerged⟩ := exists_merging_of_compose hempty h
    cases hroom
    obtain ⟨q, parents, hq, hparents, hcombine⟩ :=
      derives_iff.1 ((compose_derived _ chain i memo hderived).2 s h)
    rw [hp] at hq
    cases hq
    have hone := (members_of_singleLine hline hp).1
    refine derive_succ_eq_some.2 ⟨p, parents, hp, deriveEach_eq_some.2 ?_, hcombine⟩
    -- of no members or one, the one is composed with nothing remembered
    generalize p.members = members at hmerged hparents hone
    cases hparents with
    | nil => exact .nil
    | @cons t m rest ms hfirst hrest =>
      obtain rfl := eq_nil_of_length_le hone
      cases hrest
      obtain ⟨k, hk, hm⟩ := hfirst
      obtain ⟨m', hm'⟩ := exists_outcome_of_mergeEach hk hmerged
      have hheight := ih hm'
      rw [Derives.unique ⟨room, hheight⟩ hm] at hheight
      exact .cons ⟨k, hk, hheight⟩ .nil

/-- **Arguments are specialized before or behind a resolution.** Let no name dangle, no loose
parameter either, and let no definition have more than one supertype member, which is a registered
type and no parameter. Names that are not registered may stand in the arguments, also such that
are parameters of some definition. If a type is resolved with nothing remembered, it is resolved
with these names replaced in its arguments, and to the same fields, in the same order, with the
same tags and origins and with the names replaced in their types. -/
theorem specialized_arguments (c : Composer) (i : Instantiation) (σ : Bindings)
    (s : ResolvedSchema) (hreport : c.registry.unresolvedReferences = [])
    (hloose : ∀ n, c.registry.Loose n → n ∈ c.registry.names) (hline : c.registry.SingleLine)
    (hσ : ∀ p ∈ σ, p.1 ∉ c.registry.names)
    (h : ((c.resolveStruct i).run .empty).outcome = .ok s) :
    ∃ s', ((c.resolveStruct (i.substitute σ)).run .empty).outcome = .ok s' ∧
      s'.fields.entries = s.fields.entries.map fun e =>
        (e.1, { e.2 with expression := e.2.expression.substitute σ }) := by
  have hfree : ∀ n ∈ c.registry.names, σ.lookup n = none := by
    intro n hn
    rw [List.lookup_eq_none_iff]
    intro p hp
    have hne : n ≠ p.1 := by
      rintro rfl
      exact hσ p hp hn
    simpa using hne
  have hr : c.registry.KeepsWithin fun n => σ.lookup n = none :=
    fun name d hd n hn => hfree n (c.registry.keepsWithin_names hreport hloose name d hd n hn)
  have hheight : c.derive c.maxDepth i = some s := derive_of_compose hline rfl c.maxDepth h
  obtain ⟨s', hs', hfields⟩ := derive_substitute hr hfree hline c.maxDepth hheight
  refine ⟨s', ?_, congrArg OrderedMap.entries hfields⟩
  -- the bound would stop only what is higher than that
  rcases resolveStruct_of_derives (Memo.empty_derivedBy c) ⟨_, hs'⟩ with ⟨name, bound, hstop⟩ | hok
  · obtain ⟨path, hascent, hlength⟩ := resolveStruct_ascends hstop
    have hle := hascent.length_le hs'
    omega
  · exact hok

/-- A box of something, a crate of boxes and a shelf of crates. The parameters of the three have
the same names, and the second one of the crate has the first one in its default. -/
def warehouse : Composer where
  registry :=
    { definitions := .ofList
        [("Box", .ofStruct
          { name := "Box"
            fields := .ofList
              [("item", { expression := .reference "T", tags := .empty, raw := "T" })]
            supertype := none
            parameters := [{ name := "T", default := none }] }),
         ("Crate", .ofStruct
          { name := "Crate"
            fields := .ofList
              [("first", { expression := .reference "T", tags := .empty, raw := "T" }),
               ("rest", { expression := .reference "U", tags := .empty, raw := "U" })]
            supertype := some (.generic "Box" [.mapping (.reference "U")])
            parameters :=
              [{ name := "T", default := none },
               { name := "U", default := some (.sequence (.reference "T")) }] }),
         ("Shelf", .ofStruct
          { name := "Shelf"
            fields := .ofList
              [("top", { expression := .reference "U", tags := .empty, raw := "U" })]
            supertype := some (.generic "Crate" [.optional (.reference "U")])
            parameters := [{ name := "U", default := none }] })]
      frozen := true }
  maxDepth := 3

/-- A shelf of two things that are called like parameters. When these get a type, the name in
the type of one of them is left alone. -/
theorem shelf_captures_nothing :
    let i : Instantiation := ⟨"Shelf", [.union [.reference "T", .reference "U"]]⟩
    let σ : Bindings := [("T", .primitive "number"), ("U", .sequence (.reference "T"))]
    let thing : TypeExpr := .union [.primitive "number", .sequence (.reference "T")]
    ∃ s s', ((warehouse.resolveStruct i).run .empty).outcome = .ok s ∧
      ((warehouse.resolveStruct (i.substitute σ)).run .empty).outcome = .ok s' ∧
      s'.fields.entries = s.fields.entries.map (fun e =>
        (e.1, { e.2 with expression := e.2.expression.substitute σ })) ∧
      s'.fields.entries.map (fun e => (e.1, e.2.expression)) =
        [("item", .mapping (.sequence (.optional thing))), ("first", .optional thing),
          ("rest", .sequence (.optional thing)), ("top", thing)] := by
  intro i σ thing
  let things : TypeExpr := .union [.reference "T", .reference "U"]
  have hnone : ∀ d ∈ warehouse.registry.definitions.values, d.looseParameters = [] := by decide
  have hloose : ∀ n, warehouse.registry.Loose n → n ∈ warehouse.registry.names := by
    rintro n ⟨d, hd, hn⟩
    rw [hnone d hd] at hn
    cases hn
  have hline : warehouse.registry.SingleLine := by
    unfold Registry.SingleLine
    decide
  have hfields : (((warehouse.resolveStruct i).run .empty).outcome.toOption.map fun s =>
      s.fields.entries.map fun e => (e.1, e.2.expression)) = some
        [("item", .mapping (.sequence (.optional things))), ("first", .optional things),
          ("rest", .sequence (.optional things)), ("top", things)] := by decide
  obtain ⟨s, hs, hentries⟩ := exists_of_toOption_map hfields
  obtain ⟨s', hs', hspecialized⟩ := specialized_arguments warehouse i σ s (by decide) hloose hline
    (by decide) hs
  refine ⟨s, s', hs, hs', hspecialized, ?_⟩
  have hmap : s'.fields.entries.map (fun e => (e.1, e.2.expression)) =
      (s.fields.entries.map fun e => (e.1, e.2.expression)).map
        fun e => (e.1, e.2.substitute σ) := by
    rw [hspecialized, List.map_map, List.map_map]
    rfl
  rw [hmap, hentries]
  rfl

end Composer

end WidgetSchema
