/-
Which names a resolved type mentions.

Replacing parameters takes their references away and puts the names of their
arguments in. It leaves every other name alone, and also a parameter that is the
base of a generic: the names that stay are `keptNames`. A default is read with the
parameters before it, so for it these alone are replaced.

Names that stay in a definition and names of the arguments are all that resolution
has to work with. So if they all have a property, every name in the resolved type
has it (`Denotes.within`), by induction on the derivation.
-/
import WidgetSchema.Proofs.Lineage
import WidgetSchema.Proofs.NameDenotation
import WidgetSchema.Proofs.OverridingLines

set_option autoImplicit false

namespace WidgetSchema

/-! ## Names that stay -/

namespace TypeExpr

mutual
/-- The names that an expression still mentions when the names in `bound` have been
replaced by expressions without names. -/
def keptNames (bound : List String) : TypeExpr → List String
  | reference name => if name ∈ bound then [] else [name]
  | generic base args => base :: keptNamesAll bound args
  | union members | intersection members => keptNamesAll bound members
  | optional inner | sequence inner | mapping inner => keptNames bound inner
  | primitive _ | literal _ | enumSet _ => []

/-- The names that stay in the expressions of a list. -/
def keptNamesAll (bound : List String) : List TypeExpr → List String
  | [] => []
  | e :: es => keptNames bound e ++ keptNamesAll bound es
end

mutual
/-- What stays was there. -/
theorem references_of_mem_keptNames {bound : List String} {n : String} :
    (e : TypeExpr) → n ∈ e.keptNames bound → n ∈ e.references
  | reference name, h => by
    rw [keptNames] at h
    split at h
    · cases h
    · exact h
  | generic base args, h => by
    rw [keptNames] at h
    rw [references]
    rcases List.mem_cons.1 h with rfl | h
    · exact List.mem_cons_self
    · exact List.mem_cons_of_mem _ (references_of_mem_keptNamesAll args h)
  | union members, h | intersection members, h => by
    rw [keptNames] at h
    exact references_of_mem_keptNamesAll members h
  | optional inner, h | sequence inner, h | mapping inner, h => by
    rw [keptNames] at h
    exact references_of_mem_keptNames inner h
  | primitive _, h | literal _, h | enumSet _, h => by
    rw [keptNames] at h
    cases h

/-- Names that stay are names of the expressions. -/
theorem references_of_mem_keptNamesAll {bound : List String} {n : String} :
    (es : List TypeExpr) → n ∈ keptNamesAll bound es → n ∈ referencesAll es
  | [], h => h
  | e :: es, h => by
    rw [keptNamesAll] at h
    rw [referencesAll]
    rcases List.mem_append.1 h with h | h
    · exact List.mem_append_left _ (references_of_mem_keptNames e h)
    · exact List.mem_append_right _ (references_of_mem_keptNamesAll es h)
end

mutual
/-- Only what the names in an expression are bound to matters: those that are replaced and
those that stay. -/
theorem substitute_congr {bindings bindings' : Bindings} (bound : List String)
    (hbound : ∀ n ∈ bound, bindings.lookup n = bindings'.lookup n) :
    (e : TypeExpr) → (∀ n ∈ e.keptNames bound, bindings.lookup n = bindings'.lookup n) →
      e.substitute bindings = e.substitute bindings'
  | primitive _, _ | literal _, _ | enumSet _, _ => by rw [substitute, substitute]
  | reference name, h => by
    have hname : bindings.lookup name = bindings'.lookup name := by
      by_cases hmem : name ∈ bound
      · exact hbound name hmem
      · refine h name ?_
        rw [keptNames, if_neg hmem]
        exact List.mem_singleton_self name
    rw [substitute, substitute, hname]
  | generic base args, h => by
    rw [keptNames] at h
    rw [substitute, substitute,
      substituteAll_congr bound hbound args fun n hn => h n (List.mem_cons_of_mem _ hn)]
  | union members, h | intersection members, h => by
    rw [keptNames] at h
    rw [substitute, substitute, substituteAll_congr bound hbound members h]
  | optional inner, h | sequence inner, h | mapping inner, h => by
    rw [keptNames] at h
    rw [substitute, substitute, substitute_congr bound hbound inner h]

/-- The same for all expressions of a list. -/
theorem substituteAll_congr {bindings bindings' : Bindings} (bound : List String)
    (hbound : ∀ n ∈ bound, bindings.lookup n = bindings'.lookup n) :
    (es : List TypeExpr) → (∀ n ∈ keptNamesAll bound es, bindings.lookup n = bindings'.lookup n) →
      substituteAll bindings es = substituteAll bindings' es
  | [], _ => by rw [substituteAll, substituteAll]
  | e :: es, h => by
    rw [keptNamesAll] at h
    obtain ⟨he, hes⟩ := List.forall_mem_append.1 h
    rw [substituteAll, substituteAll, substitute_congr bound hbound e he,
      substituteAll_congr bound hbound es hes]
end

mutual
/-- **Where a name comes from**: it stayed, or it stands in what was put in. -/
theorem mem_references_substitute {bound : List String} {bindings : Bindings} {n : String}
    (hbound : ∀ name ∈ bound, (bindings.lookup name).isSome) :
    (e : TypeExpr) → n ∈ (e.substitute bindings).references →
      n ∈ e.keptNames bound ∨ ∃ p ∈ bindings, n ∈ p.2.references
  | reference name, h => by
    rw [substitute] at h
    cases hl : bindings.lookup name with
    | some e =>
      rw [hl] at h
      exact .inr ⟨(name, e), mem_of_lookup hl, h⟩
    | none =>
      rw [hl] at h
      -- a name without a binding is none of the bound ones, so it stays
      refine .inl ?_
      rw [keptNames, if_neg]
      · exact h
      · intro hmem
        rw [← Option.not_isSome_iff_eq_none] at hl
        exact hl (hbound name hmem)
  | generic base args, h => by
    rw [substitute, references] at h
    rw [keptNames]
    rcases List.mem_cons.1 h with rfl | h
    · exact .inl List.mem_cons_self
    · exact (mem_references_substituteAll hbound args h).imp_left (List.mem_cons_of_mem _)
  | union members, h | intersection members, h => by
    rw [substitute, references] at h
    rw [keptNames]
    exact mem_references_substituteAll hbound members h
  | optional inner, h | sequence inner, h | mapping inner, h => by
    rw [substitute, references] at h
    rw [keptNames]
    exact mem_references_substitute hbound inner h
  | primitive _, h | literal _, h | enumSet _, h => by
    rw [substitute, references] at h
    cases h

theorem mem_references_substituteAll {bound : List String} {bindings : Bindings} {n : String}
    (hbound : ∀ name ∈ bound, (bindings.lookup name).isSome) :
    (es : List TypeExpr) → n ∈ referencesAll (substituteAll bindings es) →
      n ∈ keptNamesAll bound es ∨ ∃ p ∈ bindings, n ∈ p.2.references
  | [], h => by
    rw [substituteAll] at h
    cases h
  | e :: es, h => by
    rw [substituteAll, referencesAll] at h
    rw [keptNamesAll]
    rcases List.mem_append.1 h with h | h
    · exact (mem_references_substitute hbound e h).imp_left (List.mem_append_left _)
    · exact (mem_references_substituteAll hbound es h).imp_left (List.mem_append_right _)
end

mutual
/-- **What stays is mentioned afterwards**, whatever the names in `bound` are replaced by. -/
theorem mem_references_of_kept {bound : List String} {bindings : Bindings} {n : String}
    (hbound : ∀ name, (bindings.lookup name).isSome → name ∈ bound) :
    (e : TypeExpr) → n ∈ e.keptNames bound → n ∈ (e.substitute bindings).references
  | reference name, h => by
    rw [keptNames] at h
    split at h
    · cases h
    · next hname =>
      have hnone : bindings.lookup name = none := by
        rw [← Option.not_isSome_iff_eq_none]
        exact mt (hbound name) hname
      rw [substitute, hnone]
      exact h
  | generic base args, h => by
    rw [keptNames] at h
    rw [substitute, references]
    rcases List.mem_cons.1 h with rfl | h
    · exact List.mem_cons_self
    · exact List.mem_cons_of_mem _ (mem_references_of_keptAll hbound args h)
  | union members, h | intersection members, h => by
    rw [keptNames] at h
    rw [substitute, references]
    exact mem_references_of_keptAll hbound members h
  | optional inner, h | sequence inner, h | mapping inner, h => by
    rw [keptNames] at h
    rw [substitute, references]
    exact mem_references_of_kept hbound inner h
  | primitive _, h | literal _, h | enumSet _, h => by
    rw [keptNames] at h
    cases h

theorem mem_references_of_keptAll {bound : List String} {bindings : Bindings} {n : String}
    (hbound : ∀ name, (bindings.lookup name).isSome → name ∈ bound) :
    (es : List TypeExpr) → n ∈ keptNamesAll bound es →
      n ∈ referencesAll (substituteAll bindings es)
  | [], h => by
    rw [keptNamesAll] at h
    cases h
  | e :: es, h => by
    rw [keptNamesAll] at h
    rw [substituteAll, referencesAll]
    rcases List.mem_append.1 h with h | h
    · exact List.mem_append_left _ (mem_references_of_kept hbound e h)
    · exact List.mem_append_right _ (mem_references_of_keptAll hbound es h)
end

/-! ## Expressions within a set of names -/

/-- All names in an expression are in a set. -/
def Within (A : String → Prop) (e : TypeExpr) : Prop := ∀ n ∈ e.references, A n

variable {A : String → Prop} {e e' : TypeExpr}

/-- Substitution mentions what the bound expressions mention and the names that stay. -/
theorem Within.substitute {bound : List String} {bindings : Bindings}
    (hbound : ∀ name ∈ bound, (bindings.lookup name).isSome)
    (hbindings : ∀ p ∈ bindings, p.2.Within A) (h : ∀ n ∈ e.keptNames bound, A n) :
    (e.substitute bindings).Within A := by
  intro n hn
  rcases mem_references_substitute hbound e hn with hn | ⟨p, hp, hn⟩
  · exact h n hn
  · exact hbindings p hp n hn

/-- A list mentions what its expressions mention. -/
theorem within_all {es : List TypeExpr} :
    (∀ n ∈ referencesAll es, A n) ↔ ∀ e ∈ es, e.Within A := by
  simp only [referencesAll_eq, List.mem_flatMap, forall_exists_index, and_imp, Within]
  exact ⟨fun h e he n hn => h n e he hn, fun h n e he hn => h e he n hn⟩

/-- An operand mentions no more than the whole. -/
theorem Within.operand (h : e.Within A) (hmem : e' ∈ e.operands) : e'.Within A := by
  cases e with
  | intersection members => exact within_all.1 h e' hmem
  | _ =>
    obtain rfl := List.mem_singleton.1 hmem
    exact h

end TypeExpr

/-- The name and the names in the arguments are in a set. -/
def Instantiation.Within (A : String → Prop) (i : Instantiation) : Prop :=
  A i.name ∧ ∀ arg ∈ i.args, arg.Within A

/-- The name and the arguments of a type name are mentioned by it. -/
theorem TypeExpr.Within.instantiation {A : String → Prop} {e : TypeExpr} {i : Instantiation}
    (h : e.Within A) (hi : e.instantiation? = some i) : i.Within A := by
  cases e with
  | reference name =>
    cases hi
    exact ⟨h name (List.mem_singleton_self _), fun arg harg => absurd harg List.not_mem_nil⟩
  | generic base args =>
    cases hi
    obtain ⟨hbase, hargs⟩ := List.forall_mem_cons.1 h
    exact ⟨hbase, within_all.1 hargs⟩
  | _ => cases hi

/-! ## Definitions -/

/-- The names that stay in the defaults of parameters behind those in `bound`. -/
def defaultNames (bound : List String) : List GenericParameter → List String
  | [] => []
  | p :: ps =>
    p.default.toList.flatMap (TypeExpr.keptNames bound) ++ defaultNames (p.name :: bound) ps

namespace Definition

/-- The names of the parameters. -/
def parameterNames (d : Definition) : List String := d.parameters.map GenericParameter.name

/-- The names that stay in a definition when its parameters are replaced. -/
def keptNames (d : Definition) : List String :=
  defaultNames [] d.parameters ++ d.bodyExpressions.flatMap (TypeExpr.keptNames d.parameterNames)

/-- The parameters that stay: one that is the base of a generic, and one that a
default mentions whose own parameter does not stand behind it. -/
def looseParameters (d : Definition) : List String :=
  d.keptNames.filter fun n => d.parameterNames.contains n

/-- The names that stay in what a definition shows itself: in the fields it declares,
or in the expression it resolves to. -/
def shownNames (d : Definition) : List String :=
  match d with
  | ofStruct s => s.fields.values.flatMap fun f => f.expression.keptNames d.parameterNames
  | ofAlias _ => d.plainExpression?.toList.flatMap (TypeExpr.keptNames d.parameterNames)

end Definition

/-- Names of defaults are mentioned by the defaults. -/
theorem mem_defaultNames {bound : List String} {ps : List GenericParameter} {n : String}
    (h : n ∈ defaultNames bound ps) :
    ∃ e ∈ ps.filterMap GenericParameter.default, n ∈ e.references := by
  induction ps generalizing bound with
  | nil => cases h
  | cons p ps ih =>
    rw [defaultNames] at h
    rcases List.mem_append.1 h with h | h
    · obtain ⟨e, he, hn⟩ := List.mem_flatMap.1 h
      refine ⟨e, ?_, TypeExpr.references_of_mem_keptNames e hn⟩
      rw [List.mem_filterMap]
      exact ⟨p, List.mem_cons_self, Option.mem_toList.1 he⟩
    · obtain ⟨e, he, hn⟩ := ih h
      refine ⟨e, ?_, hn⟩
      rw [List.mem_filterMap] at he ⊢
      obtain ⟨q, hq, hdefault⟩ := he
      exact ⟨q, List.mem_cons_of_mem _ hq, hdefault⟩

/-- **What stays is a loose parameter or a free reference.** -/
theorem Definition.loose_or_free {d : Definition} {n : String} (h : n ∈ d.keptNames) :
    n ∈ d.looseParameters ∨ n ∈ d.freeReferences := by
  by_cases hp : d.parameterNames.contains n
  · exact .inl (List.mem_filter.2 ⟨h, hp⟩)
  · refine .inr (List.mem_filter.2 ⟨?_, by simpa [Definition.parameterNames] using hp⟩)
    rw [List.mem_flatMap]
    unfold Definition.expressions
    simp only [List.mem_append]
    rcases List.mem_append.1 h with h | h
    · obtain ⟨e, he, hn⟩ := mem_defaultNames h
      exact ⟨e, .inl he, hn⟩
    · obtain ⟨e, he, hn⟩ := List.mem_flatMap.1 h
      exact ⟨e, .inr he, TypeExpr.references_of_mem_keptNames e hn⟩

/-! ## Bindings -/

section Binding

variable {A : String → Prop}

/-- One more parameter is bound. -/
theorem bound_cons {bound : List String} {before : Bindings} (name : String) (arg : TypeExpr)
    (h : ∀ n ∈ bound, (before.lookup n).isSome) :
    ∀ n ∈ name :: bound, (List.lookup n ((name, arg) :: before)).isSome := by
  intro n hn
  rw [List.lookup_cons]
  split
  · rfl
  · next hne =>
    refine h n ((List.mem_cons.1 hn).resolve_left ?_)
    simpa using hne

/-- Defaults are read with the bindings made so far, so the induction carries that
these bind what is replaced. -/
theorem bindFrom_within {ps : List GenericParameter} {args full : List TypeExpr}
    {before bindings : Bindings} {bound : List String}
    (h : bindFrom before ps args = .ok (bindings, full))
    (hbound : ∀ name ∈ bound, (before.lookup name).isSome)
    (hbefore : ∀ p ∈ before, p.2.Within A) (hargs : ∀ arg ∈ args, arg.Within A)
    (hkept : ∀ n ∈ defaultNames bound ps, A n) :
    (∀ name, name ∈ bound ∨ name ∈ ps.map GenericParameter.name →
        (bindings.lookup name).isSome) ∧
      (∀ p ∈ bindings, p.2.Within A) ∧ ∀ arg ∈ full, arg.Within A := by
  induction ps generalizing args full before bound with
  | nil =>
    rw [bindFrom] at h
    cases h
    refine ⟨fun name hname => ?_, hbefore, fun arg harg => absurd harg List.not_mem_nil⟩
    exact hbound name (hname.resolve_right List.not_mem_nil)
  | cons p ps ih =>
    obtain ⟨arg, rest, later, rfl, hlater, hfrom⟩ := Composer.bindFrom_cons h
    rw [defaultNames] at hkept
    obtain ⟨hdefault, hkept⟩ := List.forall_mem_append.1 hkept
    -- a default mentions what it keeps, and what the parameters before it are bound to
    have harg : arg.Within A := by
      rcases hfrom with rfl | ⟨-, -, e, he, rfl⟩
      · exact hargs arg List.mem_cons_self
      · refine TypeExpr.Within.substitute hbound hbefore fun n hn => hdefault n ?_
        simpa [he] using hn
    have hrest : ∀ arg ∈ rest, arg.Within A := by
      rcases hfrom with rfl | ⟨-, rfl, -⟩
      · exact fun x hx => hargs x (List.mem_cons_of_mem _ hx)
      · exact fun x hx => absurd hx List.not_mem_nil
    obtain ⟨hlookup, hbindings, hfull⟩ := ih hlater (bound_cons p.name arg hbound)
      (List.forall_mem_cons.2 ⟨harg, hbefore⟩) hrest hkept
    refine ⟨fun name hname => hlookup name ?_, hbindings, List.forall_mem_cons.2 ⟨harg, hfull⟩⟩
    rw [List.map_cons, List.mem_cons] at hname
    rw [List.mem_cons]
    tauto

end Binding

/-! ## Resolved types -/

/-- All names that stay in registered definitions are in a set. -/
def Registry.KeepsWithin (r : Registry) (A : String → Prop) : Prop :=
  ∀ name d, r.lookup name = .ok d → ∀ n ∈ d.keptNames, A n

/-- All names in the arguments and in the fields are in a set. -/
def ResolvedSchema.Within (A : String → Prop) (s : ResolvedSchema) : Prop :=
  (∀ arg ∈ s.instantiation.args, arg.Within A) ∧
    ∀ field ∈ s.fields.entries, field.2.expression.Within A

/-- All names in a resolved type are in a set. -/
def Resolved.Within (A : String → Prop) : Resolved → Prop
  | schema s => s.Within A
  | expression e => e.Within A

/-- A resolved type mentions a name in an argument, in a field or in its expression. -/
def Resolved.Mentions (n : String) : Resolved → Prop
  | schema s => (∃ arg ∈ s.instantiation.args, n ∈ arg.references) ∨
      ∃ field ∈ s.fields.entries, n ∈ field.2.expression.references
  | expression e => n ∈ e.references

theorem Resolved.Within.mentions {A : String → Prop} {r : Resolved} {n : String}
    (h : r.Within A) (hn : r.Mentions n) : A n := by
  cases r with
  | schema s =>
    rcases hn with ⟨arg, harg, hn⟩ | ⟨field, hfield, hn⟩
    · exact h.1 arg harg n hn
    · exact h.2 field hfield n hn
  | expression e => exact h n hn

namespace Composer

variable {A : String → Prop} {c : Composer} {i : Instantiation}

/-- What completes an instantiation comes from its arguments and the defaults; and
whatever the definition composes stays in the set with it. -/
theorem complete_within (hA : c.registry.KeepsWithin A) {d : Definition} {bindings : Bindings}
    {key : Instantiation} (hd : c.complete i = .ok (d, bindings, key))
    (hargs : ∀ arg ∈ i.args, arg.Within A) :
    (∀ arg ∈ key.args, arg.Within A) ∧
      ∀ e ∈ d.bodyExpressions, (e.substitute bindings).Within A := by
  obtain ⟨hlookup, hbind, -⟩ := complete_eq_ok.1 hd
  have hkept := hA _ _ hlookup
  unfold Definition.keptNames at hkept
  obtain ⟨hdefaults, hbody⟩ := List.forall_mem_append.1 hkept
  -- before the first parameter nothing is bound
  have hnone : ∀ name ∈ ([] : List String), (List.lookup name ([] : Bindings)).isSome :=
    fun name h => absurd h List.not_mem_nil
  obtain ⟨hbound, hbindings, hfull⟩ := bindFrom_within (bindFrom_of_bind hbind) hnone
    (fun p h => absurd h List.not_mem_nil) hargs hdefaults
  refine ⟨hfull, fun e he => ?_⟩
  refine TypeExpr.Within.substitute (fun name hname => hbound name (.inr hname)) hbindings
    fun n hn => hbody n ?_
  exact List.mem_flatMap.2 ⟨e, he, hn⟩

/-- What a definition composes are expressions of its body. -/
theorem composition_body {d : Definition} {parts : Composition} (h : d.composition = .ok parts) :
    (∀ e, parts.supertype = some e → e ∈ d.bodyExpressions) ∧
      ∀ field ∈ parts.fields.values, field.expression ∈ d.bodyExpressions := by
  cases d with
  | ofStruct d =>
    cases h
    unfold Definition.bodyExpressions
    refine ⟨fun e he => ?_, fun field hfield => ?_⟩
    · exact List.mem_append_left _ (Option.mem_toList.2 he)
    · exact List.mem_append_right _ (List.mem_map_of_mem hfield)
  | ofAlias d =>
    simp only [Definition.composition] at h
    split at h
    · cases h
      refine ⟨fun e he => ?_, fun field hfield => absurd hfield List.not_mem_nil⟩
      cases he
      exact List.mem_singleton_self _
    · cases h

theorem plainExpression_body {d : Definition} {e : TypeExpr} (h : d.plainExpression? = some e) :
    e ∈ d.bodyExpressions := by
  cases d with
  | ofStruct d => cases h
  | ofAlias d =>
    simp only [Definition.plainExpression?] at h
    split at h
    · cases h
    · cases h
      exact List.mem_singleton_self _

/-- The members of a plan stand in the body of its definition, before the parameters are
replaced. -/
theorem exists_body_of_member {p : Plan} {d : Definition} (hparts : d.composition = .ok p.parts)
    {member : TypeExpr} (h : member ∈ p.members) :
    ∃ e ∈ d.bodyExpressions, member ∈ (e.substitute p.bindings).operands := by
  unfold Plan.members Composition.members at h
  cases hs : p.parts.supertype with
  | none =>
    rw [hs] at h
    cases h
  | some e =>
    rw [hs] at h
    exact ⟨e, (composition_body hparts).1 e hs, h⟩

/-- The members of a plan and the types of its own fields. -/
theorem plan_within (hA : c.registry.KeepsWithin A) {p : Plan} (hp : c.plan i = .ok p)
    (hargs : ∀ arg ∈ i.args, arg.Within A) :
    (∀ arg ∈ p.key.args, arg.Within A) ∧ (∀ member ∈ p.members, member.Within A) ∧
      ∀ field ∈ p.parts.fields.values, (field.expression.substitute p.bindings).Within A := by
  obtain ⟨d, hd, hparts⟩ := plan_eq_ok.1 hp
  obtain ⟨hkey, hbody⟩ := complete_within hA hd hargs
  obtain ⟨-, hfields⟩ := composition_body hparts
  refine ⟨hkey, fun member hmember => ?_, fun field hfield => hbody _ (hfields field hfield)⟩
  obtain ⟨e, he, hoperand⟩ := exists_body_of_member hparts hmember
  exact (hbody e he).operand hoperand

/-- **Derivation stays in the set.** The induction is on the height: a field is an
own one, or a member that is derived below has it. -/
theorem derive_within (hA : c.registry.KeepsWithin A) (height : Nat) {s : ResolvedSchema}
    (h : c.derive height i = some s) (hargs : ∀ arg ∈ i.args, arg.Within A) : s.Within A := by
  induction height generalizing i s with
  | zero => simp [derive] at h
  | succ height ih =>
    obtain ⟨p, parents, hp, hparents, hs⟩ := derive_succ_eq_some.1 h
    obtain ⟨hkey, hmembers, hown⟩ := plan_within hA hp hargs
    have hparent : ∀ parent ∈ parents, parent.Within A := by
      intro parent hmem
      obtain ⟨j, ⟨member, hmember, hj⟩, hparent⟩ := exists_derive_of_mem hparents hmem
      exact ih hparent ((hmembers member hmember).instantiation hj).2
    refine ⟨?_, fun field hfield => ?_⟩
    · rw [Derives.instantiation_eq ⟨_, h⟩ hp]
      exact hkey
    · rcases Plan.combine_field hs (OrderedMap.get?_eq_some.2 hfield) with
        ⟨d, hd, hfield⟩ | ⟨m, hm, hfield⟩
      · rw [hfield]
        exact hown d (List.mem_map_of_mem (OrderedMap.get?_eq_some.1 hd))
      · exact (hparent m hm).2 _ (OrderedMap.get?_eq_some.1 hfield)

/-- **Resolution stays in the set**: names of the arguments and names that stay in
definitions are all that a resolved type mentions. -/
theorem Denotes.within (hA : c.registry.KeepsWithin A) {r : Resolved} (h : c.Denotes i r)
    (hargs : ∀ arg ∈ i.args, arg.Within A) : r.Within A := by
  cases h with
  | schema _ _ hs =>
    obtain ⟨height, hheight⟩ := hs
    exact derive_within hA height hheight hargs
  | expression hd hplain => exact (complete_within hA hd hargs).2 _ (plainExpression_body hplain)

/-- Nothing but parameters is bound. -/
theorem parameter_of_bound {d : Definition} {args full : List TypeExpr} {bindings : Bindings}
    (h : d.bind args = .ok (bindings, full)) (name : String)
    (hname : (bindings.lookup name).isSome) : name ∈ d.parameterNames := by
  obtain ⟨e, he⟩ := Option.isSome_iff_exists.1 hname
  have hmem := mem_of_lookup he
  rw [bind_eq_zip h, List.mem_reverse] at hmem
  exact (List.of_mem_zip hmem).1

/-- A struct shows every field that it declares. -/
theorem Derives.ownField {s : ResolvedSchema} {d : StructDef} {bindings : Bindings}
    {key : Instantiation} (hs : c.Derives i s)
    (hd : c.complete i = .ok (.ofStruct d, bindings, key)) {f : String} {fd : FieldDef}
    (hf : (f, fd) ∈ d.fields.entries) :
    ∃ x, (f, x) ∈ s.fields.entries ∧ x.expression = fd.expression.substitute bindings := by
  obtain ⟨p, parents, hp, -, hcombine⟩ := derives_iff.1 hs
  obtain ⟨d', hd', hparts⟩ := plan_eq_ok.1 hp
  rw [hd, Except.ok.injEq, Prod.mk.injEq, Prod.mk.injEq] at hd'
  obtain ⟨rfl, rfl, -⟩ := hd'
  have hown : p.parts.fields.get? f = some fd := by
    rw [← Except.ok.inj hparts]
    exact OrderedMap.get?_eq_some.2 hf
  obtain ⟨held, -, hget⟩ := p.combine_get? hcombine f
  rw [hown] at hget
  exact ⟨_, OrderedMap.get?_eq_some.1 hget, rfl⟩

/-- **What stays where a type is declared survives**: in each field that a struct
declares, and in the expression of an alias that resolves to one. -/
theorem Denotes.mentions_kept {r : Resolved} (h : c.Denotes i r) {d : Definition}
    (hlookup : c.registry.lookup i.name = .ok d) {n : String} (hn : n ∈ d.shownNames) :
    r.Mentions n := by
  cases h with
  | @schema d' _ _ _ hd hplain hs =>
    obtain ⟨hlookup', hbind, -⟩ := complete_eq_ok.1 hd
    rw [hlookup] at hlookup'
    cases hlookup'
    cases d with
    | ofStruct d =>
      obtain ⟨fd, hfd, hn⟩ := List.mem_flatMap.1 hn
      obtain ⟨⟨f, _⟩, hf, rfl⟩ := List.mem_map.1 hfd
      obtain ⟨x, hx, hexpression⟩ := hs.ownField hd hf
      refine .inr ⟨_, hx, ?_⟩
      rw [hexpression]
      exact TypeExpr.mem_references_of_kept (parameter_of_bound hbind) _ hn
    | ofAlias d =>
      simp [Definition.shownNames, hplain] at hn
  | @expression d' _ _ _ hd hplain =>
    obtain ⟨hlookup', hbind, -⟩ := complete_eq_ok.1 hd
    rw [hlookup] at hlookup'
    cases hlookup'
    cases d with
    | ofStruct d => cases hplain
    | ofAlias d =>
      have hkept := by simpa [Definition.shownNames, hplain] using hn
      exact TypeExpr.mem_references_of_kept (parameter_of_bound hbind) _ hkept

end Composer

end WidgetSchema
