/-
What a plan combines, field by field.

`Plan.combine` merges the members and lays the own fields on top. The merged
part is a history for each field (`hold`), and laying changes a field exactly
where the type declares it itself. Put together, a combined schema has the
fields that it declares and those that a member has, and its lineage is its own
label with the lineages of the members.
-/
import WidgetSchema.Proofs.Derivation
import WidgetSchema.Proofs.HeldFields

set_option autoImplicit false

namespace WidgetSchema

/-! ## Whether a field is held -/

/-- A field is held after a history if it was held before or someone offers it. -/
theorem hold_isSome {f : String} {held result : Option Contribution} {xs : List Contribution}
    (h : hold f held xs = .ok result) : result.isSome ↔ held.isSome ∨ xs ≠ [] := by
  induction xs generalizing held with
  | nil =>
    cases h
    simp
  | cons x xs ih =>
    cases held with
    | none =>
      have hlater := ih h
      simpa using hlater
    | some y =>
      simp only [hold] at h
      split at h
      · simpa using ih h
      · simpa using ih h
      · cases h

theorem offers_ne_nil {f : String} {members : List ResolvedSchema} :
    offers f members ≠ [] ↔ ∃ m ∈ members, (m.fields.get? f).isSome := by
  constructor
  · intro h
    obtain ⟨x, hx⟩ := List.exists_mem_of_ne_nil _ h
    obtain ⟨hmem, hfield⟩ := mem_offers.1 hx
    exact ⟨x.holder, hmem, by rw [hfield]; rfl⟩
  · rintro ⟨m, hm, hsome⟩ hnil
    obtain ⟨field, hfield⟩ := Option.isSome_iff_exists.1 hsome
    have hx : ({ field, holder := m } : Contribution) ∈ offers f members :=
      mem_offers.2 ⟨hm, hfield⟩
    rw [hnil] at hx
    cases hx

/-! ## Own fields -/

/-- The field that a declaration gives a type. -/
def ownField (origin : String) (bindings : Bindings) (d : FieldDef) : ResolvedField :=
  { expression := d.expression.substitute bindings, tags := d.tags, origin }

/-- Laid fields hide inherited ones of the same name and no others. -/
theorem get?_layFields {origin : String} {bindings : Bindings} {own : List (String × FieldDef)}
    (hnodup : (own.map Prod.fst).Nodup) (inherited : OrderedMap ResolvedField) (f : String) :
    (layFields origin bindings own inherited).get? f =
      match own.lookup f with
      | some d => some (ownField origin bindings d)
      | none => inherited.get? f := by
  induction own generalizing inherited with
  | nil => rfl
  | cons e rest ih =>
    obtain ⟨name, d⟩ := e
    obtain ⟨hname, hrest⟩ := List.nodup_cons.1 hnodup
    rw [layFields, ih hrest]
    by_cases hf : f = name
    · -- the rest does not declare the name again
      subst hf
      have hnone : rest.lookup f = none := by
        rw [← Option.not_isSome_iff_eq_none, OrderedMap.lookup_isSome]
        exact hname
      simp [hnone, ownField]
    · have hbeq : (f == name) = false := by simp [hf]
      simp [List.lookup_cons, hbeq, hf]

/-! ## Combined schemas -/

namespace Plan

variable {p : Plan} {parents : List ResolvedSchema} {s : ResolvedSchema} {f : String}

theorem combine_label (h : p.combine parents = .ok s) : s.label = p.key.label := by
  obtain ⟨held, -, rfl⟩ := combine_eq_ok.1 h
  rfl

/-- **The lineage of a combined schema**: its label and its members' lineages. -/
theorem mem_lineage (h : p.combine parents = .ok s) {label : String} :
    label ∈ s.lineage ↔ label = s.label ∨ ∃ m ∈ parents, label ∈ m.lineage := by
  rw [combine_label h]
  obtain ⟨held, -, rfl⟩ := combine_eq_ok.1 h
  unfold assemble
  rw [LiteralSet.mem_ofList, List.mem_cons, List.mem_flatMap]
  exact Iff.rfl

/-- **The fields of a combined schema**: those it declares, and else what the
history of the members' offers ends in. -/
theorem combine_get? (h : p.combine parents = .ok s) (f : String) :
    ∃ held, hold f none (offers f parents) = .ok held ∧
      s.fields.get? f =
        match p.parts.fields.get? f with
        | some d => some (ownField p.key.name p.bindings d)
        | none => held.map Contribution.field := by
  obtain ⟨held, hmerge, rfl⟩ := combine_eq_ok.1 h
  refine ⟨held.get? f, mergeMembers_get? hmerge f, ?_⟩
  unfold assemble
  rw [get?_layFields p.parts.fields.nodup_keys, OrderedMap.get?_mapValues]
  rfl

/-- A conflict in combining is the conflict of one field's history. -/
theorem combine_error {conflict : Conflict} (h : p.combine parents = .error conflict) :
    hold conflict.field none (offers conflict.field parents) = .error conflict := by
  unfold combine at h
  cases hmerge : mergeMembers parents .empty with
  | error conflict' =>
    rw [hmerge] at h
    cases h
    exact mergeMembers_conflict hmerge
  | ok held =>
    rw [hmerge] at h
    cases h

/-- **No field is lost and none appears**: a combined schema has a field exactly
if it declares it or a member has it. -/
theorem combine_isSome (h : p.combine parents = .ok s) :
    (s.fields.get? f).isSome ↔
      (p.parts.fields.get? f).isSome ∨ ∃ m ∈ parents, (m.fields.get? f).isSome := by
  obtain ⟨held, hheld, hget⟩ := combine_get? h f
  have hsome := hold_isSome hheld
  rw [offers_ne_nil] at hsome
  rw [hget]
  -- an own field hides what the members have, so only the other case asks for them
  cases p.parts.fields.get? f with
  | some d => simp
  | none => simpa using hsome

end Plan

end WidgetSchema
