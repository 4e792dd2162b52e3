/-
Merging, one field at a time.

Merging runs over members and, inside a member, over its fields; what happens to
one field does not depend on the others. `hold` is the history of a single field:
the offers of the members that have it, in order, each decided against the holder
at that time. `mergeMembers_get?` and `mergeMembers_conflict` say that merging is
exactly these histories side by side, stopped by the first conflict.
-/
import WidgetSchema.Schema.Merging

set_option autoImplicit false

namespace WidgetSchema

/-! ## Offers -/

/-- What a schema offers for a field, if it has it. -/
def ResolvedSchema.offer? (s : ResolvedSchema) (f : String) : Option Contribution :=
  (s.fields.get? f).map fun field => { field, holder := s }

/-- The offers for a field, in the order of the members. -/
def offers (f : String) (members : List ResolvedSchema) : List Contribution :=
  members.filterMap fun s => s.offer? f

@[simp] theorem offers_nil (f : String) : offers f [] = [] := rfl

/-- A member offers its own field of the name, or nothing, before the others. -/
theorem offers_cons (f : String) (s : ResolvedSchema) (members : List ResolvedSchema) :
    offers f (s :: members) = (s.offer? f).toList ++ offers f members := by
  unfold offers
  cases h : s.offer? f <;> simp [h]

@[simp] theorem offers_append (f : String) (as bs : List ResolvedSchema) :
    offers f (as ++ bs) = offers f as ++ offers f bs :=
  List.filterMap_append

/-- What is offered are the fields of that name that members have. -/
theorem mem_offers {f : String} {members : List ResolvedSchema} {x : Contribution} :
    x ∈ offers f members ↔ x.holder ∈ members ∧ x.holder.fields.get? f = some x.field := by
  obtain ⟨field, holder⟩ := x
  simp only [offers, List.mem_filterMap, ResolvedSchema.offer?, Option.map_eq_some_iff,
    Contribution.mk.injEq]
  constructor
  · rintro ⟨s, hs, field', hfield, rfl, rfl⟩
    exact ⟨hs, hfield⟩
  · rintro ⟨hs, hfield⟩
    exact ⟨holder, hs, field, hfield, rfl, rfl⟩

/-! ## The history of one field -/

/-- Who holds a field after further offers, or the first conflict. -/
def hold (f : String) : Option Contribution → List Contribution →
    Except Conflict (Option Contribution)
  | held, [] => .ok held
  | none, x :: rest => hold f (some x) rest
  | some h, x :: rest =>
    match h.decide x.holder x.field with
    | .keep => hold f (some h) rest
    | .replace => hold f (some x) rest
    | .conflict =>
      .error { field := f, first := h.holder, second := x.holder,
               held := h.field.expression, offered := x.field.expression }

/-- A history goes on where its beginning ended. -/
theorem hold_append (f : String) (held : Option Contribution) (as bs : List Contribution) :
    hold f held (as ++ bs) =
      match hold f held as with
      | .error conflict => .error conflict
      | .ok held => hold f held bs := by
  induction as generalizing held with
  | nil => rfl
  | cons x as ih =>
    cases held with
    | none => exact ih (some x)
    | some h =>
      simp only [List.cons_append, hold]
      cases h.decide x.holder x.field with
      | keep => exact ih (some h)
      | replace => exact ih (some x)
      | conflict => rfl

/-- A conflict in the history of a field is about that field. -/
theorem hold_error_field {f : String} {held : Option Contribution} {xs : List Contribution}
    {conflict : Conflict} (h : hold f held xs = .error conflict) : conflict.field = f := by
  induction xs generalizing held with
  | nil => simp [hold] at h
  | cons x xs ih =>
    cases held with
    | none => exact ih h
    | some y =>
      simp only [hold] at h
      split at h
      · exact ih h
      · exact ih h
      · cases h
        rfl

/-! ## One field of one member -/

variable {held held' : OrderedMap Contribution} {s : ResolvedSchema} {name : String}
  {offered : ResolvedField} {conflict : Conflict}

/-- Merging one field of a member is one step of the history of that field, and leaves all
others alone. -/
theorem mergeField_get? (h : mergeField held s name offered = .ok held') :
    hold name (held.get? name) [{ field := offered, holder := s }] = .ok (held'.get? name) ∧
      ∀ f, f ≠ name → held'.get? f = held.get? f := by
  unfold mergeField at h
  cases hname : held.get? name with
  | none =>
    simp only [hname, Except.ok.injEq] at h
    subst h
    refine ⟨by simp [hold], fun f hf => by simp [hf]⟩
  | some c =>
    simp only [hname] at h
    split at h
    · next hdecide =>
      cases h
      refine ⟨by simp [hold, hdecide, hname], fun f _ => rfl⟩
    · next hdecide =>
      cases h
      refine ⟨by simp [hold, hdecide], fun f hf => by simp [hf]⟩
    · cases h

/-- A conflict is one in the history of that field. -/
theorem mergeField_conflict (h : mergeField held s name offered = .error conflict) :
    hold name (held.get? name) [{ field := offered, holder := s }] = .error conflict := by
  unfold mergeField at h
  cases hname : held.get? name with
  | none =>
    rw [hname] at h
    cases h
  | some c =>
    simp only [hname] at h
    split at h
    · cases h
    · cases h
    · next hdecide =>
      simpa [hold, hdecide] using h

/-! ## The fields of one member -/

/-- The fields of a member are merged in their order. -/
theorem mergeFields_cons (rest : List (String × ResolvedField)) :
    mergeFields s ((name, offered) :: rest) held =
      match mergeField held s name offered with
      | .error conflict => .error conflict
      | .ok held => mergeFields s rest held := by
  rw [mergeFields]
  cases mergeField held s name offered <;> rfl

/-- The offer that an entry of a list of fields makes. -/
def entryOffer? (s : ResolvedSchema) (entries : List (String × ResolvedField)) (f : String) :
    Option Contribution :=
  (entries.lookup f).map fun field => { field, holder := s }

/-- A member offers what its first entry of the name says. -/
theorem entryOffer?_self (rest : List (String × ResolvedField)) :
    entryOffer? s ((name, offered) :: rest) name = some { field := offered, holder := s } := by
  simp [entryOffer?]

/-- Entries of other names are passed over. -/
theorem entryOffer?_of_ne {f : String} (hf : f ≠ name) (rest : List (String × ResolvedField)) :
    entryOffer? s ((name, offered) :: rest) f = entryOffer? s rest f := by
  have hbeq : (f == name) = false := by simp [hf]
  simp [entryOffer?, List.lookup_cons, hbeq]

/-- A name without an entry is not offered. -/
theorem entryOffer?_of_not_mem {entries : List (String × ResolvedField)}
    (h : name ∉ entries.map Prod.fst) : entryOffer? s entries name = none := by
  have hnone : entries.lookup name = none := by
    rw [← Option.not_isSome_iff_eq_none, OrderedMap.lookup_isSome]
    exact h
  simp [entryOffer?, hnone]

/-- Merging the fields of a member decides its offer for every field. No key
stands in the entries twice, so a decided field is not touched again. -/
theorem mergeFields_get? {entries : List (String × ResolvedField)}
    (hnodup : (entries.map Prod.fst).Nodup) (h : mergeFields s entries held = .ok held')
    (f : String) : hold f (held.get? f) (entryOffer? s entries f).toList = .ok (held'.get? f) := by
  induction entries generalizing held with
  | nil =>
    cases h
    rfl
  | cons e rest ih =>
    obtain ⟨name, offered⟩ := e
    rw [mergeFields_cons] at h
    obtain ⟨hname, hrest⟩ := List.nodup_cons.1 hnodup
    -- one entry is decided now, and the others from what is held then
    cases hfield : mergeField held s name offered with
    | error conflict =>
      rw [hfield] at h
      cases h
    | ok held₁ =>
      rw [hfield] at h
      obtain ⟨hself, hothers⟩ := mergeField_get? hfield
      have hlater := ih hrest h
      by_cases hf : f = name
      · -- the rest of the entries has no offer for this name
        subst hf
        rw [entryOffer?_of_not_mem hname] at hlater
        rw [entryOffer?_self, Option.toList_some, hself]
        exact hlater
      · rw [entryOffer?_of_ne hf, ← hothers f hf]
        exact hlater

/-- A conflict between members is one in the history of the field that it names, at the step where
that member offers it. -/
theorem mergeFields_conflict {entries : List (String × ResolvedField)}
    (hnodup : (entries.map Prod.fst).Nodup) (h : mergeFields s entries held = .error conflict) :
    hold conflict.field (held.get? conflict.field)
      (entryOffer? s entries conflict.field).toList = .error conflict := by
  induction entries generalizing held with
  | nil => cases h
  | cons e rest ih =>
    obtain ⟨name, offered⟩ := e
    rw [mergeFields_cons] at h
    obtain ⟨hname, hrest⟩ := List.nodup_cons.1 hnodup
    cases hfield : mergeField held s name offered with
    | error conflict' =>
      rw [hfield] at h
      cases h
      have hself := mergeField_conflict hfield
      rw [hold_error_field hself, entryOffer?_self]
      exact hself
    | ok held₁ =>
      rw [hfield] at h
      obtain ⟨-, hothers⟩ := mergeField_get? hfield
      have hlater := ih hrest h
      -- a later conflict is about a later name
      have hf : conflict.field ≠ name := by
        intro hf
        rw [hf, entryOffer?_of_not_mem hname] at hlater
        cases hlater
      rw [entryOffer?_of_ne hf, ← hothers _ hf]
      exact hlater

/-! ## Members -/

/-- **One member is one step in the history of every field.** -/
theorem mergeMember_get? (h : mergeMember held s = .ok held') (f : String) :
    hold f (held.get? f) (s.offer? f).toList = .ok (held'.get? f) :=
  mergeFields_get? s.fields.nodup_keys h f

/-- And a conflict is one in the history of the field that it names. -/
theorem mergeMember_conflict (h : mergeMember held s = .error conflict) :
    hold conflict.field (held.get? conflict.field) (s.offer? conflict.field).toList =
      .error conflict :=
  mergeFields_conflict s.fields.nodup_keys h

/-- The members are merged in their order. -/
theorem mergeMembers_cons (s : ResolvedSchema) (rest : List ResolvedSchema)
    (held : OrderedMap Contribution) :
    mergeMembers (s :: rest) held =
      match mergeMember held s with
      | .error conflict => .error conflict
      | .ok held => mergeMembers rest held := by
  rw [mergeMembers]
  cases mergeMember held s <;> rfl

/-- **Merged members: each field has gone through its own history.** -/
theorem mergeMembers_get? {members : List ResolvedSchema}
    (h : mergeMembers members held = .ok held') (f : String) :
    hold f (held.get? f) (offers f members) = .ok (held'.get? f) := by
  induction members generalizing held with
  | nil =>
    cases h
    rfl
  | cons s rest ih =>
    rw [mergeMembers_cons] at h
    cases hs : mergeMember held s with
    | error conflict =>
      rw [hs] at h
      cases h
    | ok held₁ =>
      rw [hs] at h
      rw [offers_cons, hold_append, mergeMember_get? hs f]
      exact ih h

/-- **A conflict between members is the conflict of its field's history.** -/
theorem mergeMembers_conflict {members : List ResolvedSchema}
    (h : mergeMembers members held = .error conflict) :
    hold conflict.field (held.get? conflict.field) (offers conflict.field members) =
      .error conflict := by
  induction members generalizing held with
  | nil => cases h
  | cons s rest ih =>
    rw [mergeMembers_cons] at h
    rw [offers_cons, hold_append]
    cases hs : mergeMember held s with
    | error conflict' =>
      rw [hs] at h
      cases h
      rw [mergeMember_conflict hs]
    | ok held₁ =>
      rw [hs] at h
      rw [mergeMember_get? hs conflict.field]
      exact ih h

end WidgetSchema
