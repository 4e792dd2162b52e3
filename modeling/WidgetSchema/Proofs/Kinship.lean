/-
Offers of schemas that share no labels.

The three decisions of a merge are written with labels. Among derived schemas
none of which shares its label, a `Family`, they come down to two questions: do
the two agree, and which of them descends from the other. Descent is transitive
there and goes one way only, and a descendant has every field of its ancestor.
-/
import WidgetSchema.Proofs.Lineage
import WidgetSchema.Proofs.OverridingLines

set_option autoImplicit false

namespace WidgetSchema

/-- Derived schemas, none of which shares its label with another derived one. -/
def Composer.Family (c : Composer) (ss : List ResolvedSchema) : Prop :=
  ∀ s ∈ ss, (∃ i, c.Derives i s) ∧ c.OwnsLabel s

/-- The holder of the second offer descends from the holder of the first. -/
def Contribution.Below (x y : Contribution) : Prop := x.holder.label ∈ y.holder.lineage

namespace Composer.Family

variable {c : Composer} {ss : List ResolvedSchema} {f : String} {x y z : Contribution}
  {s t : ResolvedSchema}

theorem eq_of_label (hfam : c.Family ss) (hs : s ∈ ss) (ht : t ∈ ss) (h : s.label = t.label) :
    s = t := by
  obtain ⟨i, hi⟩ := (hfam s hs).1
  exact (hfam t ht).2 i s hi h

/-- A schema offers one field of a name at most. -/
theorem eq_of_holder (hx : x ∈ offers f ss) (hy : y ∈ offers f ss) (h : x.holder = y.holder) :
    x = y := by
  obtain ⟨-, hxfield⟩ := mem_offers.1 hx
  obtain ⟨-, hyfield⟩ := mem_offers.1 hy
  have hfield : some x.field = some y.field := by rw [← hxfield, ← hyfield, h]
  calc x = ⟨x.field, x.holder⟩ := rfl
    _ = ⟨y.field, y.holder⟩ := by rw [Option.some.inj hfield, h]
    _ = y := rfl

theorem extends_of_mem (hfam : c.Family ss) (hs : s ∈ ss) (ht : t ∈ ss)
    (h : s.label ∈ t.lineage) : t.Extends s := by
  obtain ⟨i, hi⟩ := (hfam t ht).1
  exact extends_of_mem_lineage hi (hfam s hs).2 h

theorem below_trans (hfam : c.Family ss) (hy : y ∈ offers f ss) (hz : z ∈ offers f ss)
    (hxy : x.Below y) (hyz : y.Below z) : x.Below z :=
  (hfam.extends_of_mem (mem_offers.1 hy).1 (mem_offers.1 hz).1 hyz).lineage _ hxy

theorem below_antisymm (hfam : c.Family ss) (hx : x ∈ offers f ss) (hy : y ∈ offers f ss)
    (hxy : x.Below y) (hyx : y.Below x) : x = y := by
  have hxs := (mem_offers.1 hx).1
  have hys := (mem_offers.1 hy).1
  obtain ⟨i, hi⟩ := (hfam _ hxs).1
  exact eq_of_holder hx hy (lineage_antisymm hi (hfam _ hxs).2 (hfam _ hys).2 hxy hyx)

/-- A descendant of a schema that offers a field offers it too. -/
theorem exists_offer (hfam : c.Family ss) (hx : x ∈ offers f ss) (ht : t ∈ ss)
    (h : x.holder.label ∈ t.lineage) : ∃ y, t.offer? f = some y := by
  obtain ⟨hxs, hxfield⟩ := mem_offers.1 hx
  have hsome := (hfam.extends_of_mem hxs ht h).fields f (by rw [hxfield]; rfl)
  obtain ⟨field, hfield⟩ := Option.isSome_iff_exists.1 hsome
  exact ⟨{ field, holder := t }, by rw [ResolvedSchema.offer?, hfield]; rfl⟩

/-- An offer stays if the other agrees or comes from an ancestor. -/
theorem covers_iff (hfam : c.Family ss) (hx : x ∈ offers f ss) (hy : y ∈ offers f ss) :
    x.Covers y ↔ x.field.expression = y.field.expression ∨ y.Below x := by
  rw [Contribution.covers_iff]
  constructor
  · rintro (he | ⟨-, hbelow⟩)
    · exact .inl he
    · exact .inr hbelow
  · rintro (he | hbelow)
    · exact .inl he
    · by_cases hl : x.holder.label = y.holder.label
      · have hholder := hfam.eq_of_label (mem_offers.1 hx).1 (mem_offers.1 hy).1 hl
        rw [eq_of_holder hx hy hholder]
        exact .inl rfl
      · exact .inr ⟨hl, hbelow⟩

/-- An offer gives way if the other differs and comes from a descendant. -/
theorem yieldsTo_iff (hfam : c.Family ss) (hx : x ∈ offers f ss) (hy : y ∈ offers f ss) :
    x.YieldsTo y ↔ x.field.expression ≠ y.field.expression ∧ x.Below y := by
  rw [Contribution.yieldsTo_iff]
  constructor
  · rintro ⟨hne, -, -, hbelow⟩
    exact ⟨hne, hbelow⟩
  · rintro ⟨hne, hbelow⟩
    -- one label, or descent both ways, would make the two one offer
    refine ⟨hne, fun hl => ?_, fun habove => ?_, hbelow⟩
    · have hholder := hfam.eq_of_label (mem_offers.1 hx).1 (mem_offers.1 hy).1 hl
      rw [eq_of_holder hx hy hholder] at hne
      exact hne rfl
    · rw [hfam.below_antisymm hx hy hbelow habove] at hne
      exact hne rfl

end Composer.Family

/-! ## Two offers -/

variable {f : String} {h x y : Contribution}

/-- Who holds a field that two may offer: the first, if it covers the second, or
the second, if the first gives way. -/
theorem hold_pair_cases {first second : Option Contribution}
    (hok : hold f none (first.toList ++ second.toList) = .ok (some h)) :
    (first = some h ∧ ∀ y, second = some y → h.Covers y) ∨
      (second = some h ∧ ∀ x, first = some x → x.YieldsTo h) := by
  cases first with
  | none =>
    cases second with
    | none => cases hok
    | some y =>
      cases hok
      exact .inr ⟨rfl, by rintro x ⟨⟩⟩
  | some x =>
    cases second with
    | none =>
      cases hok
      exact .inl ⟨rfl, by rintro y ⟨⟩⟩
    | some y =>
      have hpair : hold f (some x) [y] = .ok (some h) := hok
      -- both offer: the decision between the two says who holds
      cases hdecide : x.decide y.holder y.field with
      | keep =>
        rw [hold_cons_of_covers hdecide] at hpair
        cases hpair
        exact .inl ⟨rfl, by rintro _ ⟨⟩; exact hdecide⟩
      | replace =>
        rw [hold_cons_of_yieldsTo hdecide] at hpair
        cases hpair
        exact .inr ⟨rfl, by rintro _ ⟨⟩; exact hdecide⟩
      | conflict =>
        rw [hold, hdecide] at hpair
        cases hpair

/-- The merged field after a history, or nothing after a conflict. -/
def mergedField? (result : Except Conflict (Option Contribution)) : Option (Option ResolvedField) :=
  result.toOption.map fun held => held.map Contribution.field

/-- Offers of the same fields that are decided alike give the same field. -/
theorem mergedField?_congr {h' y' : Contribution} (hfield : h.field = h'.field)
    (hyfield : y.field = y'.field) (hcovers : h.Covers y ↔ h'.Covers y')
    (hyields : h.YieldsTo y ↔ h'.YieldsTo y') :
    mergedField? (hold f (some h) [y]) = mergedField? (hold f (some h') [y']) := by
  unfold Contribution.Covers at hcovers
  unfold Contribution.YieldsTo at hyields
  unfold mergedField?
  cases hd : h.decide y.holder y.field <;> cases hd' : h'.decide y'.holder y'.field <;>
    simp_all [hold, Except.toOption]

end WidgetSchema
