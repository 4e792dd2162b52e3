/-
Sets of text literals.

A set is the ascending list of its members, and the order is part of the type:
two sets with the same members are then the same list, so equality of
expressions is equality of data, and the written form of a set is its list.
-/
set_option autoImplicit false

namespace WidgetSchema

/-- A finite set of texts, held as its members in ascending order. -/
structure LiteralSet where
  toList : List String
  ascending : toList.Pairwise (· < ·)
deriving DecidableEq

namespace LiteralSet

/-- Puts a text at its place in an ascending list, unless it is there. -/
def place (s : String) : List String → List String
  | [] => [s]
  | t :: ts => if s < t then s :: t :: ts else if s = t then t :: ts else t :: place s ts

@[simp] theorem mem_place {x s : String} {ts : List String} :
    x ∈ place s ts ↔ x = s ∨ x ∈ ts := by
  induction ts with
  | nil => simp [place]
  | cons t ts ih => grind [place]

theorem place_ascending {s : String} {ts : List String} (h : ts.Pairwise (· < ·)) :
    (place s ts).Pairwise (· < ·) := by
  induction ts with
  | nil => simp [place]
  | cons t ts ih =>
    obtain ⟨ht, hts⟩ := List.pairwise_cons.1 h
    simp only [place]
    split
    · next hst =>
      exact List.pairwise_cons.2 ⟨fun x hx => by
        rcases List.mem_cons.1 hx with rfl | hx
        · exact hst
        · exact String.lt_trans hst (ht x hx), h⟩
    · split
      · exact h
      · next hst hne =>
        refine List.pairwise_cons.2 ⟨fun x hx => ?_, ih hts⟩
        rcases mem_place.1 hx with rfl | hx
        · exact Decidable.byContradiction fun hlt =>
            hne (Std.le_antisymm (String.not_lt.1 hlt) (String.not_lt.1 hst))
        · exact ht x hx

/-- The members of an arbitrary list, in ascending order and without
repetitions. -/
def sort : List String → List String
  | [] => []
  | s :: ss => place s (sort ss)

@[simp] theorem mem_sort {x : String} {ss : List String} : x ∈ sort ss ↔ x ∈ ss := by
  induction ss with
  | nil => simp [sort]
  | cons s ss ih => simp [sort, ih]

theorem sort_ascending (ss : List String) : (sort ss).Pairwise (· < ·) := by
  induction ss with
  | nil => simp [sort]
  | cons s ss ih => exact place_ascending ih

/-- The set of the members of a list. -/
def ofList (ss : List String) : LiteralSet := ⟨sort ss, sort_ascending ss⟩

instance : Membership String LiteralSet := ⟨fun s x => x ∈ s.toList⟩

instance (x : String) (s : LiteralSet) : Decidable (x ∈ s) :=
  inferInstanceAs (Decidable (x ∈ s.toList))

/-- **A set is determined by its members.** -/
theorem ext_mem {a b : LiteralSet} (h : ∀ x, x ∈ a ↔ x ∈ b) : a = b := by
  obtain ⟨as, ha⟩ := a
  obtain ⟨bs, hb⟩ := b
  have nodup {l : List String} (hl : l.Pairwise (· < ·)) : l.Nodup := by
    unfold List.Nodup
    refine hl.imp ?_
    intro x y hlt heq
    exact String.lt_irrefl y (heq ▸ hlt)
  have hp : as.Perm bs := (List.perm_ext_iff_of_nodup (nodup ha) (nodup hb)).2 h
  have : as = bs := hp.eq_of_pairwise
    (fun a b _ _ h₁ h₂ => absurd h₂ (String.lt_asymm h₁)) ha hb
  simp only [this]

@[simp] theorem mem_ofList {x : String} {ss : List String} : x ∈ ofList ss ↔ x ∈ ss :=
  mem_sort

end LiteralSet

end WidgetSchema
