/-
Clashes that are reported and clashes that are missed.

Two members clash on a field if they declare different types for it and neither
descends from the other. A merge compares a member with the holder only, never
with all members before it, so a clash need not be noticed: it is missed if each
of the two is covered by some holder. `CoveringLine` turns that into a condition
on the members alone. If no line of overriding members covers all offers for the
field, every order of the members conflicts; if one does, some order merges. A
line that covers two members that clash has a third one in it, so in a
composition in which nobody else has the field a clash is always reported.
-/
import WidgetSchema.Proofs.Lineage
import WidgetSchema.Proofs.MemoDerivation
import WidgetSchema.Proofs.OverridingLines

set_option autoImplicit false

namespace WidgetSchema

/-- **Two members that clash are covered by a third one only.** -/
theorem CoveringLine.third {pool line : List Contribution} {x y : Contribution}
    (h : CoveringLine pool line) (hx : x ∈ pool) (hy : y ∈ pool) (hxy : x.Clashes y) :
    ∃ g ∈ line, g ≠ x ∧ g ≠ y := by
  by_contra hnone
  have htwo : ∀ g ∈ line, g = x ∨ g = y := by
    intro g hg
    by_contra hother
    rw [not_or] at hother
    exact hnone ⟨g, hg, hother⟩
  have hyx : y.Clashes x := Contribution.clashes_symm hxy
  obtain ⟨gx, hgx, hcx⟩ := h.covers x hx
  obtain ⟨gy, hgy, hcy⟩ := h.covers y hy
  -- neither covers the other, so both stand on the line
  have hgxx : gx = x := by
    refine (htwo gx hgx).resolve_right ?_
    rintro rfl
    rw [Contribution.Clashes, hcx] at hyx
    cases hyx
  have hgyy : gy = y := by
    refine (htwo gy hgy).resolve_left ?_
    rintro rfl
    rw [Contribution.Clashes, hcy] at hxy
    cases hxy
  rw [hgxx] at hgx
  rw [hgyy] at hgy
  have hne : x.field.expression ≠ y.field.expression := (Contribution.clashes_iff.1 hxy).1
  -- the first step of the line leads from one of the two to one of the two
  obtain ⟨-, hchain, -⟩ := h
  cases line with
  | nil => cases hgx
  | cons a rest =>
    cases rest with
    | nil =>
      rw [List.mem_singleton.1 hgx, List.mem_singleton.1 hgy] at hne
      exact hne rfl
    | cons b rest =>
      have hab : a.YieldsTo b := (List.isChain_cons_cons.1 hchain).1
      have hdiffer : a.field.expression ≠ b.field.expression :=
        (Contribution.yieldsTo_iff.1 hab).1
      rcases htwo a (by simp) with rfl | rfl <;> rcases htwo b (by simp) with rfl | rfl
      · exact hdiffer rfl
      · rw [Contribution.Clashes, hab] at hxy
        cases hxy
      · rw [Contribution.Clashes, hab] at hyx
        cases hyx
      · exact hdiffer rfl

namespace Composer

variable {c : Composer} {memo : Memo} {i : Instantiation} {p : Plan} {f : String}
  {parents : List ResolvedSchema} {x y : Contribution}

/-- **Which clashes are reported.** A composition of two members that clash ends
in a conflict, unless a line of its members covers every offer for the field, one
that has a third member in it; and there is such a line exactly if some order of
the members has no conflict on the field. -/
theorem clash_reported (hm : memo.DerivedBy c) (hp : c.plan i = .ok p)
    (hparents : c.DerivesEach p.members parents) (hx : x ∈ offers f parents)
    (hy : y ∈ offers f parents) (hxy : x.Clashes y) :
    (StoppedByDepth ((c.resolveStruct i).run memo).outcome ∨
      (∃ conflict : Conflict,
        ((c.resolveStruct i).run memo).outcome = .error conflict.toSchemaError) ∨
      ∃ line, CoveringLine (offers f parents) line ∧ ∃ g ∈ line, g ≠ x ∧ g ≠ y) ∧
    ((∃ line, CoveringLine (offers f parents) line ∧ ∃ g ∈ line, g ≠ x ∧ g ≠ y) ↔
      ∃ order, order.Perm parents ∧ ∃ last, hold f none (offers f order) = .ok (some last)) := by
  have hne : offers f parents ≠ [] := List.ne_nil_of_mem hx
  constructor
  · rcases resolveStruct_of_plan hm hp hparents with hstop | hcombine
    · exact .inl hstop
    · rw [hcombine]
      cases hresult : p.combine parents with
      | error conflict => exact .inr (.inl ⟨conflict, rfl⟩)
      | ok s =>
        obtain ⟨line, last, hline, -, -⟩ := Plan.combine_line hresult hne
        exact .inr (.inr ⟨line, hline, hline.third hx hy hxy⟩)
  · constructor
    · -- each member is put behind the one on the line that keeps it back
      rintro ⟨line, hline, g, hg, -⟩
      obtain ⟨last, hlast⟩ := Option.isSome_iff_exists.1
        (List.getLast?_isSome.2 (List.ne_nil_of_mem hg))
      obtain ⟨order, hperm, hok⟩ := members_hold_iff_line.2 ⟨line, hline, hlast⟩
      exact ⟨order, hperm, last, hok⟩
    · rintro ⟨order, hperm, last, hok⟩
      obtain ⟨line, hline, -⟩ := members_hold_iff_line.1 ⟨order, hperm, hok⟩
      exact ⟨line, hline, hline.third hx hy hxy⟩

/-- Two peers that clash, alone and with a subtype of one of their like. -/
def clashingPeers : Composer :=
  .ofPlainTypes
    [("A", [], [("x", "number")]),
     ("B", [], [("x", "number")]),
     ("C", ["A"], [("x", "string")]),
     ("N", ["B", "C"], []),
     ("K", ["A", "B", "C"], [])]

/-- Two members that clash and are alone are reported. -/
theorem lone_clash_reported :
    ∃ B C : ResolvedSchema, (plainOffer "number" B).Clashes (plainOffer "string" C) ∧
      offers "x" [B, C] = [plainOffer "number" B, plainOffer "string" C] ∧
      ∃ conflict : Conflict, ((clashingPeers.resolveStruct ⟨"N", []⟩).run .empty).outcome =
        .error conflict.toSchemaError := by
  let B := clashingPeers.plainSchema "B" (by decide)
  let C := clashingPeers.plainSchema "C" (by decide)
  have hparents : clashingPeers.DerivesEach (sumPlan "N" ["B", "C"]).members [B, C] :=
    derivesEach_pair (derives_plainSchema _) (derives_plainSchema _)
  have hp : clashingPeers.plan ⟨"N", []⟩ = .ok (sumPlan "N" ["B", "C"]) := rfl
  have hclash : (plainOffer "number" B).Clashes (plainOffer "string" C) := by decide
  have hoffers : offers "x" [B, C] = [plainOffer "number" B, plainOffer "string" C] := by decide
  refine ⟨B, C, hclash, hoffers, ?_⟩
  rcases (clash_reported (f := "x") (Memo.empty_derivedBy clashingPeers) hp hparents
    (by rw [hoffers]; simp) (by rw [hoffers]; simp) hclash).1 with
    ⟨name, bound, hstop⟩ | hconflict | ⟨line, hline, g, hg, hgB, hgC⟩
  · -- two compositions inside each other are far below the bound
    have hnot : ((clashingPeers.resolveStruct ⟨"N", []⟩).run .empty).outcome =
        .error (.compositionConflict "x" "B" "C" (some "number vs string")) := by decide
    rw [hnot] at hstop
    cases hstop
  · exact hconflict
  · have hmem := hline.within.subset hg
    rw [hoffers] at hmem
    rcases List.mem_cons.1 hmem with h | h
    · exact absurd h hgB
    · exact absurd (List.mem_singleton.1 h) hgC

/-- A clash that a third member covers is missed: the second member agrees with
the first and is forgotten, and the third overrides the first alone. -/
theorem clash_missed :
    ∃ A B C s : ResolvedSchema,
      clashingPeers.plan ⟨"K", []⟩ = .ok (sumPlan "K" ["A", "B", "C"]) ∧
      clashingPeers.DerivesEach (sumPlan "K" ["A", "B", "C"]).members [A, B, C] ∧
      offers "x" [A, B, C] =
        [plainOffer "number" A, plainOffer "number" B, plainOffer "string" C] ∧
      B.label ∉ C.lineage ∧ C.label ∉ B.lineage ∧
      ((clashingPeers.resolveStruct ⟨"K", []⟩).run .empty).outcome = .ok s := by
  refine ⟨clashingPeers.plainSchema "A" (by decide), clashingPeers.plainSchema "B" (by decide),
    clashingPeers.plainSchema "C" (by decide), clashingPeers.plainSchema "K" (by decide),
    rfl, ?_, by decide, by decide, by decide, by decide⟩
  exact derivesEach_triple (derives_plainSchema _) (derives_plainSchema _) (derives_plainSchema _)

end Composer

end WidgetSchema
