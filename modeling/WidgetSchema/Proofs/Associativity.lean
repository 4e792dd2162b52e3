/-
When composition is associative.

Two compositions that declare nothing end alike if every field has the same
history in both, up to who holds it, and the members' names come in the same
order: both succeed with one field table, or both conflict (`combine_alike`). The
fields of `A+B+C`, `AB+C` and `A+BC` have the same histories where grouping makes
no difference to them, and the order of names never depends on the grouping.
-/
import WidgetSchema.Proofs.MemberGroups

set_option autoImplicit false

namespace WidgetSchema

/-! ## Compositions that end alike -/

section
variable {p q : Plan} {ps qs : List ResolvedSchema}

theorem mergedField?_eq_none {result : Except Conflict (Option Contribution)} :
    mergedField? result = none ↔ ∃ conflict, result = .error conflict := by
  unfold mergedField?
  cases result <;> simp [Except.toOption]

/-- Members combine exactly if no field conflicts. -/
theorem Plan.combine_isOk : (∃ s, p.combine ps = .ok s) ↔
    ∀ f, ∃ held, hold f none (offers f ps) = .ok held := by
  rw [← mergeMembers_isOk]
  constructor
  · rintro ⟨s, hs⟩
    obtain ⟨held, hheld, -⟩ := Plan.combine_eq_ok.1 hs
    exact ⟨held, hheld⟩
  · rintro ⟨held, hheld⟩
    exact ⟨_, Plan.combine_eq_ok.2 ⟨held, hheld, rfl⟩⟩

theorem combine_isOk_of_alike
    (halike : ∀ f, mergedField? (hold f none (offers f ps)) =
      mergedField? (hold f none (offers f qs)))
    (h : ∃ s, p.combine ps = .ok s) : ∃ t, q.combine qs = .ok t := by
  rw [Plan.combine_isOk] at h ⊢
  intro f
  obtain ⟨held, hheld⟩ := h f
  cases hq : hold f none (offers f qs) with
  | ok held' => exact ⟨held', rfl⟩
  | error conflict =>
    have hnone : mergedField? (hold f none (offers f qs)) = none :=
      mergedField?_eq_none.2 ⟨conflict, hq⟩
    rw [← halike f, hheld] at hnone
    obtain ⟨conflict', hconflict⟩ := mergedField?_eq_none.1 hnone
    cases hconflict

/-- **Compositions whose fields have the same histories end alike.** -/
theorem combine_alike (hp : p.parts.fields = .empty) (hq : q.parts.fields = .empty)
    (halike : ∀ f, mergedField? (hold f none (offers f ps)) =
      mergedField? (hold f none (offers f qs)))
    (hkeys : ps.foldl (fun names m => appendNew names m.fields.keys) [] =
      qs.foldl (fun names m => appendNew names m.fields.keys) []) :
    (∃ s t, p.combine ps = .ok s ∧ q.combine qs = .ok t ∧ s.fields = t.fields) ∨
      ∃ x y, p.combine ps = .error x ∧ q.combine qs = .error y := by
  cases hs : p.combine ps with
  | ok s =>
    obtain ⟨t, ht⟩ := combine_isOk_of_alike (q := q) halike ⟨s, hs⟩
    refine .inl ⟨s, t, rfl, ht, OrderedMap.ext_get? ?_ fun f => ?_⟩
    · rw [Plan.combine_keys hs hp, Plan.combine_keys ht hq, hkeys]
    · obtain ⟨held, hheld, hget⟩ := Plan.combine_get? hs f
      obtain ⟨held', hheld', hget'⟩ := Plan.combine_get? ht f
      have hsame := halike f
      rw [hheld, hheld'] at hsame
      rw [hget, hget', hp, hq]
      exact Option.some.inj hsame
  | error x =>
    cases ht : q.combine qs with
    | ok t =>
      obtain ⟨s, hok⟩ := combine_isOk_of_alike (p := q) (q := p) (fun f => (halike f).symm)
        ⟨t, ht⟩
      rw [hs] at hok
      cases hok
    | error y => exact .inr ⟨x, y, rfl, rfl⟩

end

/-! ## Three groupings -/

namespace Composer

variable {c : Composer} {A B C AB BC : ResolvedSchema} {iAB iBC iFlat iLeft iRight : Instantiation}
  {memo₁ memo₂ memo₃ : Memo}

theorem Sums.groups (hAB : c.Sums iAB [A, B]) (hBC : c.Sums iBC [B, C])
    (hdAB : c.Derives iAB AB) (hdBC : c.Derives iBC BC)
    (hown : ∀ s ∈ [A, B, C, AB, BC], c.OwnsLabel s) : c.Groups A B C AB BC where
  left := hAB.isSum hdAB
  right := hBC.isSum hdBC
  family := by
    intro s hs
    refine ⟨?_, hown s hs⟩
    obtain ⟨p, -, -, hpAB⟩ := hAB
    obtain ⟨q, -, -, hqBC⟩ := hBC
    simp only [List.mem_cons, List.not_mem_nil, or_false] at hs
    rcases hs with rfl | rfl | rfl | rfl | rfl
    · exact hpAB.mem (by simp)
    · exact hpAB.mem (by simp)
    · exact hqBC.mem (by simp)
    · exact ⟨iAB, hdAB⟩
    · exact ⟨iBC, hdBC⟩

/-- **Grouping makes no difference** where it makes none to any field. Whenever no
bound on the nesting stops one of them, the three compositions all succeed with
one field table, or all end in a conflict. -/
theorem grouping_makes_no_difference (hAB : c.Sums iAB [A, B]) (hBC : c.Sums iBC [B, C])
    (hdAB : c.Derives iAB AB) (hdBC : c.Derives iBC BC)
    (hown : ∀ s ∈ [A, B, C, AB, BC], c.OwnsLabel s) (hreg : ∀ f, Regroups f A B C AB BC)
    (hFlat : c.Sums iFlat [A, B, C]) (hLeft : c.Sums iLeft [AB, C])
    (hRight : c.Sums iRight [A, BC]) (hm₁ : memo₁.DerivedBy c) (hm₂ : memo₂.DerivedBy c)
    (hm₃ : memo₃.DerivedBy c) :
    (StoppedByDepth ((c.resolveStruct iFlat).run memo₁).outcome ∨
      StoppedByDepth ((c.resolveStruct iLeft).run memo₂).outcome ∨
      StoppedByDepth ((c.resolveStruct iRight).run memo₃).outcome) ∨
    (∃ s t u, ((c.resolveStruct iFlat).run memo₁).outcome = .ok s ∧
      ((c.resolveStruct iLeft).run memo₂).outcome = .ok t ∧
      ((c.resolveStruct iRight).run memo₃).outcome = .ok u ∧
      s.fields = t.fields ∧ s.fields = u.fields) ∨
    ∃ x y z : Conflict,
      ((c.resolveStruct iFlat).run memo₁).outcome = .error x.toSchemaError ∧
      ((c.resolveStruct iLeft).run memo₂).outcome = .error y.toSchemaError ∧
      ((c.resolveStruct iRight).run memo₃).outcome = .error z.toSchemaError := by
  have hg := hAB.groups hBC hdAB hdBC hown
  -- the names of the fields come in one order, however the members are grouped
  have hkeysLeft : [A, B, C].foldl (fun names m => appendNew names m.fields.keys) [] =
      [AB, C].foldl (fun names m => appendNew names m.fields.keys) [] := by
    simp only [List.foldl_cons, List.foldl_nil, hg.left.keys, appendNew_nil]
  have hkeysRight : [A, B, C].foldl (fun names m => appendNew names m.fields.keys) [] =
      [A, BC].foldl (fun names m => appendNew names m.fields.keys) [] := by
    simp only [List.foldl_cons, List.foldl_nil, hg.right.keys, appendNew_nil, appendNew_assoc]
  obtain ⟨p, hp, hpown, hpmembers⟩ := hFlat
  obtain ⟨q, hq, hqown, hqmembers⟩ := hLeft
  obtain ⟨r, hr, hrown, hrmembers⟩ := hRight
  -- each of the three may be stopped by the bound
  rcases resolveStruct_of_plan hm₁ hp hpmembers with hstop | hflat
  · exact .inl (.inl hstop)
  rcases resolveStruct_of_plan hm₂ hq hqmembers with hstop | hleft
  · exact .inl (.inr (.inl hstop))
  rcases resolveStruct_of_plan hm₃ hr hrmembers with hstop | hright
  · exact .inl (.inr (.inr hstop))
  refine .inr ?_
  -- the flat composition is compared with either group
  have halikeLeft := combine_alike hpown hqown (fun f => (hg.left_group (hreg f)).symm) hkeysLeft
  have halikeRight :=
    combine_alike hpown hrown (fun f => (hg.right_group (hreg f)).symm) hkeysRight
  rw [hflat, hleft, hright]
  rcases halikeLeft with ⟨s, t, hs, ht, hst⟩ | ⟨x, y, hx, hy⟩
  · rcases halikeRight with ⟨s', u, hs', hu, hsu⟩ | ⟨x, y, hx, -⟩
    · rw [hs] at hs'
      cases hs'
      refine .inl ⟨s, t, u, ?_, ?_, ?_, hst, hsu⟩
      · rw [hs]; rfl
      · rw [ht]; rfl
      · rw [hu]; rfl
    · rw [hs] at hx
      cases hx
  · rcases halikeRight with ⟨s', u, hs', -, -⟩ | ⟨x', z, hx', hz⟩
    · rw [hx] at hs'
      cases hs'
    · refine .inr ⟨x, y, z, ?_, ?_, ?_⟩
      · rw [hx]; rfl
      · rw [hy]; rfl
      · rw [hz]; rfl

/-- Three types with the groups of two: the third descends from the first group. -/
def descendantOfGroup : Composer :=
  .ofPlainTypes
    [("A", [], [("x", "number")]),
     ("B", [], [("y", "number")]),
     ("AB", ["A", "B"], []),
     ("C", ["AB"], [("x", "string")]),
     ("BC", ["B", "C"], []),
     ("Flat", ["A", "B", "C"], []),
     ("Left", ["AB", "C"], []),
     ("Right", ["A", "BC"], [])]

/-- A descendant of the group can be composed with it in every grouping. -/
theorem descendant_in_every_grouping :
    ∃ s t u : ResolvedSchema,
      ((descendantOfGroup.resolveStruct ⟨"Flat", []⟩).run .empty).outcome = .ok s ∧
      ((descendantOfGroup.resolveStruct ⟨"Left", []⟩).run .empty).outcome = .ok t ∧
      ((descendantOfGroup.resolveStruct ⟨"Right", []⟩).run .empty).outcome = .ok u ∧
      s.fields = t.fields ∧ s.fields = u.fields := by
  let A := descendantOfGroup.plainSchema "A" (by decide)
  let B := descendantOfGroup.plainSchema "B" (by decide)
  let C := descendantOfGroup.plainSchema "C" (by decide)
  let AB := descendantOfGroup.plainSchema "AB" (by decide)
  let BC := descendantOfGroup.plainSchema "BC" (by decide)
  have hown : ∀ s ∈ [A, B, C, AB, BC], descendantOfGroup.OwnsLabel s := by
    simp only [List.mem_cons, List.not_mem_nil, or_false]
    rintro s (rfl | rfl | rfl | rfl | rfl) <;>
      exact ownsLabel_of_args_nil (derives_plainSchema _) (by decide) (by decide)
  have hx : Regroups "x" A B C AB BC := by
    refine ⟨fun _ _ _ _ _ => by decide, fun h x hh hx hyields => ?_, fun x hx => ?_⟩
    · have hholder : hold "x" none (offers "x" [B, C]) = .ok (some (plainOffer "string" C)) := by
        decide
      have hoffer : A.offer? "x" = some (plainOffer "number" A) := by decide
      rw [hholder] at hh
      rw [hoffer] at hx
      cases hh
      cases hx
      revert hyields
      decide
    · have hoffer : A.offer? "x" = some (plainOffer "number" A) := by decide
      rw [hoffer] at hx
      cases hx
      decide
  have hother : ∀ f, f ≠ "x" → Regroups f A B C AB BC := by
    intro f hf
    -- the first type has no other field
    have hkeys : A.fields.keys = ["x"] := by decide
    have hget : A.fields.get? f = none := by
      rw [← Option.not_isSome_iff_eq_none]
      intro hsome
      have hmem : f ∈ A.fields.keys := OrderedMap.contains_iff.1 hsome
      rw [hkeys] at hmem
      exact hf (List.mem_singleton.1 hmem)
    have hA : A.offer? f = none := by
      rw [ResolvedSchema.offer?, hget]
      rfl
    refine ⟨fun _ _ _ _ _ => by decide, fun h x _ hx => ?_, fun x hx => ?_⟩
    · rw [hA] at hx
      cases hx
    · rw [hA] at hx
      cases hx
  have hreg : ∀ f, Regroups f A B C AB BC := by
    intro f
    by_cases hf : f = "x"
    · rw [hf]
      exact hx
    · exact hother f hf
  have hAB : descendantOfGroup.Sums ⟨"AB", []⟩ [A, B] :=
    ⟨sumPlan "AB" ["A", "B"], rfl, rfl,
      derivesEach_pair (derives_plainSchema _) (derives_plainSchema _)⟩
  have hBC : descendantOfGroup.Sums ⟨"BC", []⟩ [B, C] :=
    ⟨sumPlan "BC" ["B", "C"], rfl, rfl,
      derivesEach_pair (derives_plainSchema _) (derives_plainSchema _)⟩
  have hFlat : descendantOfGroup.Sums ⟨"Flat", []⟩ [A, B, C] :=
    ⟨sumPlan "Flat" ["A", "B", "C"], rfl, rfl,
      derivesEach_triple (derives_plainSchema _) (derives_plainSchema _) (derives_plainSchema _)⟩
  have hLeft : descendantOfGroup.Sums ⟨"Left", []⟩ [AB, C] :=
    ⟨sumPlan "Left" ["AB", "C"], rfl, rfl,
      derivesEach_pair (derives_plainSchema _) (derives_plainSchema _)⟩
  have hRight : descendantOfGroup.Sums ⟨"Right", []⟩ [A, BC] :=
    ⟨sumPlan "Right" ["A", "BC"], rfl, rfl,
      derivesEach_pair (derives_plainSchema _) (derives_plainSchema _)⟩
  -- what the three are resolved to; none of them is stopped or ends in a conflict
  have hflat : ((descendantOfGroup.resolveStruct ⟨"Flat", []⟩).run .empty).outcome =
      .ok (descendantOfGroup.plainSchema "Flat" (by decide)) := by decide
  have hleft : ((descendantOfGroup.resolveStruct ⟨"Left", []⟩).run .empty).outcome =
      .ok (descendantOfGroup.plainSchema "Left" (by decide)) := by decide
  have hright : ((descendantOfGroup.resolveStruct ⟨"Right", []⟩).run .empty).outcome =
      .ok (descendantOfGroup.plainSchema "Right" (by decide)) := by decide
  have hm := Memo.empty_derivedBy descendantOfGroup
  rcases grouping_makes_no_difference hAB hBC (derives_plainSchema _) (derives_plainSchema _)
    hown hreg hFlat hLeft hRight hm hm hm with hstop | hok | ⟨x, y, z, hconflict, -, -⟩
  · rw [hflat, hleft, hright] at hstop
    rcases hstop with ⟨_, _, hstop⟩ | ⟨_, _, hstop⟩ | ⟨_, _, hstop⟩ <;> cases hstop
  · exact hok
  · rw [hflat] at hconflict
    cases hconflict

/-- Three types with the groups of two: the third descends from the first. -/
def descendantOfMember : Composer :=
  .ofPlainTypes
    [("A", [], [("x", "number")]),
     ("B", [], [("y", "number")]),
     ("C", ["A"], [("x", "string")]),
     ("AB", ["A", "B"], []),
     ("BC", ["B", "C"], []),
     ("Flat", ["A", "B", "C"], []),
     ("Left", ["AB", "C"], [])]

/-- A descendant of a member cannot override what a group has from that member:
the flat composition succeeds, and the grouped one conflicts. -/
theorem group_hides_ancestor :
    ∃ A B C AB BC s : ResolvedSchema,
      descendantOfMember.Sums ⟨"AB", []⟩ [A, B] ∧ descendantOfMember.Derives ⟨"AB", []⟩ AB ∧
      descendantOfMember.Sums ⟨"BC", []⟩ [B, C] ∧ descendantOfMember.Derives ⟨"BC", []⟩ BC ∧
      descendantOfMember.Sums ⟨"Flat", []⟩ [A, B, C] ∧
      descendantOfMember.Sums ⟨"Left", []⟩ [AB, C] ∧
      ((descendantOfMember.resolveStruct ⟨"Flat", []⟩).run .empty).outcome = .ok s ∧
      ((descendantOfMember.resolveStruct ⟨"Left", []⟩).run .empty).outcome =
        .error (.compositionConflict "x" "AB" "C" (some "number vs string")) := by
  refine ⟨descendantOfMember.plainSchema "A" (by decide),
    descendantOfMember.plainSchema "B" (by decide), descendantOfMember.plainSchema "C" (by decide),
    descendantOfMember.plainSchema "AB" (by decide),
    descendantOfMember.plainSchema "BC" (by decide),
    descendantOfMember.plainSchema "Flat" (by decide), ⟨sumPlan "AB" ["A", "B"], rfl, rfl, ?_⟩,
    derives_plainSchema _, ⟨sumPlan "BC" ["B", "C"], rfl, rfl, ?_⟩, derives_plainSchema _,
    ⟨sumPlan "Flat" ["A", "B", "C"], rfl, rfl, ?_⟩, ⟨sumPlan "Left" ["AB", "C"], rfl, rfl, ?_⟩,
    by decide, by decide⟩
  · exact derivesEach_pair (derives_plainSchema _) (derives_plainSchema _)
  · exact derivesEach_pair (derives_plainSchema _) (derives_plainSchema _)
  · exact derivesEach_triple (derives_plainSchema _) (derives_plainSchema _) (derives_plainSchema _)
  · exact derivesEach_pair (derives_plainSchema _) (derives_plainSchema _)

end Composer

end WidgetSchema
