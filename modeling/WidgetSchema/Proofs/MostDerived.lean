/-
The most derived member.

If one member of a composition descends from every other member that has a
field, the field should come from it, wherever it stands. What stands behind it
is kept back. What stands before it must leave it the field: the members before
it have to merge among themselves, because they are merged before it is seen, and
the type they leave the field must not be the one it declares already, because a
member that agrees adds nothing.
-/
import WidgetSchema.Proofs.Lineage
import WidgetSchema.Proofs.MemoDerivation
import WidgetSchema.Proofs.OverridingLines

set_option autoImplicit false

namespace WidgetSchema

/-- A member descends from every other member that has the field, and none of
those descends from it. -/
def MostDerived (f : String) (d : ResolvedSchema) (members : List ResolvedSchema) : Prop :=
  ∀ m ∈ members, m ≠ d → (m.fields.get? f).isSome → m.label ∈ d.lineage ∧ d.label ∉ m.lineage

instance (f : String) (d : ResolvedSchema) (members : List ResolvedSchema) :
    Decidable (MostDerived f d members) :=
  inferInstanceAs (Decidable (∀ m ∈ members, _))

namespace MostDerived

variable {f : String} {d : ResolvedSchema} {members pre post : List ResolvedSchema}
  {x y : Contribution}

/-- An offer of another member is covered by the most derived one, or agrees. -/
theorem covers (h : MostDerived f d members) (hown : ∀ m ∈ members, m.label ∈ m.lineage)
    (hx : x ∈ offers f members) (hd : x.holder = d) (hy : y ∈ offers f members) :
    x.Covers y := by
  obtain ⟨hymem, hyfield⟩ := mem_offers.1 hy
  obtain ⟨-, hxfield⟩ := mem_offers.1 hx
  by_cases hyd : y.holder = d
  · -- the same member again
    have hsame : some x.field = some y.field := by rw [← hxfield, ← hyfield, hd, hyd]
    refine Contribution.covers_of_agree ?_
    rw [Option.some.inj hsame]
  · obtain ⟨hbelow, habove⟩ := h y.holder hymem hyd (by rw [hyfield]; rfl)
    refine Contribution.covers_iff.2 (.inr ⟨?_, by rw [hd]; exact hbelow⟩)
    intro hlabel
    rw [hd] at hlabel
    rw [hlabel] at habove
    exact habove (hown _ hymem)

/-- Another member gives way to the most derived one, unless they agree. -/
theorem yieldsTo (h : MostDerived f d members) (hown : ∀ m ∈ members, m.label ∈ m.lineage)
    (hd : x.holder = d) (hy : y ∈ offers f members) (hyd : y.holder ≠ d)
    (hne : y.field.expression ≠ x.field.expression) : y.YieldsTo x := by
  obtain ⟨hymem, hyfield⟩ := mem_offers.1 hy
  obtain ⟨hbelow, habove⟩ := h y.holder hymem hyd (by rw [hyfield]; rfl)
  refine Contribution.yieldsTo_iff.2 ⟨hne, ?_, by rw [hd]; exact habove, by rw [hd]; exact hbelow⟩
  intro hlabel
  rw [hd] at hlabel
  rw [← hlabel] at habove
  exact habove (hown _ hymem)

/-- **The history of a field ends in the most derived member**, if the members
before it leave the field to it. -/
theorem hold_eq (h : MostDerived f d (pre ++ d :: post))
    (hown : ∀ m ∈ pre ++ d :: post, m.label ∈ m.lineage) (hfirst : d ∉ pre)
    (hx : d.offer? f = some x) {held : Option Contribution}
    (hpre : hold f none (offers f pre) = .ok held)
    (hleft : ∀ y, held = some y → y.field.expression ≠ x.field.expression) :
    hold f none (offers f (pre ++ d :: post)) = .ok (some x) := by
  have hd : x.holder = d := by
    obtain ⟨field, -, rfl⟩ := Option.map_eq_some_iff.1 hx
    rfl
  have hsplit : offers f (pre ++ d :: post) = offers f pre ++ x :: offers f post := by
    rw [offers_append, offers_cons, hx]
    rfl
  have hall : ∀ y ∈ offers f pre ++ x :: offers f post, y ∈ offers f (pre ++ d :: post) := by
    intro y hy
    rw [hsplit]
    exact hy
  have hpost : hold f (some x) (offers f post) = .ok (some x) := by
    refine hold_of_covers_all fun y hy => h.covers hown (hall x (by simp)) hd (hall y ?_)
    exact List.mem_append_right _ (List.mem_cons_of_mem x hy)
  rw [hsplit, hold_append, hpre]
  cases held with
  | none => exact hpost
  | some y =>
    -- the holder is one of the members before, and so gives way
    have hy : y ∈ offers f pre := hold_mem hpre
    have hother : y.holder ≠ d := by
      intro heq
      rw [← heq] at hfirst
      exact hfirst (mem_offers.1 hy).1
    have hyields := h.yieldsTo hown hd (hall y (List.mem_append_left _ hy)) hother (hleft y rfl)
    show hold f (some y) (x :: offers f post) = _
    rw [hold_cons_of_yieldsTo hyields, hpost]

end MostDerived

namespace Composer

variable {c : Composer} {memo : Memo} {i : Instantiation} {p : Plan} {f : String}
  {pre post : List ResolvedSchema} {d : ResolvedSchema} {field : ResolvedField}

/-- A generic struct composed twice, with a scalar kind and with a reference that
is written like it. -/
def sharedLabel : Composer where
  registry :=
    { definitions := .ofList
        [("H", .ofStruct
          { name := "H"
            fields := .ofList
              [("x", { expression := .reference "T", tags := .empty, raw := "T" })]
            supertype := none
            parameters := [{ name := "T", default := none }] }),
         ("N", .ofAlias
          { name := "N"
            expression := .intersection
              [.generic "H" [.primitive "number"], .generic "H" [.reference "number"]]
            parameters := [] })]
      frozen := true }
  maxDepth := 16

/-- Labels can be shared by instantiations whose arguments are written alike: two
members are then in each other's lineage, and they conflict. -/
example :
    ((sharedLabel.resolveStruct ⟨"H", [.primitive "number"]⟩).run .empty).outcome.toOption.map
        ResolvedSchema.lineage =
      ((sharedLabel.resolveStruct ⟨"H", [.reference "number"]⟩).run .empty).outcome.toOption.map
        ResolvedSchema.lineage ∧
      ((sharedLabel.resolveStruct ⟨"N", []⟩).run .empty).outcome =
        .error (.compositionConflict "x" "H(number)" "H(number)" (some "number vs number")) := by
  decide

/-- **The most derived member wins.** If the members before it merge without a
conflict on the field and do not leave it the very type it declares, then
resolving the composition never reports a conflict on the field, and the merge
gives the field as this member has it. -/
theorem mostDerived_wins (hm : memo.DerivedBy c) (hp : c.plan i = .ok p)
    (hparents : c.DerivesEach p.members (pre ++ d :: post))
    (hd : MostDerived f d (pre ++ d :: post)) (hfirst : d ∉ pre)
    (hfield : d.fields.get? f = some field)
    (hpre : ∃ held, hold f none (offers f pre) = .ok held ∧
      ∀ y, held = some y → y.field.expression ≠ field.expression) :
    hold f none (offers f (pre ++ d :: post)) = .ok (some { field, holder := d }) ∧
      (∀ first second detail, ((c.resolveStruct i).run memo).outcome ≠
        .error (.compositionConflict f first second detail)) ∧
      ∀ s, ((c.resolveStruct i).run memo).outcome = .ok s →
        ∃ merged, mergeMembers (pre ++ d :: post) .empty = .ok merged ∧
          (merged.get? f).map Contribution.field = some field ∧
          s = assemble p.key p.bindings p.parts.fields
            { held := merged
              lineage := (pre ++ d :: post).flatMap fun m => m.lineage.toList } := by
  obtain ⟨held, hheld, hleft⟩ := hpre
  have hoffer : d.offer? f = some { field, holder := d } := by
    rw [ResolvedSchema.offer?, hfield]
    rfl
  have hown : ∀ m ∈ pre ++ d :: post, m.label ∈ m.lineage := by
    intro m hm
    obtain ⟨j, hj⟩ := hparents.mem hm
    exact hj.label_mem_lineage
  -- the offers behind the descendant leave it where it is
  have hhold := hd.hold_eq hown hfirst hoffer hheld hleft
  refine ⟨hhold, ?_, ?_⟩
  · intro first second detail herror
    -- a conflict about another field is none about this one
    rcases resolveStruct_of_plan hm hp hparents with ⟨name, bound, hstop⟩ | hcombine
    · rw [hstop] at herror
      cases herror
    · rw [hcombine] at herror
      cases hresult : p.combine (pre ++ d :: post) with
      | ok s =>
        rw [hresult] at herror
        cases herror
      | error conflict =>
        rw [hresult] at herror
        have hf : conflict.field = f := by
          injection herror with herror
          injection herror
        have hconflict := Plan.combine_error hresult
        rw [hf, hhold] at hconflict
        cases hconflict
  · intro s hs
    obtain ⟨q, qs, hq, hqs, hresult⟩ := derives_iff.1 (resolveStruct_derives hm hs)
    rw [hp] at hq
    cases hq
    rw [← hparents.unique hqs] at hresult
    obtain ⟨merged, hmerged, rfl⟩ := Plan.combine_eq_ok.1 hresult
    -- what is merged of the members is the history of their offers
    have hget := mergeMembers_get? hmerged f
    refine ⟨merged, hmerged, ?_, rfl⟩
    have hnone : (OrderedMap.empty : OrderedMap Contribution).get? f = none := rfl
    rw [hnone, hhold] at hget
    rw [← Except.ok.inj hget]
    rfl

/-- Three generations of a field, one of which is composed with the other two. -/
def threeGenerations : Composer :=
  .ofPlainTypes
    [("A", [], [("x", "number")]),
     ("M", ["A"], [("x", "string")]),
     ("D", ["M"], [("x", "boolean")]),
     ("N", ["A", "D", "M"], [])]

/-- The youngest generation wins between the two others. -/
theorem youngest_wins_between :
    ∃ A M D : ResolvedSchema, ∃ field, D.fields.get? "x" = some field ∧ field.origin = "D" ∧
      MostDerived "x" D ([A] ++ D :: [M]) ∧
      hold "x" none (offers "x" ([A] ++ D :: [M])) = .ok (some { field, holder := D }) ∧
      ∃ s, ((threeGenerations.resolveStruct ⟨"N", []⟩).run .empty).outcome = .ok s ∧
        s.fields.get? "x" = some field := by
  let A := threeGenerations.plainSchema "A" (by decide)
  let M := threeGenerations.plainSchema "M" (by decide)
  let D := threeGenerations.plainSchema "D" (by decide)
  let s := threeGenerations.plainSchema "N" (by decide)
  let field : ResolvedField := { expression := .primitive "boolean", tags := .empty, origin := "D" }
  let p := sumPlan "N" ["A", "D", "M"]
  have hp : threeGenerations.plan ⟨"N", []⟩ = .ok p := rfl
  have hparents : threeGenerations.DerivesEach p.members ([A] ++ D :: [M]) :=
    derivesEach_triple (derives_plainSchema _) (derives_plainSchema _) (derives_plainSchema _)
  have hfield : D.fields.get? "x" = some field := by decide
  have hd : MostDerived "x" D ([A] ++ D :: [M]) := by decide
  have hs : ((threeGenerations.resolveStruct ⟨"N", []⟩).run .empty).outcome = .ok s := by decide
  obtain ⟨hhold, -, hmerged⟩ := mostDerived_wins (Memo.empty_derivedBy threeGenerations) hp
    hparents hd (by decide) hfield
    ⟨some { field := { expression := .primitive "number", tags := .empty, origin := "A" },
            holder := A }, by decide, by rintro y hy; cases hy; decide⟩
  obtain ⟨merged, -, hget, hassemble⟩ := hmerged s hs
  refine ⟨A, M, D, field, hfield, rfl, hd, hhold, s, hs, ?_⟩
  rw [hassemble, ← hget]
  exact OrderedMap.get?_mapValues _ _ _

/-- Two peers in front of their common descendant, and a type in front of a
descendant that declares its field again. -/
def earlierMembers : Composer :=
  .ofPlainTypes
    [("A", [], [("x", "number")]),
     ("B", [], [("x", "string")]),
     ("P", ["A"], [("x", "string")]),
     ("D", ["P", "B"], [("x", "boolean")]),
     ("N", ["A", "B", "D"], []),
     ("E", ["A"], [("x", "number")]),
     ("K", ["A", "E"], [])]

/-- What stands before the most derived member matters: peers conflict before it
is seen, and a field that has its type already is not given again. -/
theorem earlier_members_matter :
    ∃ A B D E : ResolvedSchema,
      (earlierMembers.plan ⟨"N", []⟩ = .ok (sumPlan "N" ["A", "B", "D"]) ∧
        earlierMembers.DerivesEach (sumPlan "N" ["A", "B", "D"]).members [A, B, D] ∧
        (D.fields.get? "x").isSome ∧ MostDerived "x" D [A, B, D] ∧
        ((earlierMembers.resolveStruct ⟨"N", []⟩).run .empty).outcome =
          .error (.compositionConflict "x" "A" "B" (some "number vs string"))) ∧
      earlierMembers.plan ⟨"K", []⟩ = .ok (sumPlan "K" ["A", "E"]) ∧
      earlierMembers.DerivesEach (sumPlan "K" ["A", "E"]).members [A, E] ∧
      (E.fields.get? "x").map ResolvedField.origin = some "E" ∧ MostDerived "x" E [A, E] ∧
      ∃ s, ((earlierMembers.resolveStruct ⟨"K", []⟩).run .empty).outcome = .ok s ∧
        (s.fields.get? "x").map ResolvedField.origin = some "A" := by
  refine ⟨earlierMembers.plainSchema "A" (by decide), earlierMembers.plainSchema "B" (by decide),
    earlierMembers.plainSchema "D" (by decide), earlierMembers.plainSchema "E" (by decide),
    ⟨rfl, ?_, by decide, by decide, by decide⟩, rfl, ?_, by decide, by decide,
    earlierMembers.plainSchema "K" (by decide), by decide, by decide⟩
  · exact derivesEach_triple (derives_plainSchema _) (derives_plainSchema _) (derives_plainSchema _)
  · exact derivesEach_pair (derives_plainSchema _) (derives_plainSchema _)

end Composer

end WidgetSchema
