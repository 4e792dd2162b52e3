/-
Members in another order.

Two compositions of the same members in different orders have the same fields
whenever both succeed. Their types are another matter. The holder of a field at
the end is the last of a covering line, and a pool of offers can have covering
lines that end in different types: then each of the types is what some order
gives. `Settled` rules that out, and no weaker condition on the members would do,
as the last part of `order_keeps_types` says.

A field is settled if some offer for it is covered by none but those that agree
with it, and nobody overrides these (`settled_of_top`).
-/
import WidgetSchema.Proofs.Lineage
import WidgetSchema.Proofs.MemoDerivation
import WidgetSchema.Proofs.OverridingLines

set_option autoImplicit false

namespace WidgetSchema

/-- All covering lines of the offers for a field end in one type. -/
def Settled (f : String) (parents : List ResolvedSchema) : Prop :=
  ∀ line line' last last', CoveringLine (offers f parents) line →
    CoveringLine (offers f parents) line' → line.getLast? = some last →
    line'.getLast? = some last' → last.field.expression = last'.field.expression

variable {f : String} {pool line : List Contribution} {x g last : Contribution}
  {parents : List ResolvedSchema}

/-- Who stands on a line ends it or gives way to someone on it. -/
theorem getLast?_or_yieldsTo (hchain : line.IsChain Contribution.YieldsTo)
    (hlast : line.getLast? = some last) (hg : g ∈ line) :
    g = last ∨ ∃ y ∈ line, g.YieldsTo y := by
  induction line with
  | nil => cases hg
  | cons a rest ih =>
    cases rest with
    | nil =>
      cases hlast
      exact .inl (List.mem_singleton.1 hg)
    | cons b rest =>
      obtain ⟨hab, hrest⟩ := List.isChain_cons_cons.1 hchain
      rw [List.getLast?_cons_cons] at hlast
      rcases List.mem_cons.1 hg with rfl | hg
      · exact .inr ⟨b, by simp, hab⟩
      · rcases ih hrest hlast hg with heq | ⟨y, hy, hyields⟩
        · exact .inl heq
        · exact .inr ⟨y, List.mem_cons_of_mem a hy, hyields⟩

/-- **A field with an offer on top is settled.** The offer is covered by those
that agree with it only, and these give way to nobody. -/
theorem settled_of_top (hx : x ∈ offers f parents)
    (hcovered : ∀ g ∈ offers f parents, g.Covers x → g.field.expression = x.field.expression)
    (htop : ∀ g ∈ offers f parents, g.field.expression = x.field.expression →
      ∀ y ∈ offers f parents, ¬ g.YieldsTo y) : Settled f parents := by
  have hends : ∀ line last, CoveringLine (offers f parents) line → line.getLast? = some last →
      last.field.expression = x.field.expression := by
    intro line last hline hlast
    obtain ⟨g, hg, hcovers⟩ := hline.covers x hx
    have hmem : ∀ y ∈ line, y ∈ offers f parents := fun y hy => hline.within.subset hy
    have hagree := hcovered g (hmem g hg) hcovers
    rcases getLast?_or_yieldsTo hline.chain hlast hg with rfl | ⟨y, hy, hyields⟩
    · exact hagree
    · exact absurd hyields (htop g (hmem g hg) hagree y (hmem y hy))
  intro line line' last last' hline hline' hlast hlast'
  rw [hends line last hline hlast, hends line' last' hline' hlast']

/-- A field is settled exactly if all orders of the members that merge it agree on its type. -/
theorem settled_iff :
    Settled f parents ↔
      ∀ order order' last last', order.Perm parents → order'.Perm parents →
        hold f none (offers f order) = .ok (some last) →
        hold f none (offers f order') = .ok (some last') →
        last.field.expression = last'.field.expression := by
  constructor
  · intro h order order' last last' hperm hperm' hok hok'
    obtain ⟨line, hline, hlast⟩ := members_hold_iff_line.1 ⟨order, hperm, hok⟩
    obtain ⟨line', hline', hlast'⟩ := members_hold_iff_line.1 ⟨order', hperm', hok'⟩
    exact h line line' last last' hline hline' hlast hlast'
  · intro h line line' last last' hline hline' hlast hlast'
    obtain ⟨order, hperm, hok⟩ := (members_hold_iff_line (f := f)).2 ⟨line, hline, hlast⟩
    obtain ⟨order', hperm', hok'⟩ := (members_hold_iff_line (f := f)).2 ⟨line', hline', hlast'⟩
    exact h order order' last last' hperm hperm' hok hok'

namespace Composer

variable {c : Composer} {memo memo' : Memo} {i j : Instantiation} {p q : Plan}
  {s t : ResolvedSchema}

/-- Reordered members have reordered schemas. -/
theorem DerivesEach.perm {ms ns : List TypeExpr} {ps qs : List ResolvedSchema}
    (hp : c.DerivesEach ms ps) (hq : c.DerivesEach ns qs) (h : ms.Perm ns) : ps.Perm qs := by
  refine List.rel_perm_imp ?_ hp hq h
  rintro member s t ⟨i, hi, hs⟩ ⟨j, hj, ht⟩
  rw [hi] at hj
  cases hj
  exact hs.unique ht

/-- **What the order of the members decides.** Two compositions of the same
members that both succeed have the same fields, and a settled field has the same
type in both. A field is settled exactly if no two orders of the members can give
it different types. -/
theorem order_keeps_types (hm : memo.DerivedBy c) (hm' : memo'.DerivedBy c)
    (hp : c.plan i = .ok p) (hq : c.plan j = .ok q) (hmembers : p.members.Perm q.members)
    (hfields : p.parts.fields = q.parts.fields) (hbindings : p.bindings = q.bindings)
    (hparents : c.DerivesEach p.members parents)
    (hs : ((c.resolveStruct i).run memo).outcome = .ok s)
    (ht : ((c.resolveStruct j).run memo').outcome = .ok t) :
    (∀ f, (s.fields.get? f).isSome ↔ (t.fields.get? f).isSome) ∧
      (∀ f, Settled f parents →
        (s.fields.get? f).map ResolvedField.expression =
          (t.fields.get? f).map ResolvedField.expression) ∧
      ∀ f, Settled f parents ↔
        ∀ order order' last last', order.Perm parents → order'.Perm parents →
          hold f none (offers f order) = .ok (some last) →
          hold f none (offers f order') = .ok (some last') →
          last.field.expression = last'.field.expression := by
  obtain ⟨p', ps, hp', hps, hcombine⟩ := derives_iff.1 (resolveStruct_derives hm hs)
  obtain ⟨q', qs, hq', hqs, hcombine'⟩ := derives_iff.1 (resolveStruct_derives hm' ht)
  rw [hp] at hp'
  cases hp'
  rw [hq] at hq'
  cases hq'
  cases hparents.unique hps
  have hperm : parents.Perm qs := hparents.perm hqs hmembers
  -- the second composition merges an order of the first one's members
  refine ⟨fun f => ?_, fun f hsettled => ?_, fun f => settled_iff⟩
  · rw [Plan.combine_isSome hcombine, Plan.combine_isSome hcombine', hfields]
    simp only [hperm.mem_iff]
  · obtain ⟨held, hhold, hget⟩ := Plan.combine_get? hcombine f
    obtain ⟨held', hhold', hget'⟩ := Plan.combine_get? hcombine' f
    rw [hget, hget', ← hfields, ← hbindings]
    cases p.parts.fields.get? f with
    | some d => rfl
    | none =>
      have hsame : held.isSome ↔ held'.isSome := by
        rw [hold_isSome hhold, hold_isSome hhold', offers_ne_nil, offers_ne_nil]
        simp only [hperm.mem_iff]
      cases held with
      | none =>
        cases held' with
        | none => rfl
        | some last' => simp at hsame
      | some last =>
        cases held' with
        | none => simp at hsame
        | some last' =>
          have heq := settled_iff.1 hsettled parents qs last last' (.refl _) hperm.symm hhold hhold'
          simpa using heq

/-- A type and two generations above it, in two orders; the type and the oldest
generation agree. -/
def twoOrders : Composer :=
  .ofPlainTypes
    [("A", [], [("x", "number")]),
     ("M", ["A"], [("x", "string")]),
     ("D", ["M"], [("x", "number")]),
     ("N", ["A", "M"], []),
     ("R", ["M", "A"], []),
     ("K", ["A", "D", "M"], []),
     ("L", ["D", "A", "M"], [])]

/-- A type and its subtype can be composed in either order. -/
theorem subtype_in_either_order :
    ∃ A M s t : ResolvedSchema, Settled "x" [A, M] ∧
      ((twoOrders.resolveStruct ⟨"N", []⟩).run .empty).outcome = .ok s ∧
      ((twoOrders.resolveStruct ⟨"R", []⟩).run .empty).outcome = .ok t ∧
      (s.fields.get? "x").map ResolvedField.expression =
        (t.fields.get? "x").map ResolvedField.expression := by
  let A := twoOrders.plainSchema "A" (by decide)
  let M := twoOrders.plainSchema "M" (by decide)
  let s := twoOrders.plainSchema "N" (by decide)
  let t := twoOrders.plainSchema "R" (by decide)
  have hp : twoOrders.plan ⟨"N", []⟩ = .ok (sumPlan "N" ["A", "M"]) := rfl
  have hq : twoOrders.plan ⟨"R", []⟩ = .ok (sumPlan "R" ["M", "A"]) := rfl
  have hparents : twoOrders.DerivesEach (sumPlan "N" ["A", "M"]).members [A, M] :=
    derivesEach_pair (derives_plainSchema _) (derives_plainSchema _)
  have hsettled : Settled "x" [A, M] :=
    settled_of_top (x := plainOffer "string" M) (by decide) (by decide) (by decide)
  have hs : ((twoOrders.resolveStruct ⟨"N", []⟩).run .empty).outcome = .ok s := by decide
  have ht : ((twoOrders.resolveStruct ⟨"R", []⟩).run .empty).outcome = .ok t := by decide
  obtain ⟨-, htypes, -⟩ := order_keeps_types (Memo.empty_derivedBy twoOrders)
    (Memo.empty_derivedBy twoOrders) hp hq (.swap _ _ _) rfl rfl hparents hs ht
  exact ⟨A, M, s, t, hsettled, hs, ht, htypes "x" hsettled⟩

/-- Two orders of the same members that both succeed, with different types: the
youngest member agrees with the oldest, and if it comes while that one holds the
field it is forgotten. -/
theorem order_changes_type :
    ∃ A D M s t : ResolvedSchema,
      twoOrders.plan ⟨"K", []⟩ = .ok (sumPlan "K" ["A", "D", "M"]) ∧
      twoOrders.plan ⟨"L", []⟩ = .ok (sumPlan "L" ["D", "A", "M"]) ∧
      (sumPlan "K" ["A", "D", "M"]).members.Perm (sumPlan "L" ["D", "A", "M"]).members ∧
      twoOrders.DerivesEach (sumPlan "K" ["A", "D", "M"]).members [A, D, M] ∧
      ((twoOrders.resolveStruct ⟨"K", []⟩).run .empty).outcome = .ok s ∧
      ((twoOrders.resolveStruct ⟨"L", []⟩).run .empty).outcome = .ok t ∧
      (s.fields.get? "x").map ResolvedField.expression = some (.primitive "string") ∧
      (t.fields.get? "x").map ResolvedField.expression = some (.primitive "number") := by
  refine ⟨twoOrders.plainSchema "A" (by decide), twoOrders.plainSchema "D" (by decide),
    twoOrders.plainSchema "M" (by decide), twoOrders.plainSchema "K" (by decide),
    twoOrders.plainSchema "L" (by decide), rfl, rfl, .swap _ _ _, ?_, by decide, by decide,
    by decide, by decide⟩
  exact derivesEach_triple (derives_plainSchema _) (derives_plainSchema _) (derives_plainSchema _)

end Composer

end WidgetSchema
