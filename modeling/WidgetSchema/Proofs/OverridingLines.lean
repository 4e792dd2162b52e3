/-
Lines of overriding: who can come to hold a field.

A history remembers one holder at a time. Each holder gives way to the next, so
the holders form a *line*, and every other offer was kept back by one of them,
the one that held the field when it came. `CoveringLine` says just that of a line
and a pool of offers, without an order.

Every history without a conflict leaves such a line (`line_of_hold`). The
converse is `order_of_line`: from a covering line an order of the offers is read
off in which nothing conflicts, by putting each offer behind the holder that
covers it. Who can come to hold a field, over all orders of its offers, is
therefore who ends a covering line (`hold_iff_line`).
-/
import Mathlib.Data.List.Chain
import Mathlib.Data.List.Perm.Subperm
import WidgetSchema.Proofs.CombinedFields

set_option autoImplicit false

namespace WidgetSchema

namespace Contribution

/-! ## The three decisions -/

/-- The held field stays when the other is offered. -/
def Covers (h x : Contribution) : Prop := h.decide x.holder x.field = .keep

/-- The held field gives way to the offered one. -/
def YieldsTo (h x : Contribution) : Prop := h.decide x.holder x.field = .replace

/-- The two declare different types and neither descends from the other. -/
def Clashes (h x : Contribution) : Prop := h.decide x.holder x.field = .conflict

instance (h x : Contribution) : Decidable (h.Covers x) :=
  inferInstanceAs (Decidable (_ = _))

instance (h x : Contribution) : Decidable (h.YieldsTo x) :=
  inferInstanceAs (Decidable (_ = _))

instance (h x : Contribution) : Decidable (h.Clashes x) :=
  inferInstanceAs (Decidable (_ = _))

/-- One holder covers another if their types agree, or if it descends from the other. -/
theorem covers_iff {h x : Contribution} :
    h.Covers x ↔ h.field.expression = x.field.expression ∨
      h.holder.label ≠ x.holder.label ∧ x.holder.label ∈ h.holder.lineage := by
  unfold Covers decide
  grind

/-- It yields if the types differ and the other descends from it. -/
theorem yieldsTo_iff {h x : Contribution} :
    h.YieldsTo x ↔ h.field.expression ≠ x.field.expression ∧
      h.holder.label ≠ x.holder.label ∧ x.holder.label ∉ h.holder.lineage ∧
      h.holder.label ∈ x.holder.lineage := by
  unfold YieldsTo decide
  grind

/-- They clash if the types differ and neither descends from the other. Two members with one label
clash whatever their lineages are. -/
theorem clashes_iff {h x : Contribution} :
    h.Clashes x ↔ h.field.expression ≠ x.field.expression ∧
      (h.holder.label ≠ x.holder.label →
        x.holder.label ∉ h.holder.lineage ∧ h.holder.label ∉ x.holder.lineage) := by
  unfold Clashes decide
  grind

/-- Offers that agree cover each other. -/
theorem covers_of_agree {h x : Contribution} (he : h.field.expression = x.field.expression) :
    h.Covers x :=
  covers_iff.2 (.inl he)

/-- A clash is one in either order. -/
theorem clashes_symm {h x : Contribution} (hx : h.Clashes x) : x.Clashes h := by
  obtain ⟨hne, hlabels⟩ := clashes_iff.1 hx
  refine clashes_iff.2 ⟨Ne.symm hne, fun hl => ?_⟩
  obtain ⟨h₁, h₂⟩ := hlabels (Ne.symm hl)
  exact ⟨h₂, h₁⟩

/-- A holder agrees with itself. -/
theorem covers_self (h : Contribution) : h.Covers h := covers_of_agree rfl

/-- The three decisions exclude one another and leave nothing out. -/
theorem not_clashes_iff {h x : Contribution} :
    ¬ h.Clashes x ↔ h.Covers x ∨ h.YieldsTo x := by
  unfold Clashes Covers YieldsTo
  cases h.decide x.holder x.field <;> simp

end Contribution

/-! ## Steps of a history -/

section
variable {f : String} {h x last : Contribution} {xs : List Contribution}

/-- What is covered is skipped. -/
theorem hold_cons_of_covers (hx : h.Covers x) : hold f (some h) (x :: xs) = hold f (some h) xs := by
  rw [hold, hx]

/-- What it yields to becomes the holder. -/
theorem hold_cons_of_yieldsTo (hx : h.YieldsTo x) :
    hold f (some h) (x :: xs) = hold f (some x) xs := by
  rw [hold, hx]

/-- A holder that covers all others is the last one. -/
theorem hold_of_covers_all (hxs : ∀ x ∈ xs, h.Covers x) : hold f (some h) xs = .ok (some h) := by
  induction xs with
  | nil => rfl
  | cons x xs ih =>
    obtain ⟨hx, hrest⟩ := List.forall_mem_cons.1 hxs
    rw [hold_cons_of_covers hx, ih hrest]

/-- Whoever holds a field after a history offered it or held it before. -/
theorem hold_mem_cons (hok : hold f (some h) xs = .ok (some last)) : last ∈ h :: xs := by
  induction xs generalizing h with
  | nil =>
    cases hok
    exact List.mem_singleton_self last
  | cons x xs ih =>
    rw [hold] at hok
    split at hok
    · rcases List.mem_cons.1 (ih hok) with rfl | hmem
      · exact List.mem_cons_self
      · exact List.mem_cons_of_mem _ (List.mem_cons_of_mem _ hmem)
    · exact List.mem_cons_of_mem _ (ih hok)
    · cases hok

/-- The last holder is one of those that were offered. -/
theorem hold_mem (hok : hold f none xs = .ok (some last)) : last ∈ xs := by
  cases xs with
  | nil => cases hok
  | cons x xs => exact hold_mem_cons hok

/-- **A field is handed on as a whole**: a combined schema has it from its own declaration,
or as a member has it. -/
theorem Plan.combine_field {p : Plan} {parents : List ResolvedSchema} {s : ResolvedSchema}
    {field : ResolvedField} (hs : p.combine parents = .ok s)
    (hfield : s.fields.get? f = some field) :
    (∃ d, p.parts.fields.get? f = some d ∧ field = ownField p.key.name p.bindings d) ∨
      ∃ m ∈ parents, m.fields.get? f = some field := by
  obtain ⟨held, hheld, hget⟩ := Plan.combine_get? hs f
  rw [hfield] at hget
  cases hown : p.parts.fields.get? f with
  | some d =>
    rw [hown, Option.some.injEq] at hget
    exact .inl ⟨d, rfl, hget⟩
  | none =>
    rw [hown, eq_comm, Option.map_eq_some_iff] at hget
    obtain ⟨x, rfl, rfl⟩ := hget
    obtain ⟨hmem, hfound⟩ := mem_offers.1 (hold_mem hheld)
    exact .inr ⟨x.holder, hmem, hfound⟩

end

/-! ## Lines -/

/-- Offers of a pool, each of which gives way to the next, and by one of which
each offer of the pool is covered. -/
structure CoveringLine (pool line : List Contribution) : Prop where
  within : line.Subperm pool
  chain : line.IsChain Contribution.YieldsTo
  covers : ∀ x ∈ pool, ∃ h ∈ line, h.Covers x

variable {f : String} {pool line xs : List Contribution} {h last : Contribution}

/-- **A history leaves a line.** The line begins with the first holder and ends
with the last one. -/
theorem line_of_hold (hok : hold f (some h) xs = .ok (some last)) :
    ∃ line, line.Sublist xs ∧ (h :: line).IsChain Contribution.YieldsTo ∧
      (h :: line).getLast? = some last ∧ ∀ x ∈ xs, ∃ g ∈ h :: line, g.Covers x := by
  induction xs generalizing h with
  | nil =>
    cases hok
    exact ⟨[], .refl _, .singleton last, rfl, by simp⟩
  | cons x xs ih =>
    -- the next offer is covered, takes over and goes on the line, or clashes
    cases hdecide : h.decide x.holder x.field with
    | keep =>
      have hcovers : h.Covers x := hdecide
      rw [hold_cons_of_covers hcovers] at hok
      obtain ⟨line, hsub, hchain, hlast, hall⟩ := ih hok
      refine ⟨line, hsub.cons x, hchain, hlast, ?_⟩
      exact List.forall_mem_cons.2 ⟨⟨h, List.mem_cons_self, hcovers⟩, hall⟩
    | replace =>
      have hyields : h.YieldsTo x := hdecide
      rw [hold_cons_of_yieldsTo hyields] at hok
      obtain ⟨line, hsub, hchain, hlast, hall⟩ := ih hok
      refine ⟨x :: line, hsub.cons_cons x, .cons_cons hyields hchain, ?_, ?_⟩
      · rw [List.getLast?_cons_cons, hlast]
      · refine List.forall_mem_cons.2 ⟨⟨x, by simp, x.covers_self⟩, fun y hy => ?_⟩
        obtain ⟨g, hg, hcovers⟩ := hall y hy
        exact ⟨g, List.mem_cons_of_mem h hg, hcovers⟩
    | conflict =>
      rw [hold, hdecide] at hok
      cases hok

/-- **A line gives an order.** Each offer is put behind the holder that covers it,
and so nothing conflicts. The induction is on the line. -/
theorem order_of_line {rest : List Contribution}
    (hchain : (h :: line).IsChain Contribution.YieldsTo)
    (hlast : (h :: line).getLast? = some last)
    (hrest : ∀ x ∈ rest, ∃ g ∈ h :: line, g.Covers x) :
    ∃ order, order.Perm (line ++ rest) ∧ hold f (some h) order = .ok (some last) := by
  induction line generalizing h rest with
  | nil =>
    cases hlast
    refine ⟨rest, .refl _, hold_of_covers_all fun x hx => ?_⟩
    obtain ⟨g, hg, hcovers⟩ := hrest x hx
    rw [List.mem_singleton.1 hg] at hcovers
    exact hcovers
  | cons y line ih =>
    obtain ⟨hyields, hchain⟩ := List.isChain_cons_cons.1 hchain
    rw [List.getLast?_cons_cons] at hlast
    -- what the first holder covers comes before it gives way
    let now := rest.filter fun x => h.Covers x
    let later := rest.filter fun x => !h.Covers x
    have hlater : ∀ x ∈ later, ∃ g ∈ y :: line, g.Covers x := by
      intro x hx
      obtain ⟨hx, hnot⟩ := List.mem_filter.1 hx
      obtain ⟨g, hg, hcovers⟩ := hrest x hx
      rcases List.mem_cons.1 hg with rfl | hg
      · simp [hcovers] at hnot
      · exact ⟨g, hg, hcovers⟩
    obtain ⟨order, hperm, hhold⟩ := ih hchain hlast hlater
    refine ⟨now ++ y :: order, ?_, ?_⟩
    · have hsplit : (now ++ later).Perm rest := List.filter_append_perm _ rest
      calc (now ++ y :: order).Perm (now ++ y :: (line ++ later)) := (hperm.cons y).append_left now
        List.Perm _ ((y :: line) ++ (now ++ later)) := by
          simpa using (List.perm_append_comm_assoc now (y :: line) later)
        List.Perm _ ((y :: line) ++ rest) := hsplit.append_left _
    · have hnow : hold f (some h) now = .ok (some h) := by
        refine hold_of_covers_all fun x hx => ?_
        simpa using (List.mem_filter.1 hx).2
      rw [hold_append, hnow]
      show hold f (some h) (y :: order) = _
      rw [hold_cons_of_yieldsTo hyields, hhold]

/-- **Who can come to hold a field** is who ends a covering line. -/
theorem hold_iff_line :
    (∃ order, order.Perm pool ∧ hold f none order = .ok (some last)) ↔
      ∃ line, CoveringLine pool line ∧ line.getLast? = some last := by
  constructor
  · rintro ⟨order, hperm, hok⟩
    cases order with
    | nil => cases hok
    | cons h xs =>
      obtain ⟨line, hsub, hchain, hlast, hall⟩ := line_of_hold hok
      refine ⟨h :: line, ⟨?_, hchain, fun x hx => ?_⟩, hlast⟩
      · exact (hsub.cons_cons h).subperm.trans hperm.subperm
      · rcases List.mem_cons.1 (hperm.mem_iff.2 hx) with rfl | hx
        · exact ⟨x, List.mem_cons_self, x.covers_self⟩
        · exact hall x hx
  · rintro ⟨line, ⟨hwithin, hchain, hall⟩, hlast⟩
    obtain ⟨found, hfound, hsub⟩ := hwithin
    obtain ⟨rest, hsplit⟩ := hsub.exists_perm_append
    have hperm : pool.Perm (line ++ rest) := hsplit.trans (hfound.append_right rest)
    cases line with
    | nil => cases hlast
    | cons h line =>
      have hrest : ∀ x ∈ rest, ∃ g ∈ h :: line, g.Covers x := by
        intro x hx
        exact hall x (hperm.mem_iff.2 (List.mem_append_right _ hx))
      obtain ⟨order, horder, hhold⟩ := order_of_line (f := f) hchain hlast hrest
      exact ⟨h :: order, (horder.cons h).trans hperm.symm, hhold⟩

/-! ## Orders of members -/

theorem map_holder_offers (f : String) (members : List ResolvedSchema) :
    (offers f members).map Contribution.holder =
      members.filter fun m => (m.offer? f).isSome := by
  induction members with
  | nil => rfl
  | cons m members ih =>
    rw [offers_cons, List.map_append, ih, List.filter_cons]
    unfold ResolvedSchema.offer?
    cases m.fields.get? f <;> rfl

/-- An order of the offers for a field is the order that some order of the members
gives them. -/
theorem exists_members_order {members : List ResolvedSchema} {order : List Contribution}
    (h : order.Perm (offers f members)) :
    ∃ ms, ms.Perm members ∧ offers f ms = order := by
  have hoffer : ∀ x ∈ order, x.holder.offer? f = some x := by
    intro x hx
    obtain ⟨-, hfield⟩ := mem_offers.1 (h.mem_iff.1 hx)
    rw [ResolvedSchema.offer?, hfield]
    rfl
  -- members without the field go first
  let without := members.filter fun m => !(m.offer? f).isSome
  have hwithout : offers f without = [] := by
    refine List.filterMap_eq_nil_iff.2 fun m hm => ?_
    simpa using (List.mem_filter.1 hm).2
  refine ⟨without ++ order.map Contribution.holder, ?_, ?_⟩
  · have hholders := (h.map Contribution.holder).append_left without
    rw [map_holder_offers] at hholders
    exact hholders.trans (List.perm_append_comm.trans (List.filter_append_perm _ members))
  · rw [offers_append, hwithout, List.nil_append]
    unfold offers
    rw [List.filterMap_map]
    calc order.filterMap ((fun m => m.offer? f) ∘ Contribution.holder)
        = order.filterMap some := List.filterMap_congr hoffer
      _ = order := List.filterMap_some

/-- Who can come to hold a field, over all orders of the members. -/
theorem members_hold_iff_line {members : List ResolvedSchema} :
    (∃ ms, ms.Perm members ∧ hold f none (offers f ms) = .ok (some last)) ↔
      ∃ line, CoveringLine (offers f members) line ∧ line.getLast? = some last := by
  rw [← hold_iff_line (f := f)]
  constructor
  · rintro ⟨ms, hperm, hok⟩
    exact ⟨offers f ms, hperm.filterMap _, hok⟩
  · rintro ⟨order, hperm, hok⟩
    obtain ⟨ms, hms, rfl⟩ := exists_members_order hperm
    exact ⟨ms, hms, hok⟩

/-- Where members combine, every field that one of them has ends a covering line
of its offers, and the type inherits it from there unless it declares it. -/
theorem Plan.combine_line {p : Plan} {parents : List ResolvedSchema} {s : ResolvedSchema}
    (hs : p.combine parents = .ok s) (hf : offers f parents ≠ []) :
    ∃ line last, CoveringLine (offers f parents) line ∧ line.getLast? = some last ∧
      s.fields.get? f =
        match p.parts.fields.get? f with
        | some d => some (ownField p.key.name p.bindings d)
        | none => some last.field := by
  obtain ⟨held, hhold, hget⟩ := Plan.combine_get? hs f
  have hsome : held.isSome := (hold_isSome hhold).2 (.inr hf)
  obtain ⟨last, rfl⟩ := Option.isSome_iff_exists.1 hsome
  obtain ⟨line, hline, hlast⟩ := members_hold_iff_line.1 ⟨parents, .refl _, hhold⟩
  exact ⟨line, last, hline, hlast, hget⟩

end WidgetSchema
