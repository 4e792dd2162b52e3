/-
Direct supertypes, and what can be reached over them.

A member of what an instantiation composes names an instantiation, and completed by its
defaults that is a direct supertype (`HasSupertype`). Nothing here asks whether any of
them can be derived. If the first one can, though, then all that it reaches can, each at a
smaller height, and it has their lineages and their fields (`Derives.ancestor`); so its
lineage is the set of the labels that it reaches (`Derives.mem_lineage_iff`), and nothing
that it reaches leads back to it (`Derives.ancestor_antisymm`).

Whatever resolution remembers it remembers with all that lies above
(`Memo.ClosedFor.knows_ancestor`).
-/
import Mathlib.Logic.Relation
import WidgetSchema.Proofs.ClosedMemos
import WidgetSchema.Proofs.Lineage
import WidgetSchema.Proofs.NameDenotation

set_option autoImplicit false

namespace WidgetSchema

/-! ## Complete instantiations -/

/-- All parameters get a value. -/
theorem length_bindFrom {ps : List GenericParameter} {args full : List TypeExpr}
    {before bindings : Bindings} (h : bindFrom before ps args = .ok (bindings, full)) :
    full.length = ps.length := by
  induction ps generalizing args full before with
  | nil =>
    rw [bindFrom] at h
    cases h
    rfl
  | cons p ps ih =>
    obtain ⟨arg, rest, later, rfl, hlater, -⟩ := Composer.bindFrom_cons h
    rw [List.length_cons, List.length_cons, ih hlater]

/-- Complete arguments are bound as the arguments that they were completed from. -/
theorem bindFrom_full {ps : List GenericParameter} {args full : List TypeExpr}
    {before bindings : Bindings} (h : bindFrom before ps args = .ok (bindings, full)) :
    bindFrom before ps full = .ok (bindings, full) := by
  induction ps generalizing args full before with
  | nil =>
    rw [bindFrom] at h
    cases h
    rw [bindFrom]
  | cons p ps ih =>
    obtain ⟨arg, rest, later, rfl, hlater, -⟩ := Composer.bindFrom_cons h
    rw [bindFrom, ih hlater]
    rfl

theorem Definition.bind_full {d : Definition} {args full : List TypeExpr} {bindings : Bindings}
    (h : d.bind args = .ok (bindings, full)) : d.bind full = .ok (bindings, full) := by
  have hfull := Composer.bindFrom_of_bind h
  exact Composer.bind_eq_ok.2 ⟨Nat.le_of_eq (length_bindFrom hfull), bindFrom_full hfull⟩

namespace Composer

variable {c : Composer} {i j k : Instantiation} {s t : ResolvedSchema} {label : String}

/-- **A completed instantiation is complete.** -/
theorem complete_key {d : Definition} {bindings : Bindings} {key : Instantiation}
    (h : c.complete i = .ok (d, bindings, key)) : c.complete key = .ok (d, bindings, key) := by
  obtain ⟨hlookup, hbind, hname⟩ := complete_eq_ok.1 h
  rw [← hname] at hlookup
  exact complete_eq_ok.2 ⟨hlookup, Definition.bind_full hbind, rfl⟩

theorem plan_key {p : Plan} (h : c.plan i = .ok p) : c.plan p.key = .ok p := by
  obtain ⟨d, hd, -⟩ := plan_eq_ok.1 h
  exact plan_of_key_eq (complete_key hd) h

/-- The schema of an instantiation is that of the instantiation it is for. -/
theorem derive_instantiation {height : Nat} (h : c.derive height i = some s) :
    c.derive height s.instantiation = some s := by
  obtain ⟨p, -, hp, -⟩ := derives_iff.1 ⟨height, h⟩
  have hplan : c.plan s.instantiation = c.plan i := by
    rw [Derives.instantiation_eq ⟨height, h⟩ hp, plan_key hp, hp]
  rw [derive_congr hplan, h]

theorem Derives.self (h : c.Derives i s) : c.Derives s.instantiation s := by
  obtain ⟨height, hheight⟩ := h
  exact ⟨height, derive_instantiation hheight⟩

/-- A derived schema is for what its name and its arguments are completed to. -/
theorem Derives.exists_complete (h : c.Derives i s) :
    ∃ d bindings, c.complete i = .ok (d, bindings, s.instantiation) := by
  obtain ⟨p, -, hp, -⟩ := derives_iff.1 h
  obtain ⟨d, hd, -⟩ := plan_eq_ok.1 hp
  rw [h.instantiation_eq hp]
  exact ⟨d, p.bindings, hd⟩

/-! ## Supertypes -/

/-- The second instantiation is a direct supertype of the first: a member of what that
composes names it, completed by its defaults. -/
def HasSupertype (c : Composer) (i j : Instantiation) : Prop :=
  ∃ p, c.plan i = .ok p ∧ ∃ member ∈ p.members, ∃ k, member.instantiation? = some k ∧
    ∃ d bindings, c.complete k = .ok (d, bindings, j)

/-- The second instantiation is reached from the first over direct supertypes, over none
if they are the same. -/
abbrev HasAncestor (c : Composer) : Instantiation → Instantiation → Prop :=
  Relation.ReflTransGen c.HasSupertype

/-- What the schema of a member is for is a direct supertype. -/
theorem hasSupertype_of_parent {height : Nat} {p : Plan} {parents : List ResolvedSchema}
    (hp : c.plan i = .ok p) (hparents : deriveEach (c.derive height) p.members = some parents)
    (ht : t ∈ parents) : c.HasSupertype i t.instantiation := by
  obtain ⟨k, ⟨member, hmember, hk⟩, hderive⟩ := exists_derive_of_mem hparents ht
  exact ⟨p, hp, member, hmember, k, hk, Derives.exists_complete ⟨height, hderive⟩⟩

/-- **Induction along supertypes.** Something holds of every derived schema if it holds of
each one that is combined from schemas of which it holds. -/
theorem Derives.induction {motive : ResolvedSchema → Prop}
    (step : ∀ p parents s, c.plan s.instantiation = .ok p → p.key = s.instantiation →
      p.combine parents = .ok s →
      (∀ t ∈ parents, c.HasSupertype s.instantiation t.instantiation ∧ motive t) → motive s)
    (h : c.Derives i s) : motive s := by
  obtain ⟨height, hheight⟩ := h
  induction height generalizing i s with
  | zero => simp [derive] at hheight
  | succ height ih =>
    obtain ⟨p, parents, hp, hparents, hs⟩ :=
      derive_succ_eq_some.1 (derive_instantiation hheight)
    have hkey : p.key = s.instantiation := by
      rw [Derives.instantiation_eq ⟨_, derive_instantiation hheight⟩ hp]
    refine step p parents s hp hkey hs ?_
    intro t ht
    obtain ⟨k, -, hk⟩ := exists_derive_of_mem hparents ht
    exact ⟨hasSupertype_of_parent hp hparents ht, ih hk⟩

/-- **Supertypes of a derived schema are derived below it**, and it extends them. -/
theorem exists_derive_of_supertype {height : Nat} (h : c.derive height i = some s)
    (hj : c.HasSupertype s.instantiation j) :
    ∃ below < height, ∃ t, c.derive below j = some t ∧ t.instantiation = j ∧ s.Extends t := by
  cases height with
  | zero => simp [derive] at h
  | succ height =>
    obtain ⟨p, parents, hp, hparents, hs⟩ := derive_succ_eq_some.1 (derive_instantiation h)
    obtain ⟨q, hq, member, hmember, k, hk, d, bindings, hd⟩ := hj
    rw [hp] at hq
    cases hq
    obtain ⟨t, ht, hderive⟩ := exists_derive_of_member hparents hmember hk
    -- what the member names is completed to one instantiation only
    have hinst : t.instantiation = j := by
      obtain ⟨d', bindings', hd'⟩ := Derives.exists_complete ⟨height, hderive⟩
      rw [hd] at hd'
      cases hd'
      rfl
    refine ⟨height, Nat.lt_succ_self _, t, ?_, hinst, Plan.combine_extends hs ht⟩
    rw [← hinst]
    exact derive_instantiation hderive

/-- **What a derived schema reaches is derived**, and the schema extends it. -/
theorem Derives.ancestor (h : c.Derives i s) (hj : c.HasAncestor s.instantiation j) :
    ∃ t, c.Derives j t ∧ t.instantiation = j ∧ s.Extends t := by
  induction hj with
  | refl => exact ⟨s, h.self, rfl, .refl s⟩
  | tail _ hsuper ih =>
    obtain ⟨t, ⟨height, ht⟩, rfl, hst⟩ := ih
    obtain ⟨below, -, u, hu, hinst, htu⟩ := exists_derive_of_supertype ht hsuper
    exact ⟨u, ⟨below, hu⟩, hinst, hst.trans htu⟩

/-- **The lineage of a derived schema** holds the labels of what it reaches. -/
theorem Derives.mem_lineage_iff (h : c.Derives i s) :
    label ∈ s.lineage ↔ ∃ j, c.HasAncestor s.instantiation j ∧ j.label = label := by
  constructor
  · -- a label is the own one, or a member has it
    refine h.induction (motive := fun s => label ∈ s.lineage →
      ∃ j, c.HasAncestor s.instantiation j ∧ j.label = label) ?_
    intro p parents s _ _ hs hparents hlabel
    rcases (Plan.mem_lineage hs).1 hlabel with hself | ⟨t, ht, hlabel⟩
    · exact ⟨s.instantiation, .refl, hself.symm⟩
    · obtain ⟨hsuper, ih⟩ := hparents t ht
      obtain ⟨j, hj, hlabel⟩ := ih hlabel
      exact ⟨j, .head hsuper hj, hlabel⟩
  · rintro ⟨j, hj, rfl⟩
    obtain ⟨t, ht, rfl, hst⟩ := h.ancestor hj
    exact hst.lineage _ ht.label_mem_lineage

/-! ## No way back -/

theorem exists_derive_of_transGen {height : Nat} (h : c.derive height i = some s)
    (hj : Relation.TransGen c.HasSupertype s.instantiation j) :
    ∃ below < height, ∃ t, c.derive below j = some t ∧ t.instantiation = j := by
  induction hj with
  | single hsuper =>
    obtain ⟨below, hbelow, t, ht, hinst, -⟩ := exists_derive_of_supertype h hsuper
    exact ⟨below, hbelow, t, ht, hinst⟩
  | tail _ hsuper ih =>
    obtain ⟨below, hbelow, t, ht, rfl⟩ := ih
    obtain ⟨lower, hlower, u, hu, hinst, -⟩ := exists_derive_of_supertype ht hsuper
    exact ⟨lower, by omega, u, hu, hinst⟩

/-- **Nothing that is derived is above itself**: it would be derived at smaller and
smaller heights. -/
theorem Derives.not_transGen (h : c.Derives i s) :
    ¬ Relation.TransGen c.HasSupertype s.instantiation s.instantiation := by
  obtain ⟨height, hheight⟩ := h
  induction height using Nat.strongRecOn generalizing i s with
  | ind height ih =>
    intro hcycle
    obtain ⟨below, hbelow, t, ht, hinst⟩ := exists_derive_of_transGen hheight hcycle
    rw [← hinst] at hcycle
    exact ih below hbelow ht hcycle

theorem Derives.ancestor_antisymm (h : c.Derives i s) (hj : c.HasAncestor s.instantiation j)
    (hback : c.HasAncestor j s.instantiation) : j = s.instantiation := by
  rcases Relation.reflTransGen_iff_eq_or_transGen.1 hj with heq | habove
  · exact heq
  · exact absurd (habove.trans_left hback) h.not_transGen

end Composer

/-! ## What is remembered -/

namespace Memo.ClosedFor

variable {c : Composer} {memo : Memo} {i j : Instantiation} {s : ResolvedSchema}

/-- A closed memo that knows an instantiation knows its supertypes. -/
theorem knows_supertype (h : memo.ClosedFor c) (hi : memo.Knows i) (hj : c.HasSupertype i j) :
    memo.Knows j := by
  obtain ⟨p, hp, member, hmember, k, hk, d, bindings, hd⟩ := hj
  -- the entry was made by a plan, and that is the plan of what it was entered under
  obtain ⟨i', q, hq, hkey⟩ := exists_plan h.derived hi
  have hqi := Composer.plan_key hq
  rw [hkey, hp] at hqi
  cases hqi
  rw [← hkey] at hi
  obtain ⟨k', hk', d', bindings', key, hd', hknows⟩ := h.members i p hp hi member hmember
  rw [hk] at hk'
  cases hk'
  rw [hd] at hd'
  cases hd'
  exact hknows

/-- **With a schema a closed memo knows all that it reaches.** -/
theorem knows_ancestor (h : memo.ClosedFor c) (hi : memo.Knows i) (hj : c.HasAncestor i j) :
    memo.Knows j := by
  induction hj with
  | refl => exact hi
  | tail _ hsuper ih => exact h.knows_supertype ih hsuper

end Memo.ClosedFor

end WidgetSchema
