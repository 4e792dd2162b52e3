/-
Lineage as an order on derived schemas.

The merge decides between two members by their labels: one descends from the
other if its lineage holds the other's label. That is an order as long as labels
name schemas, which `OwnsLabel` says of one schema: no other derived schema has
its label. Then a label in a lineage belongs to an ancestor, whose lineage and
whose fields the descendant has too (`lineage_subset`, `inherits`), and no two
schemas descend from each other (`lineage_antisymm`): an ancestor is derived at
a smaller height.

A label can only be shared through type arguments. A type without arguments owns
its label, unless its name looks like an applied one (`ownsLabel_of_args_nil`).
-/
import Mathlib.Data.Nat.Find
import WidgetSchema.Proofs.CombinedFields

set_option autoImplicit false

namespace WidgetSchema

/-- A schema has the whole lineage and all the fields of another one. -/
structure ResolvedSchema.Extends (s a : ResolvedSchema) : Prop where
  lineage : ∀ label ∈ a.lineage, label ∈ s.lineage
  fields : ∀ f, (a.fields.get? f).isSome → (s.fields.get? f).isSome

namespace ResolvedSchema.Extends

variable {s t a : ResolvedSchema}

theorem refl (s : ResolvedSchema) : s.Extends s := ⟨fun _ h => h, fun _ h => h⟩

theorem trans (hst : s.Extends t) (hta : t.Extends a) : s.Extends a :=
  ⟨fun label h => hst.lineage label (hta.lineage label h),
    fun f h => hst.fields f (hta.fields f h)⟩

end ResolvedSchema.Extends

/-- A combined schema extends each of its members. -/
theorem Plan.combine_extends {p : Plan} {parents : List ResolvedSchema} {s m : ResolvedSchema}
    (h : p.combine parents = .ok s) (hm : m ∈ parents) : s.Extends m where
  lineage _ hlabel := (Plan.mem_lineage h).2 (.inr ⟨m, hm, hlabel⟩)
  fields _ hsome := (Plan.combine_isSome h).2 (.inr ⟨m, hm, hsome⟩)

namespace Composer

variable {c : Composer} {i j : Instantiation} {s t a : ResolvedSchema} {label : String}

/-! ## Own labels -/

theorem Derives.label_mem_lineage (h : c.Derives i s) : s.label ∈ s.lineage := by
  obtain ⟨p, parents, -, -, hs⟩ := derives_iff.1 h
  exact (Plan.mem_lineage hs).2 (.inl rfl)

/-- No other derived schema has the label of this one. -/
def OwnsLabel (c : Composer) (s : ResolvedSchema) : Prop :=
  ∀ i t, c.Derives i t → t.label = s.label → t = s

/-- Schemas of one instantiation are one schema. -/
theorem Derives.eq_of_instantiation_eq (hs : c.Derives i s) (ht : c.Derives j t)
    (h : s.instantiation = t.instantiation) : s = t := by
  obtain ⟨p, -, hp, -⟩ := derives_iff.1 hs
  obtain ⟨q, -, hq, -⟩ := derives_iff.1 ht
  have hkey : p.key = q.key := by
    rw [← hs.instantiation_eq hp, ← ht.instantiation_eq hq, h]
  have hplan : c.plan i = c.plan j := by rw [hp, hq, plan_eq_of_key_eq hp hq hkey]
  obtain ⟨m, hm⟩ := hs
  refine Derives.unique (i := j) ⟨m, ?_⟩ ht
  rw [← derive_congr hplan m, hm]

/-- The text of an applied type has an opening parenthesis. -/
theorem paren_mem_label {name : String} {args : List TypeExpr} (h : args ≠ []) :
    '(' ∈ (TypeExpr.label name args).toList := by
  have hlabel : TypeExpr.label name args = (TypeExpr.generic name args).render := by
    unfold TypeExpr.label
    rw [if_neg (by simpa using h)]
  have hmark : Lexeme.mark .openParen ∈ (TypeExpr.generic name args).lexemes := by
    rw [TypeExpr.lexemes]
    simp
  have hparen : '(' ∈ (Lexeme.text (.mark .openParen)).toList := by decide
  rw [hlabel, TypeExpr.render, String.toList_join, List.mem_flatMap]
  exact ⟨_, List.mem_map_of_mem hmark, hparen⟩

theorem label_of_args_nil (h : s.instantiation.args = []) : s.label = s.instantiation.name := by
  unfold ResolvedSchema.label Instantiation.label TypeExpr.label
  rw [h]
  rfl

/-- A type without arguments owns its label. -/
theorem ownsLabel_of_args_nil (hs : c.Derives i s) (hargs : s.instantiation.args = [])
    (hname : '(' ∉ s.instantiation.name.toList) : c.OwnsLabel s := by
  intro j t ht hlabel
  rw [label_of_args_nil hargs] at hlabel
  have htargs : t.instantiation.args = [] := by
    by_contra hne
    have hparen : '(' ∈ t.label.toList := paren_mem_label hne
    rw [hlabel] at hparen
    exact hname hparen
  rw [label_of_args_nil htargs] at hlabel
  refine ht.eq_of_instantiation_eq hs ?_
  calc t.instantiation = ⟨t.instantiation.name, t.instantiation.args⟩ := rfl
    _ = ⟨s.instantiation.name, s.instantiation.args⟩ := by rw [hlabel, htargs, hargs]
    _ = s.instantiation := rfl

/-! ## Plain types

Types without parameters and tags, named by their definitions: what small tables
are made of. -/

/-- The table of plain types, each given by its name, its members and its fields
with their scalar kinds. -/
def ofPlainTypes (types : List (String × List String × List (String × String))) : Composer where
  registry :=
    { definitions := .ofList
        (types.map fun (name, members, fields) => (name, plain name members fields))
      frozen := true }
  maxDepth := 16
where
  plain (name : String) (members : List String) (fields : List (String × String)) : Definition :=
    .ofStruct
      { name
        fields := .ofList (fields.map fun (f, kind) =>
          (f, { expression := .primitive kind, tags := .empty, raw := kind }))
        supertype :=
          match members with
          | [] => none
          | [member] => some (.reference member)
          | _ => some (.intersection (members.map .reference))
        parameters := [] }

/-- The plan of a plain type that composes several members and declares nothing. -/
def sumPlan (name : String) (members : List String) : Plan where
  key := ⟨name, []⟩
  bindings := []
  parts := { supertype := some (.intersection (members.map .reference)), fields := .empty }

/-- The schema of a plain type. -/
def plainSchema (c : Composer) (name : String) (h : (c.derive 8 ⟨name, []⟩).isSome) :
    ResolvedSchema :=
  (c.derive 8 ⟨name, []⟩).get h

theorem derives_plainSchema {name : String} (h : (c.derive 8 ⟨name, []⟩).isSome) :
    c.Derives ⟨name, []⟩ (c.plainSchema name h) :=
  ⟨8, (Option.some_get h).symm⟩

theorem derivesEach_pair {name a b : String} (ha : c.Derives ⟨a, []⟩ s)
    (hb : c.Derives ⟨b, []⟩ t) : c.DerivesEach (sumPlan name [a, b]).members [s, t] :=
  .cons ⟨_, rfl, ha⟩ (.cons ⟨_, rfl, hb⟩ .nil)

theorem derivesEach_triple {name a b d : String} {u : ResolvedSchema}
    (ha : c.Derives ⟨a, []⟩ s) (hb : c.Derives ⟨b, []⟩ t) (hd : c.Derives ⟨d, []⟩ u) :
    c.DerivesEach (sumPlan name [a, b, d]).members [s, t, u] :=
  .cons ⟨_, rfl, ha⟩ (.cons ⟨_, rfl, hb⟩ (.cons ⟨_, rfl, hd⟩ .nil))

/-- The field of a scalar kind that a plain type declares, offered by it. -/
def plainOffer (kind : String) (holder : ResolvedSchema) : Contribution where
  field :=
    { expression := .primitive kind, tags := .empty, origin := holder.instantiation.name }
  holder := holder

/-! ## Ancestors -/

/-- Schemas derived at a height are each derived at that height, for a member. -/
theorem exists_derive_of_mem {height : Nat} {members : List TypeExpr}
    {parents : List ResolvedSchema} (h : deriveEach (c.derive height) members = some parents)
    (hs : s ∈ parents) :
    ∃ i, (∃ member ∈ members, member.instantiation? = some i) ∧ c.derive height i = some s := by
  rw [deriveEach_eq_some] at h
  induction h with
  | nil => cases hs
  | cons h _ ih =>
    obtain ⟨i, hmember, hi⟩ := h
    rcases List.mem_cons.1 hs with rfl | hs
    · exact ⟨i, ⟨_, List.mem_cons_self, hmember⟩, hi⟩
    · obtain ⟨j, ⟨member, hmem, hj⟩, hs⟩ := ih hs
      exact ⟨j, ⟨member, List.mem_cons_of_mem _ hmem, hj⟩, hs⟩

/-- Where all members are derived, each of them is. -/
theorem exists_derive_of_member {height : Nat} {members : List TypeExpr}
    {parents : List ResolvedSchema} (h : deriveEach (c.derive height) members = some parents)
    {member : TypeExpr} (hmember : member ∈ members) (hi : member.instantiation? = some i) :
    ∃ s ∈ parents, c.derive height i = some s := by
  rw [deriveEach_eq_some] at h
  induction h with
  | nil => cases hmember
  | cons hfirst _ ih =>
    rcases List.mem_cons.1 hmember with rfl | hrest
    · obtain ⟨k, hk, hs⟩ := hfirst
      rw [hi] at hk
      cases hk
      exact ⟨_, List.mem_cons_self, hs⟩
    · obtain ⟨s, hmem, hs⟩ := ih hrest
      exact ⟨s, List.mem_cons_of_mem _ hmem, hs⟩

theorem DerivesEach.mem {members : List TypeExpr} {parents : List ResolvedSchema}
    (h : c.DerivesEach members parents) (hs : s ∈ parents) : ∃ i, c.Derives i s := by
  obtain ⟨height, hheight⟩ := h.exists_height
  obtain ⟨i, -, hi⟩ := exists_derive_of_mem hheight hs
  exact ⟨i, height, hi⟩

/-- **A label in a lineage belongs to an ancestor.** The ancestor is the schema
itself or is derived below it, and the schema extends it. The induction is on the
height at which the schema is derived. -/
theorem exists_ancestor {height : Nat} (h : c.derive height i = some s)
    (hlabel : label ∈ s.lineage) :
    ∃ j a, c.Derives j a ∧ a.label = label ∧ s.Extends a ∧
      (a = s ∨ ∃ below < height, c.derive below j = some a) := by
  induction height generalizing i s with
  | zero => simp [derive] at h
  | succ height ih =>
    obtain ⟨p, parents, hp, hparents, hs⟩ := derive_succ_eq_some.1 h
    rcases (Plan.mem_lineage hs).1 hlabel with hself | ⟨m, hm, hlabel⟩
    · exact ⟨i, s, ⟨_, h⟩, hself.symm, .refl s, .inl rfl⟩
    · obtain ⟨k, -, hk⟩ := exists_derive_of_mem hparents hm
      obtain ⟨j, a, ha, hal, hext, hbelow⟩ := ih hk hlabel
      have hsm : s.Extends m := Plan.combine_extends hs hm
      rcases hbelow with rfl | ⟨below, hlt, hj⟩
      · exact ⟨k, a, ⟨_, hk⟩, hal, hsm, .inr ⟨height, Nat.lt_succ_self _, hk⟩⟩
      · exact ⟨j, a, ha, hal, hsm.trans hext, .inr ⟨below, by omega, hj⟩⟩

/-- **A descendant extends its ancestor.** -/
theorem extends_of_mem_lineage (hs : c.Derives i s) (ha : c.OwnsLabel a)
    (h : a.label ∈ s.lineage) : s.Extends a := by
  obtain ⟨height, hheight⟩ := hs
  obtain ⟨j, b, hb, hlabel, hext, -⟩ := exists_ancestor hheight h
  rw [ha j b hb hlabel] at hext
  exact hext

/-- The least height at which a schema is derived is smaller for a proper ancestor. -/
theorem exists_lower_ancestor {height : Nat} (hs : c.derive height i = some s)
    (ha : c.OwnsLabel a) (h : a.label ∈ s.lineage) (hne : a ≠ s) :
    ∃ below < height, ∃ j, c.derive below j = some a := by
  obtain ⟨j, b, hb, hlabel, -, hbelow⟩ := exists_ancestor hs h
  have hba : b = a := ha j b hb hlabel
  subst hba
  rcases hbelow with heq | ⟨below, hlt, hj⟩
  · exact absurd heq hne
  · exact ⟨below, hlt, j, hj⟩

/-- **No two schemas descend from each other.** Each would be derived below the
other, at smaller and smaller heights. -/
theorem lineage_antisymm (hs : c.Derives i s) (hos : c.OwnsLabel s) (hot : c.OwnsLabel t)
    (hst : s.label ∈ t.lineage) (hts : t.label ∈ s.lineage) : s = t := by
  by_contra hne
  -- from any height at which the one is derived, a smaller one is reached
  have hnone : ∀ height i, c.derive height i ≠ some s := by
    intro height
    induction height using Nat.strongRecOn with
    | ind height ih =>
      intro i hi
      obtain ⟨m, hm, j, hj⟩ := exists_lower_ancestor hi hot hts (Ne.symm hne)
      obtain ⟨n, hn, k, hk⟩ := exists_lower_ancestor hj hos hst hne
      exact ih n (by omega) k hk
  obtain ⟨height, hheight⟩ := hs
  exact hnone height i hheight

end Composer

end WidgetSchema
