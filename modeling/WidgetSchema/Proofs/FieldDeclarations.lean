/-
Every field of a schema is one declaration.

A field passes through merges and overrides, and it may be found in the memo; but it is
only ever handed on as a whole. So what a schema shows under a name was made by one struct
type that it reaches over supertypes: from what that type declares under the name, with
its parameters replaced by its arguments (`Derives.exists_declaration`).

Type, tags and origin therefore belong together. Parameters are replaced as the declaration
reads them, each by the argument at its place; where two parameters had one name the last
of them would count, and raw entries declare no such types.
-/
import Mathlib.Data.List.Nodup
import WidgetSchema.Proofs.RawEntries
import WidgetSchema.Proofs.Supertypes

set_option autoImplicit false

namespace WidgetSchema

/-- Where no key stands twice, the order of entries does not matter to a lookup. -/
theorem lookup_reverse {α : Type} {entries : List (String × α)}
    (h : (entries.map Prod.fst).Nodup) (key : String) :
    entries.reverse.lookup key = entries.lookup key := by
  have hreverse : (entries.reverse.map Prod.fst).Nodup := by
    rw [List.map_reverse]
    exact List.nodup_reverse.2 h
  apply Option.ext
  intro value
  calc entries.reverse.lookup key = some value
      ↔ (key, value) ∈ entries.reverse := OrderedMap.get?_eq_some (m := ⟨_, hreverse⟩)
    _ ↔ (key, value) ∈ entries := List.mem_reverse
    _ ↔ entries.lookup key = some value := (OrderedMap.get?_eq_some (m := ⟨_, h⟩)).symm

/-! ## Declarations -/

namespace Composer

variable {c : Composer} {i j : Instantiation} {s : ResolvedSchema} {f : String}
  {x : ResolvedField}

/-- The field is declared by the instantiation itself: that is one of a struct type, with
an argument for each parameter, and the field has the declared type with the parameters
replaced by the arguments, the declared tags, and the type as its origin. -/
def DeclaresField (c : Composer) (j : Instantiation) (f : String) (x : ResolvedField) : Prop :=
  ∃ d fd, c.registry.lookup j.name = .ok (.ofStruct d) ∧ d.fields.get? f = some fd ∧
    j.args.length = d.parameters.length ∧
    x.expression = fd.expression.substitute
      ((d.parameters.map GenericParameter.name).zip j.args) ∧
    x.tags = fd.tags ∧ x.origin = j.name

/-- **An own field is declared by its type.** -/
theorem declaresField_ownField (hr : c.registry.Writable) {p : Plan} (hp : c.plan i = .ok p)
    {fd : FieldDef} (hfd : p.parts.fields.get? f = some fd) :
    c.DeclaresField p.key f (ownField p.key.name p.bindings fd) := by
  obtain ⟨d, hd, hparts⟩ := plan_eq_ok.1 hp
  obtain ⟨hlookup, hbind, hname⟩ := complete_eq_ok.1 hd
  rw [← hname] at hlookup
  have hlength : p.key.args.length = d.parameters.length := length_bindFrom (bindFrom_of_bind hbind)
  cases d with
  | ofAlias d =>
    -- an alias composes no fields of its own
    simp only [Definition.composition] at hparts
    split at hparts
    · rw [← Except.ok.inj hparts] at hfd
      cases hfd
    · cases hparts
  | ofStruct d =>
    rw [← Except.ok.inj hparts] at hfd
    refine ⟨d, fd, hlookup, hfd, hlength, ?_, rfl, rfl⟩
    -- parameters are bound last first, which matters only where two have one name
    have hnodup : (((d.parameters.map GenericParameter.name).zip p.key.args).map
        Prod.fst).Nodup := by
      have hle : (d.parameters.map GenericParameter.name).length ≤ p.key.args.length := by
        rw [List.length_map, hlength]
        exact Nat.le_refl _
      rw [List.map_fst_zip hle]
      exact (hr.lookup hlookup).2.parameters
    show fd.expression.substitute p.bindings = _
    rw [bind_eq_zip hbind]
    exact TypeExpr.substitute_congr [] (fun n _ => lookup_reverse hnodup n) fd.expression
      fun n _ => lookup_reverse hnodup n

/-- **Every field is declared by what the schema reaches.** The induction is along
supertypes: a field is an own one, or the whole field of a member. -/
theorem Derives.exists_declaration (hr : c.registry.Writable) (h : c.Derives i s)
    (hx : s.fields.get? f = some x) :
    ∃ j, c.HasAncestor s.instantiation j ∧ c.DeclaresField j f x := by
  refine h.induction (motive := fun s => ∀ x, s.fields.get? f = some x →
    ∃ j, c.HasAncestor s.instantiation j ∧ c.DeclaresField j f x) ?_ x hx
  intro p parents s hp hkey hs hparents x hx
  rcases Plan.combine_field hs hx with ⟨fd, hfd, rfl⟩ | ⟨t, ht, hx⟩
  · refine ⟨s.instantiation, .refl, ?_⟩
    rw [← hkey]
    exact declaresField_ownField hr hp hfd
  · obtain ⟨hsuper, ih⟩ := hparents t ht
    obtain ⟨j, hj, hdeclares⟩ := ih x hx
    exact ⟨j, .head hsuper hj, hdeclares⟩

end Composer

namespace Session

/-- **Every resolved field comes from one declaration.** After any calls on a new session
in which raw entries only are registered, each field of a schema that is returned is
declared by an instantiation of a struct type that the schema reaches over supertypes and
whose label is in its lineage: the type is the declared one with the parameters replaced by
the arguments of that instantiation, the tags are the declared ones, and the origin is
that type. -/
theorem field_has_declaration (env : Environment) (maxDepth : Option Int) (prelude : Bool)
    (history : List Call) (hraw : ∀ call ∈ history, call.IsRaw) (i : Instantiation) :
    let s := (opened env maxDepth prelude).after history
    ∀ q, ((resolveStruct i).run s).outcome = .ok q → ∀ f x, q.fields.get? f = some x →
      ∃ j, j.label ∈ q.lineage ∧ s.composer.HasAncestor q.instantiation j ∧
        s.composer.DeclaresField j f x := by
  intro s q hq f x hx
  have hwritable : s.composer.registry.Writable := writable_after env maxDepth prelude hraw
  have hsound : s.memo.SoundFor s.composer := lasting_soundFor.after env maxDepth prelude history
  have hderives : s.composer.Derives i q :=
    Composer.resolveStruct_derives hsound.schemas (outcome_resolving.1 hq)
  obtain ⟨j, hj, hdeclares⟩ := hderives.exists_declaration hwritable hx
  exact ⟨j, hderives.mem_lineage_iff.2 ⟨j, hj, rfl⟩, hj, hdeclares⟩

/-- A struct with a parameter, and one that has it above it twice, once through an alias. -/
def boxedRange : List Call :=
  [.register "Range" (.table [(.text "$macro", .list [.atom (.text "T=number")]),
      (.text "low", .atom (.text "T @event=client")), (.text "high", .atom (.text "T?"))]),
   .register "Sized" (.table [(.text "size", .atom (.text "number"))]),
   .register "Both" (.atom (.text "Range+Sized")),
   .register "Box" (.table [(.text "$super", .atom (.text "Both+Range(number)")),
      (.text "high", .atom (.text "string"))]),
   .resolve ⟨"Both", []⟩]

/-- The box overrides one field and inherits the other two. Each of the three is declared
by a type that it reaches. -/
theorem boxedRange_declares :
    let s := (opened .empty none false).after boxedRange
    ∃ q, ((resolveStruct ⟨"Box", []⟩).run s).outcome = .ok q ∧
      q.fields.keys = ["low", "size", "high"] ∧
      ∀ f x, q.fields.get? f = some x →
        ∃ j, j.label ∈ q.lineage ∧ s.composer.HasAncestor q.instantiation j ∧
          s.composer.DeclaresField j f x := by
  intro s
  have hraw : ∀ call ∈ boxedRange, call.IsRaw := by decide
  have hkeys : (((resolveStruct ⟨"Box", []⟩).run s).outcome.toOption.map
      fun q => q.fields.keys) = some ["low", "size", "high"] := by decide +kernel
  obtain ⟨q, hq, hfields⟩ := exists_of_toOption_map hkeys
  exact ⟨q, hq, hfields,
    field_has_declaration .empty none false boxedRange hraw ⟨"Box", []⟩ q hq⟩

end Session

end WidgetSchema
