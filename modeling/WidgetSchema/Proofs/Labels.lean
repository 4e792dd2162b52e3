/-
Labels name instantiations, and all that is composed can be read back.

The merge compares instantiations by their labels, so no two of them may be written alike.
A label is the text of a type name or of a type name with arguments, and such a text is
read as the expression it was written for if that is well-formed. So everything rests on
well-formed expressions staying well-formed: under substitution, since what is replaced is
a whole reference (`TypeExpr.WellFormed.substitute`); through defaults, which are read with
the arguments before them; and over supertypes, which name what is well-formed again
(`Composer.HasSupertype.isRead`). The fields are well-formed because each is a declaration
(`Derives.exists_declaration`).

The arguments that a request gives have to be well-formed as well, as results of reading
are; nothing checks that.
-/
import WidgetSchema.Proofs.FieldDeclarations

set_option autoImplicit false

namespace WidgetSchema

/-! ## Expressions that were read -/

namespace TypeExpr

variable {e e' : TypeExpr} {bindings : Bindings}

/-- Some text is read as the expression. -/
def IsRead (e : TypeExpr) : Prop := ∃ raw, parse raw = .ok e

/-- What can be read is what is well-formed, by the theorem about parsing and rendering. -/
theorem isRead_iff : e.IsRead ↔ e.WellFormed := by
  constructor
  · rintro ⟨raw, hraw⟩
    exact wellFormed_of_parse hraw
  · intro h
    exact ⟨e.render, parse_render h⟩

/-- A rendered expression is read back. -/
theorem IsRead.parse_render (h : e.IsRead) : parse e.render = .ok e :=
  TypeExpr.parse_render (isRead_iff.1 h)

mutual
/-- **Replacing references by well-formed expressions leaves an expression well-formed.** -/
theorem WellFormed.substitute (hbindings : ∀ p ∈ bindings, p.2.WellFormed) :
    (e : TypeExpr) → e.WellFormed → (e.substitute bindings).WellFormed
  | primitive _, h | literal _, h | enumSet _, h => by
    rw [TypeExpr.substitute]
    exact h
  | reference name, h => by
    rw [TypeExpr.substitute]
    cases hl : bindings.lookup name with
    | none => exact h
    | some e =>
      exact hbindings (name, e) (mem_of_lookup hl)
  | generic base args, h => by
    rw [WellFormed] at h
    rw [TypeExpr.substitute, WellFormed, substituteAll_eq, List.length_map, ← substituteAll_eq]
    exact ⟨h.1, h.2.1, WellFormedEach.substituteAll hbindings args h.2.2⟩
  | union members, h => by
    rw [WellFormed] at h
    rw [TypeExpr.substitute, WellFormed, substituteAll_eq, List.length_map, ← substituteAll_eq]
    exact ⟨h.1, WellFormedEach.substituteAll hbindings members h.2⟩
  | intersection members, h => by
    rw [WellFormed] at h
    rw [TypeExpr.substitute, WellFormed, substituteAll_eq, List.length_map, ← substituteAll_eq]
    exact ⟨h.1, WellFormedEach.substituteAll hbindings members h.2⟩
  | optional inner, h => by
    rw [WellFormed] at h
    rw [TypeExpr.substitute, WellFormed]
    exact WellFormed.substitute hbindings inner h
  | sequence inner, h => by
    rw [WellFormed] at h
    rw [TypeExpr.substitute, WellFormed]
    exact WellFormed.substitute hbindings inner h
  | mapping inner, h => by
    rw [WellFormed] at h
    rw [TypeExpr.substitute, WellFormed]
    exact WellFormed.substitute hbindings inner h

/-- The same for all expressions of a list. -/
theorem WellFormedEach.substituteAll (hbindings : ∀ p ∈ bindings, p.2.WellFormed) :
    (es : List TypeExpr) → WellFormedEach es →
      WellFormedEach (TypeExpr.substituteAll bindings es)
  | [], h => h
  | e :: es, h => by
    rw [WellFormedEach] at h
    rw [TypeExpr.substituteAll, WellFormedEach]
    exact ⟨WellFormed.substitute hbindings e h.1, WellFormedEach.substituteAll hbindings es h.2⟩
end

/-- Operands of well-formed expressions are well-formed. -/
theorem WellFormed.operand (h : e.WellFormed) (hmem : e' ∈ e.operands) : e'.WellFormed := by
  cases e with
  | intersection members =>
    rw [WellFormed] at h
    exact wellFormedEach_iff.1 h.2 e' hmem
  | _ =>
    obtain rfl := List.mem_singleton.1 hmem
    exact h

/-- An expression that names an instantiation is well-formed with its arguments. -/
theorem WellFormed.args {i : Instantiation} (h : e.WellFormed) (hi : e.instantiation? = some i) :
    ∀ arg ∈ i.args, arg.WellFormed := by
  cases e with
  | reference name =>
    cases hi
    exact List.forall_mem_nil _
  | generic base args =>
    cases hi
    rw [WellFormed] at h
    exact wellFormedEach_iff.1 h.2.2
  | _ => cases hi

end TypeExpr

/-! ## Instantiations and their labels -/

namespace Instantiation

variable {i j : Instantiation}

/-- The expression for an instantiation: its name, applied to its arguments if it has any. -/
def expression (i : Instantiation) : TypeExpr :=
  if i.args.isEmpty then .reference i.name else .generic i.name i.args

/-- An instantiation is labelled with the text of its expression. -/
theorem label_eq_render (i : Instantiation) : i.label = i.expression.render := by
  unfold label TypeExpr.label expression
  split
  · simp [TypeExpr.render, TypeExpr.lexemes, Lexeme.text]
  · rfl

/-- Two instantiations with one expression are equal: without arguments it is a name, with arguments
it is not. -/
theorem expression_injective (h : i.expression = j.expression) : i = j := by
  obtain ⟨name, args⟩ := i
  obtain ⟨name', args'⟩ := j
  unfold expression at h
  dsimp only at h
  split at h
  · next hargs =>
    split at h
    · next hargs' =>
      cases h
      rw [List.isEmpty_iff.1 hargs, List.isEmpty_iff.1 hargs']
    · cases h
  · split at h
    · cases h
    · cases h
      rfl

/-- The expression of an instantiation can be read if its name and its arguments can. -/
theorem wellFormed_expression : i.expression.WellFormed ↔
    Registry.isTypeName i.name = true ∧ ∀ arg ∈ i.args, arg.WellFormed := by
  have hname : Registry.isTypeName i.name = true ↔
      Name.isQualified i.name = true ∧ isPrimitiveName i.name = false := by
    rw [Registry.isTypeName, Bool.and_eq_true, Bool.not_eq_true']
  unfold expression
  split
  · next hargs =>
    rw [TypeExpr.WellFormed, hname, List.isEmpty_iff.1 hargs]
    simp
  · next hargs =>
    have hlength : 1 ≤ i.args.length := by
      rw [List.isEmpty_iff] at hargs
      exact List.length_pos_iff.2 hargs
    rw [TypeExpr.WellFormed, hname, TypeExpr.wellFormedEach_iff]
    simp [hlength]

/-- The instantiation is one that a text can ask for. -/
def IsRead (i : Instantiation) : Prop := i.expression.IsRead

theorem isRead_iff :
    i.IsRead ↔ Registry.isTypeName i.name = true ∧ ∀ arg ∈ i.args, arg.IsRead := by
  unfold IsRead
  simp only [TypeExpr.isRead_iff, wellFormed_expression]

/-- **A label is read as the instantiation that it stands for.** -/
theorem IsRead.parse_label (h : i.IsRead) : TypeExpr.parse i.label = .ok i.expression := by
  rw [label_eq_render]
  exact TypeExpr.IsRead.parse_render h

/-- **No two instantiations have one label.** -/
theorem IsRead.eq_of_label (hi : i.IsRead) (hj : j.IsRead) (h : i.label = j.label) : i = j := by
  have hread := hi.parse_label
  rw [h, hj.parse_label, Except.ok.injEq] at hread
  exact expression_injective hread.symm

end Instantiation

/-! ## Resolution -/

/-- The schema, where a type name resolves to one. -/
def Resolved.schema? : Resolved → Option ResolvedSchema
  | schema s => some s
  | expression _ => none

/-- Defaults and arguments that are well-formed complete each other to well-formed
arguments. -/
theorem bindFrom_wellFormed {ps : List GenericParameter} {args full : List TypeExpr}
    {before bindings : Bindings} (h : bindFrom before ps args = .ok (bindings, full))
    (hbefore : ∀ p ∈ before, p.2.WellFormed) (hargs : ∀ arg ∈ args, arg.WellFormed)
    (hdefaults : ∀ p ∈ ps, ∀ e ∈ p.default, e.WellFormed) :
    (∀ p ∈ bindings, p.2.WellFormed) ∧ ∀ arg ∈ full, arg.WellFormed := by
  induction ps generalizing args full before with
  | nil =>
    rw [bindFrom] at h
    cases h
    exact ⟨hbefore, List.forall_mem_nil _⟩
  | cons p ps ih =>
    obtain ⟨arg, rest, later, rfl, hlater, hfrom⟩ := Composer.bindFrom_cons h
    obtain ⟨hdefault, hdefaults⟩ := List.forall_mem_cons.1 hdefaults
    -- the argument is given, or it is the default with the arguments before it put in
    have harg : arg.WellFormed ∧ ∀ other ∈ rest, other.WellFormed := by
      rcases hfrom with rfl | ⟨-, rfl, e, he, rfl⟩
      · exact List.forall_mem_cons.1 hargs
      · exact ⟨(hdefault e he).substitute hbefore, List.forall_mem_nil _⟩
    obtain ⟨hbindings, hfull⟩ :=
      ih hlater (List.forall_mem_cons.2 ⟨harg.1, hbefore⟩) harg.2 hdefaults
    exact ⟨hbindings, List.forall_mem_cons.2 ⟨harg.1, hfull⟩⟩

namespace Composer

variable {c : Composer} {i j : Instantiation} {s : ResolvedSchema} {f : String}
  {x : ResolvedField}

/-- What completes an instantiation is well-formed with it, and so is whatever the
definition composes or stands for. -/
theorem complete_wellFormed (hr : c.registry.Writable) {d : Definition} {bindings : Bindings}
    {key : Instantiation} (hd : c.complete i = .ok (d, bindings, key))
    (hargs : ∀ arg ∈ i.args, arg.WellFormed) :
    key.expression.WellFormed ∧ ∀ e ∈ d.bodyExpressions, (e.substitute bindings).WellFormed := by
  obtain ⟨hlookup, hbind, hname⟩ := complete_eq_ok.1 hd
  obtain ⟨htype, hwritable⟩ := hr.lookup hlookup
  have hdefaults : ∀ p ∈ d.parameters, ∀ e ∈ p.default, e.WellFormed := by
    intro p hp e he
    apply hwritable.expressions e
    exact List.mem_append_left _ (List.mem_filterMap.2 ⟨p, hp, he⟩)
  obtain ⟨hbindings, hfull⟩ :=
    bindFrom_wellFormed (bindFrom_of_bind hbind) (List.forall_mem_nil _) hargs hdefaults
  constructor
  · rw [Instantiation.wellFormed_expression, hname]
    exact ⟨htype, hfull⟩
  · intro e he
    exact (hwritable.expressions e (List.mem_append_right _ he)).substitute hbindings

/-- **Supertypes of what can be read can be read.** -/
theorem HasSupertype.isRead (hr : c.registry.Writable) (hi : i.IsRead)
    (h : c.HasSupertype i j) : j.IsRead := by
  obtain ⟨p, hp, member, hmember, k, hk, d, bindings, hd⟩ := h
  obtain ⟨d', hd', hparts⟩ := plan_eq_ok.1 hp
  have hargs := (Instantiation.wellFormed_expression.1 (TypeExpr.isRead_iff.1 hi)).2
  obtain ⟨e, he, hoperand⟩ := exists_body_of_member hparts hmember
  have hwell : member.WellFormed := ((complete_wellFormed hr hd' hargs).2 e he).operand hoperand
  exact TypeExpr.isRead_iff.2 (complete_wellFormed hr hd (hwell.args hk)).1

/-- Ancestors of what can be read can be read, if the definitions were. -/
theorem HasAncestor.isRead (hr : c.registry.Writable) (hi : i.IsRead)
    (h : c.HasAncestor i j) : j.IsRead := by
  induction h with
  | refl => exact hi
  | tail _ hsuper ih => exact HasSupertype.isRead hr ih hsuper

/-- So can the instantiation of a schema. -/
theorem Derives.isRead (hr : c.registry.Writable) (h : c.Derives i s)
    (hargs : ∀ arg ∈ i.args, arg.IsRead) : s.instantiation.IsRead := by
  obtain ⟨d, bindings, hd⟩ := h.exists_complete
  exact TypeExpr.isRead_iff.2
    (complete_wellFormed hr hd fun arg harg => TypeExpr.isRead_iff.1 (hargs arg harg)).1

/-- **Fields of what can be read can be read**, because each is a declaration of
something above. -/
theorem Derives.field_isRead (hr : c.registry.Writable) (h : c.Derives i s)
    (hi : s.instantiation.IsRead) (hx : s.fields.get? f = some x) : x.expression.IsRead := by
  -- what is put into the declared type are the arguments of what declares it
  obtain ⟨j, hj, d, fd, hlookup, hfd, -, hexpression, -⟩ := h.exists_declaration hr hx
  have hargs := (Instantiation.isRead_iff.1 (HasAncestor.isRead hr hi hj)).2
  rw [hexpression, TypeExpr.isRead_iff]
  apply TypeExpr.WellFormed.substitute
  · intro p hp
    exact TypeExpr.isRead_iff.1 (hargs p.2 (List.of_mem_zip hp).2)
  · apply (hr.lookup hlookup).2.expressions
    have hfield : fd ∈ d.fields.values := List.mem_map_of_mem (OrderedMap.get?_eq_some.1 hfd)
    exact List.mem_append_right _ (List.mem_append_right _ (List.mem_map_of_mem hfield))

/-- A registered name with arguments that were read. -/
structure Readable (c : Composer) (j : Instantiation) : Prop where
  name : j.name ∈ c.registry.names
  args : ∀ arg ∈ j.args, arg.IsRead

/-- All that is reached from arguments that can be read can be read. -/
theorem Readable.isRead (hr : c.registry.Writable) (h : c.Readable j) : j.IsRead := by
  obtain ⟨d, hd⟩ := Registry.mem_names.1 h.name
  exact Instantiation.isRead_iff.2 ⟨(hr.lookup hd).1, h.args⟩

/-- What is reached over supertypes can be read, and is registered. -/
theorem Derives.readable_ancestor (hr : c.registry.Writable) (h : c.Derives i s)
    (hargs : ∀ arg ∈ i.args, arg.IsRead) (hj : c.HasAncestor s.instantiation j) :
    c.Readable j := by
  obtain ⟨t, ht, -⟩ := h.ancestor hj
  obtain ⟨d, bindings, hd⟩ := ht.exists_complete
  have hread := HasAncestor.isRead hr (h.isRead hr hargs) hj
  exact ⟨Registry.mem_names.2 ⟨d, (complete_eq_ok.1 hd).1⟩, (Instantiation.isRead_iff.1 hread).2⟩

end Composer

namespace Session

/-- **What the composer writes can be read back.** After any calls on a new session in
which raw entries only are registered, let a name be resolved with arguments that were
read. If that gives a schema, the types of its fields and its arguments are read from their
texts, and each label in its lineage is that of an instantiation which it reaches over
supertypes, and is read as that instantiation. If it gives an expression, that is read from
its text. And no two instantiations of registered names with arguments that were read have
one label. -/
theorem written_is_read_back (env : Environment) (maxDepth : Option Int) (prelude : Bool)
    (history : List Call) (hraw : ∀ call ∈ history, call.IsRaw) (i : Instantiation)
    (hargs : ∀ arg ∈ i.args, arg.IsRead) :
    let s := (opened env maxDepth prelude).after history
    (∀ q, ((resolve i).run s).outcome = .ok (.schema q) →
      (∀ f x, q.fields.get? f = some x →
        TypeExpr.parse x.expression.render = .ok x.expression) ∧
      (∀ arg ∈ q.instantiation.args, TypeExpr.parse arg.render = .ok arg) ∧
      ∀ label ∈ q.lineage, ∃ j, s.composer.HasAncestor q.instantiation j ∧
        s.composer.Readable j ∧ j.label = label ∧ TypeExpr.parse label = .ok j.expression) ∧
    (∀ e, ((resolve i).run s).outcome = .ok (.expression e) →
      TypeExpr.parse e.render = .ok e) ∧
    ∀ j k, s.composer.Readable j → s.composer.Readable k → j.label = k.label → j = k := by
  intro s
  have hr : s.composer.registry.Writable := writable_after env maxDepth prelude hraw
  have hsound : s.memo.SoundFor s.composer := lasting_soundFor.after env maxDepth prelude history
  have hdenotes {r : Resolved} (h : ((resolve i).run s).outcome = .ok r) :
      s.composer.Denotes i r := (Composer.resolve_denotes hsound).2 r (outcome_resolving.1 h)
  refine ⟨?_, ?_, ?_⟩
  · intro q hq
    cases hdenotes hq with
    | schema _ _ hderives =>
      -- the instantiation was read, and so was all that is made of it by substitution
      have hread := hderives.isRead hr hargs
      refine ⟨?_, ?_, ?_⟩
      · intro f x hx
        exact (hderives.field_isRead hr hread hx).parse_render
      · intro arg harg
        exact ((Instantiation.isRead_iff.1 hread).2 arg harg).parse_render
      · intro label hlabel
        obtain ⟨j, hj, rfl⟩ := hderives.mem_lineage_iff.1 hlabel
        have hreadable := hderives.readable_ancestor hr hargs hj
        exact ⟨j, hj, hreadable, rfl, (hreadable.isRead hr).parse_label⟩
  · intro e he
    cases hdenotes he with
    | expression hd hplain =>
      have hbody := (Composer.complete_wellFormed hr hd fun arg harg =>
        TypeExpr.isRead_iff.1 (hargs arg harg)).2
      exact TypeExpr.parse_render (hbody _ (Composer.plainExpression_body hplain))
  · intro j k hj hk hlabel
    exact (hj.isRead hr).eq_of_label (hk.isRead hr) hlabel

/-- A struct with a default that stands for its first argument, over a struct that is
applied to a sequence of it, and an alias of an expression. -/
def pairOverBox : List Call :=
  [.register "Box" (.table [(.text "$macro", .atom (.text "T")),
      (.text "content", .atom (.text "T?"))]),
   .register "Pair" (.table [(.text "$macro", .list [.atom (.text "A"),
      .atom (.text "B=<A>|string")]), (.text "$super", .atom (.text "Box([A])")),
      (.text "other", .atom (.text "B?"))]),
   .register "Maybe" (.atom (.text "Box(number)|string"))]

/-- The pair of a union has the union in its label and in the label of the box, each
time with the marks that let it be read back. -/
theorem pair_is_read_back :
    let s := (opened .empty none false).after pairOverBox
    ∃ q, ((resolve ⟨"Pair", [.union [.reference "Maybe", .primitive "number"]]⟩).run s).outcome =
        .ok (.schema q) ∧
      q.lineage.toList =
        ["Box([Maybe|number])", "Pair(Maybe|number,<Maybe|number>|string)"] ∧
      (∀ f x, q.fields.get? f = some x →
        TypeExpr.parse x.expression.render = .ok x.expression) ∧
      ∀ label ∈ q.lineage, ∃ j, s.composer.HasAncestor q.instantiation j ∧
        s.composer.Readable j ∧ j.label = label ∧ TypeExpr.parse label = .ok j.expression := by
  intro s
  have hraw : ∀ call ∈ pairOverBox, call.IsRaw := by decide
  have hargs : ∀ arg ∈ [TypeExpr.union [.reference "Maybe", .primitive "number"]],
      arg.IsRead := by
    intro arg harg
    rw [List.mem_singleton.1 harg]
    exact ⟨"Maybe|number", by decide +kernel⟩
  have hlabels : (((resolve ⟨"Pair",
      [.union [.reference "Maybe", .primitive "number"]]⟩).run s).outcome.toOption.map fun r =>
        r.schema?.map fun q => q.lineage.toList) =
      some (some ["Box([Maybe|number])", "Pair(Maybe|number,<Maybe|number>|string)"]) := by
    decide +kernel
  obtain ⟨r, hr, hlabels⟩ := exists_of_toOption_map hlabels
  have hback := written_is_read_back .empty none false pairOverBox hraw ⟨"Pair", _⟩ hargs
  cases r with
  | expression e => cases hlabels
  | schema q =>
    obtain ⟨hfields, -, hlineage⟩ := hback.1 q hr
    exact ⟨q, hr, Option.some.inj hlabels, hfields, hlineage⟩

end Session

end WidgetSchema
