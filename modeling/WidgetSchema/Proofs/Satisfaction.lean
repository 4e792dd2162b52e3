/-
When a value satisfies a type, said without running a check.

`Satisfies` is the rule for each kind of type, by recursion on the type, on the
names it unfolds and on the value: no path, no list of failures, no containers
being visited and no bound. It is the least such relation, so an alias that
unfolds to itself for ever is satisfied by nothing.

It speaks of values with nothing absent in them (`Whole`). The one place where
absence counts is a field that a dictionary does not have: its type has to admit
absence, and whether it does is what the test of the composer answers.
-/
import WidgetSchema.Proofs.NameDenotation

set_option autoImplicit false

namespace WidgetSchema

/-! ## Whole values -/

section Whole

variable {A : Type}

/-- The values that stand in a container. -/
def Container.parts : Container A → List (Value A)
  | list items | tuple items => items
  | dict entries => entries.map Prod.snd

/-- What is found under a key stands among the entries. -/
theorem Container.entry?_mem {entries : List (Scalar × Value A)} {key : String} {v : Value A}
    (h : entry? entries key = some v) : ∃ k, (k, v) ∈ entries := by
  obtain ⟨entry, hentry, rfl⟩ := Option.map_eq_some_iff.1 h
  exact ⟨entry.1, List.mem_of_find?_eq_some hentry⟩

namespace Value

/-- The value itself, and whatever stands in a container that it has as a part. -/
inductive HasPart (heap : Heap A) (v : Value A) : Value A → Prop
  | self : HasPart heap v v
  | inside {p : A} {w : Value A} (hp : HasPart heap v (.container p))
      (hw : w ∈ (heap p).parts) : HasPart heap v w

/-- The value is there, and no container in it holds an absent value. -/
def Whole (heap : Heap A) (v : Value A) : Prop := ∀ w, v.HasPart heap w → w.isAbsent = false

variable {heap : Heap A} {v w x : Value A} {p : A}

/-- A part of a part is a part. -/
theorem HasPart.trans (hv : v.HasPart heap w) (hw : w.HasPart heap x) : v.HasPart heap x := by
  induction hw with
  | self => exact hv
  | inside _ hmem ih => exact .inside ih hmem

/-- A value without absent parts is not absent itself. -/
theorem Whole.present (h : v.Whole heap) : v.isAbsent = false := h v .self

/-- It is enough that no container of the heap holds an absent value. -/
theorem Whole.of_heap (hv : v.isAbsent = false)
    (h : ∀ p, ∀ w ∈ (heap p).parts, w.isAbsent = false) : v.Whole heap := by
  intro w hw
  cases hw with
  | self => exact hv
  | inside _ hmem => exact h _ _ hmem

/-- Its parts are without absent parts. -/
theorem Whole.part (h : (container p).Whole heap) (hw : w ∈ (heap p).parts) : w.Whole heap := by
  intro x hx
  have hpart : (container p).HasPart heap w := .inside .self hw
  exact h x (hpart.trans hx)

end Value

end Whole

/-! ## Satisfaction -/

namespace Composer

section

variable {A : Type}

/-- Asked with a memo that holds right answers only, the test for absence says
that no value satisfies the expression. -/
def AdmitsAbsence (c : Composer) (e : TypeExpr) : Prop :=
  ∃ memo, memo.SoundFor c ∧ ((c.admitsAbsence e).run memo).outcome = .ok true

/-- A value satisfies a schema or an expression. -/
inductive Satisfies (c : Composer) (heap : Heap A) : Value A → Resolved → Prop
  | boolean {b : Bool} : Satisfies c heap (.atom (.bool b)) (.expression (.primitive "boolean"))
  | int {n : Int} : Satisfies c heap (.atom (.int n)) (.expression (.primitive "number"))
  | float {x : Binary64} : Satisfies c heap (.atom (.float x)) (.expression (.primitive "number"))
  /-- A text is of any other kind but the empty one; only `string` is such a kind in
  expressions that were read. -/
  | text {t kind : String} (h : kind ∉ ["boolean", "number", "none"]) :
      Satisfies c heap (.atom (.text t)) (.expression (.primitive kind))
  /-- A text with a surrogate that stands alone is a text. -/
  | unpaired {t : UnpairedText} {kind : String} (h : kind ∉ ["boolean", "number", "none"]) :
      Satisfies c heap (.atom (.unpaired t)) (.expression (.primitive kind))
  | literal {t : String} : Satisfies c heap (.atom (.text t)) (.expression (.literal t))
  | enumSet {t : String} {values : LiteralSet} (h : t ∈ values) :
      Satisfies c heap (.atom (.text t)) (.expression (.enumSet values))
  | optional {v : Value A} {e : TypeExpr} (h : Satisfies c heap v (.expression e)) :
      Satisfies c heap v (.expression (.optional e))
  | sequence {p : A} {items : List (Value A)} {e : TypeExpr}
      (hp : heap p = .list items ∨ heap p = .tuple items)
      (h : ∀ w ∈ items, Satisfies c heap w (.expression e)) :
      Satisfies c heap (.container p) (.expression (.sequence e))
  | mapping {p : A} {entries : List (Scalar × Value A)} {e : TypeExpr}
      (hp : heap p = .dict entries)
      (h : ∀ entry ∈ entries, Satisfies c heap entry.2 (.expression e)) :
      Satisfies c heap (.container p) (.expression (.mapping e))
  | union {v : Value A} {members : List TypeExpr} {e : TypeExpr} (hmem : e ∈ members)
      (h : Satisfies c heap v (.expression e)) : Satisfies c heap v (.expression (.union members))
  | intersection {v : Value A} {members : List TypeExpr}
      (h : ∀ e ∈ members, Satisfies c heap v (.expression e)) :
      Satisfies c heap v (.expression (.intersection members))
  /-- A type name, with or without arguments: what it resolves to. -/
  | named {v : Value A} {e : TypeExpr} {i : Instantiation} {r : Resolved}
      (hi : e.instantiation? = some i) (hr : c.Denotes i r) (h : Satisfies c heap v r) :
      Satisfies c heap v (.expression e)
  /-- A dictionary: each field of the schema is there and satisfies its type, or is
  missing and of a type that admits absence. -/
  | schema {p : A} {entries : List (Scalar × Value A)} {s : ResolvedSchema}
      (hp : heap p = .dict entries)
      (hthere : ∀ field ∈ s.fields.entries, ∀ v, Container.entry? entries field.1 = some v →
        Satisfies c heap v (.expression field.2.expression))
      (hmissing : ∀ field ∈ s.fields.entries, Container.entry? entries field.1 = none →
        c.AdmitsAbsence field.2.expression) :
      Satisfies c heap (.container p) (.schema s)

/-- What a schema asks of the entries of a dictionary for one of its fields. -/
def FieldSatisfies (c : Composer) (heap : Heap A) (entries : List (Scalar × Value A))
    (field : String × ResolvedField) : Prop :=
  (∀ v, Container.entry? entries field.1 = some v →
    c.Satisfies heap v (.expression field.2.expression)) ∧
  (Container.entry? entries field.1 = none → c.AdmitsAbsence field.2.expression)

end

/-! ## Each kind of type -/

namespace Satisfies

variable {A : Type} {c : Composer} {heap : Heap A} {v : Value A} {e : TypeExpr}

/-- The lemmas below invert the rules, one for each kind of type: what a value is that
satisfies it. -/
theorem primitive_iff {kind : String} :
    c.Satisfies heap v (.expression (.primitive kind)) ↔
      ∃ a, v = .atom a ∧ kind ≠ "none" ∧ Checking.isOfKind kind a = true := by
  constructor
  · intro h
    cases h with
    | boolean => exact ⟨_, rfl, by decide, rfl⟩
    | int => exact ⟨_, rfl, by decide, rfl⟩
    | float => exact ⟨_, rfl, by decide, rfl⟩
    | text hkind | unpaired hkind => exact ⟨_, rfl, by simp_all [Checking.isOfKind]⟩
    | named hi _ _ => cases hi
  · rintro ⟨a, rfl, hnone, ha⟩
    cases a with
    | null | missing | bytes _ => simp [Checking.isOfKind] at ha
    | bool b =>
      have hkind : kind = "boolean" := by simpa [Checking.isOfKind] using ha
      rw [hkind]
      exact .boolean
    | int n =>
      have hkind : kind = "number" := by simpa [Checking.isOfKind] using ha
      rw [hkind]
      exact .int
    | float x =>
      have hkind : kind = "number" := by simpa [Checking.isOfKind] using ha
      rw [hkind]
      exact .float
    | text t =>
      refine .text ?_
      simp only [Checking.isOfKind, Bool.and_eq_true, bne_iff_ne] at ha
      simp [ha, hnone]
    | unpaired t =>
      refine .unpaired ?_
      simp only [Checking.isOfKind, Bool.and_eq_true, bne_iff_ne] at ha
      simp [ha, hnone]

/-- The one text. -/
theorem literal_iff {t : String} :
    c.Satisfies heap v (.expression (.literal t)) ↔ v = .atom (.text t) := by
  constructor
  · intro h
    cases h with
    | literal => rfl
    | named hi _ _ => cases hi
  · rintro rfl
    exact .literal

/-- One of the texts. -/
theorem enumSet_iff {values : LiteralSet} :
    c.Satisfies heap v (.expression (.enumSet values)) ↔
      ∃ t ∈ values, v = .atom (.text t) := by
  constructor
  · intro h
    cases h with
    | enumSet ht => exact ⟨_, ht, rfl⟩
    | named hi _ _ => cases hi
  · rintro ⟨t, ht, rfl⟩
    exact .enumSet ht

/-- A value that is there satisfies what the optional type is made of. -/
theorem optional_iff :
    c.Satisfies heap v (.expression (.optional e)) ↔ c.Satisfies heap v (.expression e) := by
  constructor
  · intro h
    cases h with
    | optional h => exact h
    | named hi _ _ => cases hi
  · exact .optional

/-- A list or a tuple, all of whose items satisfy the inner type. -/
theorem sequence_iff :
    c.Satisfies heap v (.expression (.sequence e)) ↔
      ∃ p items, v = .container p ∧ (heap p = .list items ∨ heap p = .tuple items) ∧
        ∀ w ∈ items, c.Satisfies heap w (.expression e) := by
  constructor
  · intro h
    cases h with
    | sequence hp h => exact ⟨_, _, rfl, hp, h⟩
    | named hi _ _ => cases hi
  · rintro ⟨p, items, rfl, hp, h⟩
    exact .sequence hp h

/-- A dictionary, all of whose values satisfy the inner type. -/
theorem mapping_iff :
    c.Satisfies heap v (.expression (.mapping e)) ↔
      ∃ p entries, v = .container p ∧ heap p = .dict entries ∧
        ∀ entry ∈ entries, c.Satisfies heap entry.2 (.expression e) := by
  constructor
  · intro h
    cases h with
    | mapping hp h => exact ⟨_, _, rfl, hp, h⟩
    | named hi _ _ => cases hi
  · rintro ⟨p, entries, rfl, hp, h⟩
    exact .mapping hp h

/-- One branch is enough. -/
theorem union_iff {members : List TypeExpr} :
    c.Satisfies heap v (.expression (.union members)) ↔
      ∃ e ∈ members, c.Satisfies heap v (.expression e) := by
  constructor
  · intro h
    cases h with
    | union hmem h => exact ⟨_, hmem, h⟩
    | named hi _ _ => cases hi
  · rintro ⟨e, hmem, h⟩
    exact .union hmem h

/-- All operands are needed. -/
theorem intersection_iff {members : List TypeExpr} :
    c.Satisfies heap v (.expression (.intersection members)) ↔
      ∀ e ∈ members, c.Satisfies heap v (.expression e) := by
  constructor
  · intro h
    cases h with
    | intersection h => exact h
    | named hi _ _ => cases hi
  · exact .intersection

/-- **A name is satisfied as what it denotes.** -/
theorem named_iff {i : Instantiation} {r : Resolved} (hi : e.instantiation? = some i)
    (hr : c.Denotes i r) :
    c.Satisfies heap v (.expression e) ↔ c.Satisfies heap v r := by
  constructor
  · intro h
    cases h with
    | named hi' hr' h =>
      rw [hi] at hi'
      cases hi'
      rw [hr.unique hr']
      exact h
    -- no other rule is about names
    | _ => cases hi
  · exact .named hi hr

/-- A dictionary that has what each field asks for. -/
theorem schema_iff {s : ResolvedSchema} :
    c.Satisfies heap v (.schema s) ↔
      ∃ p entries, v = .container p ∧ heap p = .dict entries ∧
        ∀ field ∈ s.fields.entries, c.FieldSatisfies heap entries field := by
  constructor
  · intro h
    cases h with
    | schema hp hthere hmissing =>
      exact ⟨_, _, rfl, hp, fun field hf => ⟨hthere field hf, hmissing field hf⟩⟩
  · rintro ⟨p, entries, rfl, hp, h⟩
    exact .schema hp (fun field hf => (h field hf).1) fun field hf => (h field hf).2

end Satisfies

end Composer

end WidgetSchema
