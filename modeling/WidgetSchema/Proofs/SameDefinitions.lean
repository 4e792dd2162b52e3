/-
The same definitions in another order.

A registry lists its definitions in the order of their registration. Resolving and
checking look definitions up by name and count them, so two registries that hold the
same definitions in any order are the same to them: every resolution and every check is
one and the same action on the memo. The order can be seen in the list of the names and
in the order of the report on dangling names, and nowhere else.
-/
import WidgetSchema.Proofs.RegistryRuns
import WidgetSchema.Verdict.Check

set_option autoImplicit false

namespace WidgetSchema

/-- Maps that hold the same entries in any order find the same under each key. -/
theorem OrderedMap.get?_eq_of_perm {α : Type} {m m' : OrderedMap α}
    (h : m.entries.Perm m'.entries) (key : String) : m.get? key = m'.get? key := by
  apply Option.ext
  intro value
  rw [get?_eq_some, get?_eq_some]
  exact h.mem_iff

/-! ## Registries -/

/-- The same definitions, registered in any order, and both open or both frozen. -/
structure Registry.Resembles (r r' : Registry) : Prop where
  perm : r.definitions.entries.Perm r'.definitions.entries
  frozen : r.frozen = r'.frozen

namespace Registry.Resembles

variable {r r' : Registry}

theorem refl (r : Registry) : r.Resembles r := ⟨.refl _, rfl⟩

/-- A name is looked up in the definitions, whose order plays no part. -/
theorem lookup (h : r.Resembles r') (name : String) : r.lookup name = r'.lookup name := by
  unfold Registry.lookup
  rw [OrderedMap.get?_eq_of_perm h.perm]

/-- The names are the same ones. -/
theorem contains (h : r.Resembles r') (name : String) :
    r.definitions.contains name = r'.definitions.contains name := by
  unfold OrderedMap.contains
  rw [OrderedMap.get?_eq_of_perm h.perm]

/-- So many definitions here, so many there; the test for absence counts its steps by them. -/
theorem size (h : r.Resembles r') : r.definitions.size = r'.definitions.size := h.perm.length_eq

/-- A registration is refused for the state of the build phase or for a name that is taken, and
both agree. -/
theorem refusal? (h : r.Resembles r') (name : String) : r.refusal? name = r'.refusal? name := by
  unfold Registry.refusal?
  rw [h.frozen, h.contains]

/-- The same definition under the same new name goes to the end of both lists. -/
theorem add (h : r.Resembles r') {name : String} (hrefusal : r.refusal? name = none)
    (d : Definition) : (r.add name d).Resembles (r'.add name d) := by
  refine ⟨?_, h.frozen⟩
  rw [entries_add hrefusal, entries_add (h.refusal? name ▸ hrefusal)]
  exact h.perm.append_right _

/-- Ending the build phase touches no definition. -/
theorem freeze (h : r.Resembles r') : r.freeze.Resembles r'.freeze := ⟨h.perm, rfl⟩

/-- One report is the other in another order: each definition has the same dangling names. -/
theorem unresolvedReferences (h : r.Resembles r') :
    r.unresolvedReferences.Perm r'.unresolvedReferences := by
  have hdangling (d : Definition) : r.danglingIn d = r'.danglingIn d := by
    unfold Registry.danglingIn
    simp only [h.contains]
  -- both reports leave out the same definitions, each at its place
  unfold Registry.unresolvedReferences
  simp only [hdangling]
  exact (h.perm.map _).filter _

end Registry.Resembles

/-! ## Composers -/

/-- The same definitions in any order, and the same bound on nested compositions. -/
structure Composer.Resembles (c c' : Composer) : Prop where
  registry : c.registry.Resembles c'.registry
  maxDepth : c.maxDepth = c'.maxDepth

namespace Composer

variable {c c' : Composer} (h : c.Resembles c')
include h

/-- Completing an instantiation looks up its definition and nothing else. -/
theorem Resembles.complete (i : Instantiation) : c.complete i = c'.complete i := by
  unfold Composer.complete
  rw [h.registry.lookup]

/-- A composition starts from the completed instantiation. -/
theorem Resembles.start (chain : List Instantiation) (i : Instantiation) :
    c.start chain i = c'.start chain i := by
  unfold Composer.start
  rw [h.complete]

/-- Compositions are the same function, by induction on the room for compositions inside
one another. It is stated without arguments so that it can be rewritten below the binders
of the merge. -/
theorem Resembles.compose (room : Nat) : c.compose room = c'.compose room := by
  induction room with
  | zero =>
    funext chain i
    rw [Composer.compose, Composer.compose, h.start, h.maxDepth]
  | succ room ih =>
    -- as an equation of functions the hypothesis replaces what resolves the members
    funext chain i
    rw [Composer.compose, Composer.compose, h.start, ih]

/-- The bound on the nesting is one of the things that agree. -/
theorem Resembles.resolveStruct (i : Instantiation) : c.resolveStruct i = c'.resolveStruct i := by
  unfold Composer.resolveStruct
  rw [h.maxDepth, h.compose]

/-- An alias is remembered under its completed name, which is the same. -/
theorem Resembles.resolve (i : Instantiation) : c.resolve i = c'.resolve i := by
  unfold Composer.resolve
  rw [h.complete]
  simp only [h.resolveStruct]

/-- Only type names are resolved. -/
theorem Resembles.resolveExpression (e : TypeExpr) :
    c.resolveExpression e = c'.resolveExpression e := by
  unfold Composer.resolveExpression
  simp only [h.resolve]

/-! ### Absence -/

/-- The names unfolded on the way are asked by the same resolution. -/
theorem Resembles.absentFitsName (steps : Nat) :
    c.absentFitsName steps = c'.absentFitsName steps := by
  induction steps with
  | zero => rfl
  | succ steps ih =>
    funext seen e
    rw [Composer.absentFitsName, Composer.absentFitsName, h.resolveExpression, ih]

/-- The steps are counted by the number of definitions, on which both agree. -/
theorem Resembles.admitsAbsence (e : TypeExpr) : c.admitsAbsence e = c'.admitsAbsence e := by
  unfold Composer.admitsAbsence
  rw [h.registry.size, h.absentFitsName]

/-- A field is required by the test for absence. -/
theorem Resembles.requiredFields (s : ResolvedSchema) :
    c.requiredFields s = c'.requiredFields s := by
  unfold Composer.requiredFields
  induction s.fields.entries with
  | nil => rfl
  | cons entry rest ih => rw [requiredAmong, requiredAmong, h.admitsAbsence, ih]

end Composer

/-! ### Verdicts -/

namespace Checking

variable {n : Nat} {c c' : Composer} (h : c.Resembles c')
include h

/-- A field without a value is asked whether it may be absent. -/
theorem checkFields_resembling (part : Path → Value (Fin n) → TypeExpr → Check) (path : Path)
    (schema : ResolvedSchema) (entries : List (Scalar × Value (Fin n)))
    (fields : List (String × ResolvedField)) :
    checkFields c part path schema entries fields =
      checkFields c' part path schema entries fields := by
  induction fields with
  | nil => rfl
  | cons field rest ih => rw [checkFields, checkFields, h.admitsAbsence, ih]

/-- The containers being checked, the paths and the value have nothing to do with the
definitions. -/
theorem checkStruct_resembling (heap : Heap (Fin n)) (part : PartCheck n) (active : List (Fin n))
    (path : Path) (v : Value (Fin n)) :
    checkStruct c heap part active path v = checkStruct c' heap part active path v := by
  funext schema
  unfold checkStruct
  simp only [checkFields_resembling h]

/-- A name is resolved alike, and so often; the induction is on the names that may still
be unfolded. -/
theorem checkNamed_resembling (s : Site n) (struct : ResolvedSchema → Check) (depth : Nat) :
    checkNamed c s struct depth = checkNamed c' s struct depth := by
  induction depth with
  | zero =>
    funext e
    rw [checkNamed, checkNamed, h.maxDepth]
  | succ depth ih =>
    funext e
    rw [checkNamed, checkNamed, h.resolveExpression, ih]

/-- One layer of a check is the same function of the value. -/
theorem checkExpr_resembling (heap : Heap (Fin n)) (part : PartCheck n) :
    checkExpr c heap part = checkExpr c' heap part := by
  funext active path v e
  unfold checkExpr
  simp only [checkStruct_resembling h, checkNamed_resembling h, h.maxDepth]

/-- Checks of parts are the same function, by induction on the containers that may still
be entered. -/
theorem checkPart_resembling (heap : Heap (Fin n)) (room : Nat) :
    checkPart c heap room = checkPart c' heap room := by
  induction room with
  | zero => rfl
  | succ room ih =>
    funext active path v e
    rw [checkPart, checkPart, checkExpr_resembling h, ih]

/-- A target that is a schema is checked against its fields, any other one as an expression. -/
theorem checkRoot_resembling (heap : Heap (Fin n)) (v : Value (Fin n)) (target : Target) :
    checkRoot c heap v target = checkRoot c' heap v target := by
  unfold checkRoot
  simp only [checkPart_resembling h, checkStruct_resembling h, checkExpr_resembling h]

end Checking

namespace Composer

variable {n : Nat} {c c' : Composer} (h : c.Resembles c')
include h

/-- **Verdicts do not see the order of the definitions.** -/
theorem Resembles.validate (heap : Heap (Fin n)) (v : Value (Fin n)) (target : Target) :
    c.validate heap v target = c'.validate heap v target := by
  unfold Composer.validate
  rw [Checking.checkRoot_resembling h]

/-- Nor do verdicts on a name. -/
theorem Resembles.validateNamed (heap : Heap (Fin n)) (v : Value (Fin n)) (name : String) :
    c.validateNamed heap v name = c'.validateNamed heap v name := by
  unfold Composer.validateNamed
  rw [h.resolve]
  simp only [h.validate]

end Composer

end WidgetSchema
