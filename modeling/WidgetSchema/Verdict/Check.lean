/-
Values against types.

The check goes down the expression as long as it speaks of the same value, along
aliases as long as they lead to expressions, and into containers. Each of the
three has its own measure, one inside the other:

* inside a container there is one container less that can be entered, because a
  container that reappears inside itself is an error, so the number of
  containers of the value bounds the nesting;
* at one value, the depth bound limits how many names are unfolded; it starts
  afresh inside every container;
* at one value and one unfolding, the expression shrinks.

A type that does not fit is no error: its failures are the result. A union
succeeds with the first branch that has none. A failure may repeat the value, and
a path the keys on it; an integer with too many digits is not repeated, it ends
the check.
-/
import WidgetSchema.Verdict.Absence
import WidgetSchema.Verdict.Basic

set_option autoImplicit false

namespace WidgetSchema

/-- What a value is checked against. -/
inductive Target where
  | schema (s : ResolvedSchema)
  | expression (e : TypeExpr)
  /-- Something that is no type, as messages show it. -/
  | unsupported (shown : String)

namespace Target

/-- The text of a target. -/
def text : Target → String
  | schema s => s.label
  | expression e => e.render
  | unsupported shown => shown

/-- What a name resolved to, as a target. -/
def ofResolved : Resolved → Target
  | .schema s => schema s
  | .expression e => expression e

end Target

namespace Checking

/-- A check: the failures it finds. -/
abbrev Check := Action Fault Memo (List Failure)

/-- A check of a part of a container, inside the containers of the list. -/
abbrev PartCheck (n : Nat) := List (Fin n) → Path → Value (Fin n) → TypeExpr → Check

variable {n : Nat}

/-- No failure. -/
def fits : Action Fault Memo (List Failure) := return []

/-- One failure. -/
def refuse (path : Path) (mismatch : Mismatch) : Action Fault Memo (List Failure) :=
  return [{ path, mismatch }]

/-- A number that is too long to be written. -/
def tooLong : Action Fault Memo (List Failure) := .fail .tooManyDigits

/-- One failure that repeats a value as messages show it. -/
def refuseShown (path : Path) (shown : Option String) (mismatch : String → Mismatch) :
    Action Fault Memo (List Failure) :=
  match shown with
  | some text => refuse path (mismatch text)
  | none => tooLong

/-- A container that stands inside itself. -/
def cyclic (path : Path) : Action Fault Memo (List Failure) :=
  .fail (.schema (.cyclicValue path.render))

/-! ## Scalar kinds -/

/-- An atom is of a scalar kind. -/
def isOfKind (kind : String) : Scalar → Bool
  | .bool _ => kind == "boolean"
  | .int _ | .float _ => kind == "number"
  | .text _ | .unpaired _ => kind != "boolean" && kind != "number"
  | _ => false

/-- A value against a scalar kind. -/
def checkPrimitive (heap : Heap (Fin n)) (path : Path) (v : Value (Fin n)) (kind : String) :
    Action Fault Memo (List Failure) :=
  if kind = "none" then
    if v.isAbsent then fits else refuse path (.otherKind "no value" (v.kindName heap))
  else if v.isAbsent then refuse path (.absent kind)
  else match v with
    | .atom a => if isOfKind kind a then fits else refuse path (.otherKind kind a.kindName)
    | .container p => refuse path (.otherKind kind (heap p).kindName)

/-! ## Containers -/

/-- The items of a sequence, from a position on. -/
def checkItems (part : Path → Value (Fin n) → TypeExpr → Check) (path : Path)
    (inner : TypeExpr) : (index : Nat) → List (Value (Fin n)) → Action Fault Memo (List Failure)
  | _, [] => fits
  | index, v :: rest => do
    let here ← part (path.push (.index index)) v inner
    let further ← checkItems part path inner (index + 1) rest
    return here ++ further

/-- An entry of a mapping. Its path repeats the key, so the key has to be short. -/
def checkEntry (part : Path → Value (Fin n) → TypeExpr → Check) (path : Path)
    (inner : TypeExpr) (key : Scalar) (v : Value (Fin n)) : Action Fault Memo (List Failure) :=
  if key.isWritable then part (path.push (.key key)) v inner else tooLong

/-- The entries of a mapping. -/
def checkEntries (part : Path → Value (Fin n) → TypeExpr → Check) (path : Path)
    (inner : TypeExpr) : List (Scalar × Value (Fin n)) → Action Fault Memo (List Failure)
  | [] => fits
  | (key, v) :: rest => do
    let here ← checkEntry part path inner key v
    let further ← checkEntries part path inner rest
    return here ++ further

/-- The fields of a schema in the entries of a dictionary. A field whose value is
absent is judged by its type alone. -/
def checkFields (c : Composer) (part : Path → Value (Fin n) → TypeExpr → Check) (path : Path)
    (schema : ResolvedSchema) (entries : List (Scalar × Value (Fin n))) :
    List (String × ResolvedField) → Action Fault Memo (List Failure)
  | [] => fits
  | (name, f) :: rest => do
    let v := (Container.entry? entries name).getD (.atom .missing)
    let path' := path.push (.field name)
    let here ←
      if v.isAbsent then do
        if ← c.admitsAbsence f.expression then fits
        else refuse path' (.absentField name schema.label)
      else part path' v f.expression
    let further ← checkFields c part path schema entries rest
    return here ++ further

/-- A present value against a sequence. -/
def checkSequence (heap : Heap (Fin n)) (part : PartCheck n) (active : List (Fin n))
    (path : Path) (v : Value (Fin n)) (inner : TypeExpr) : Action Fault Memo (List Failure) :=
  match v with
  | .atom a => refuse path (.otherKind "sequence" a.kindName)
  | .container p =>
    match heap p with
    | .list items | .tuple items =>
      if p ∈ active then cyclic path else checkItems (part (p :: active)) path inner 0 items
    | .dict _ => refuse path (.otherKind "sequence" (heap p).kindName)

/-- A present value against a mapping. -/
def checkMapping (heap : Heap (Fin n)) (part : PartCheck n) (active : List (Fin n))
    (path : Path) (v : Value (Fin n)) (inner : TypeExpr) : Action Fault Memo (List Failure) :=
  match v with
  | .atom a => refuse path (.otherKind "mapping" a.kindName)
  | .container p =>
    match heap p with
    | .dict entries =>
      if p ∈ active then cyclic path else checkEntries (part (p :: active)) path inner entries
    | .list _ | .tuple _ => refuse path (.otherKind "mapping" (heap p).kindName)

/-- A value against a schema. -/
def checkStruct (c : Composer) (heap : Heap (Fin n)) (part : PartCheck n)
    (active : List (Fin n)) (path : Path) (v : Value (Fin n)) (schema : ResolvedSchema) :
    Action Fault Memo (List Failure) :=
  match v with
  | .atom a =>
    if a.isAbsent then refuse path (.absent schema.label)
    else refuse path (.otherKind (schema.label ++ " object") a.kindName)
  | .container p =>
    match heap p with
    | .dict entries =>
      if p ∈ active then cyclic path
      else checkFields c (part (p :: active)) path schema entries schema.fields.entries
    | .list _ | .tuple _ =>
      refuse path (.otherKind (schema.label ++ " object") (heap p).kindName)

/-! ## One value -/

/-- The value being checked and what to do where its type leaves the expression:
at a type name, at a sequence and at a mapping. -/
structure Site (n : Nat) where
  heap : Heap (Fin n)
  path : Path
  value : Value (Fin n)
  atSequence : TypeExpr → Check
  atMapping : TypeExpr → Check

/-- Goes on if the value of a site is there; it has to be for the type. -/
def Site.present (s : Site n) (type : TypeExpr) (check : Check) :
    Action Fault Memo (List Failure) :=
  if s.value.isAbsent then refuse s.path (.absentValue type.render) else check

/-- One failure at a site that repeats the value. -/
def Site.refuse (s : Site n) (mismatch : String → Mismatch) : Action Fault Memo (List Failure) :=
  refuseShown s.path (s.value.shown? s.heap) mismatch

/-- A present value against a set of literals, one or several. -/
def Site.checkLiterals (s : Site n) (fitting : List String) (mismatch : String → Mismatch) :
    Action Fault Memo (List Failure) :=
  match s.value with
  | .atom (.text t) => if t ∈ fitting then fits else s.refuse mismatch
  | _ => s.refuse mismatch

mutual
/-- The value of a site against an expression, with type names checked by `named`. -/
def checkHere (s : Site n) (named : TypeExpr → Check) :
    TypeExpr → Action Fault Memo (List Failure)
  | .optional inner => if s.value.isAbsent then fits else checkHere s named inner
  | .primitive kind => checkPrimitive s.heap s.path s.value kind
  | .reference name => named (.reference name)
  | .generic base args => named (.generic base args)
  | .literal t =>
    s.present (.literal t) <| s.checkLiterals [t] fun shown =>
      .notLiteral shown (TypeExpr.literal t).render
  | .enumSet values =>
    s.present (.enumSet values) <| s.checkLiterals values.toList fun shown =>
      .notInSet shown values.toList
  | .sequence inner => s.present (.sequence inner) (s.atSequence inner)
  | .mapping inner => s.present (.mapping inner) (s.atMapping inner)
  | .union members =>
    s.present (.union members) do
      match ← checkBranches s named members with
      | none => fits
      | some attempts => s.refuse fun shown => .noBranch shown attempts
  | .intersection members => s.present (.intersection members) (checkEach s named members)

/-- The branches of a union: nothing if one fits, and otherwise what each branch
reports first. -/
def checkBranches (s : Site n) (named : TypeExpr → Check) :
    List TypeExpr → Action Fault Memo (Option (List CodeText))
  | [] => return some []
  | e :: es => do
    match ← checkHere s named e with
    | [] => return none
    | f :: _ => do
      let attempts ← checkBranches s named es
      return attempts.map fun further => f.attempt e :: further

/-- The members of an intersection, all at the same value. -/
def checkEach (s : Site n) (named : TypeExpr → Check) :
    List TypeExpr → Action Fault Memo (List Failure)
  | [] => fits
  | e :: es => do
    let here ← checkHere s named e
    let further ← checkEach s named es
    return here ++ further
end

/-- A type name at a site; `depth` names may be unfolded one after the other. -/
def checkNamed (c : Composer) (s : Site n) (struct : ResolvedSchema → Check) :
    (depth : Nat) → TypeExpr → Action Fault Memo (List Failure)
  | 0, e => .fail (.schema (.resolutionDepth e.render c.maxDepth))
  | depth + 1, e => do
    match ← (c.resolveExpression e).mapError Fault.schema with
    | .schema schema => struct schema
    | .expression e' => checkHere s (checkNamed c s struct depth) e'

/-! ## Nested values -/

/-- A value against an expression, with the parts of containers checked by `part`. -/
def checkExpr (c : Composer) (heap : Heap (Fin n)) (part : PartCheck n)
    (active : List (Fin n)) (path : Path) (v : Value (Fin n)) (e : TypeExpr) :
    Action Fault Memo (List Failure) :=
  let s : Site n :=
    { heap, path, value := v
      atSequence := checkSequence heap part active path v
      atMapping := checkMapping heap part active path v }
  checkHere s (checkNamed c s (checkStruct c heap part active path v) c.maxDepth) e

/-- The parts of containers; `room` more containers can be entered. Without room
every container is active, so one that is met is a cycle. -/
def checkPart (c : Composer) (heap : Heap (Fin n)) :
    (room : Nat) → List (Fin n) → Path → Value (Fin n) → TypeExpr →
      Action Fault Memo (List Failure)
  | 0, _, path, _, _ => cyclic path
  | room + 1, active, path, v, e => checkExpr c heap (checkPart c heap room) active path v e

/-- A whole value against a target. -/
def checkRoot (c : Composer) (heap : Heap (Fin n)) (v : Value (Fin n)) :
    Target → Action Fault Memo (List Failure)
  | .schema s => checkStruct c heap (checkPart c heap n) [] .root v s
  | .expression e => checkExpr c heap (checkPart c heap n) [] .root v e
  | .unsupported shown =>
    if v.isAbsent then refuse .root (.absentValue shown) else .fail (.unsupportedType shown)

end Checking

namespace Composer

/-- The verdict on a value. -/
def validate {n : Nat} (c : Composer) (heap : Heap (Fin n)) (v : Value (Fin n))
    (target : Target) : Action Fault Memo Verdict := do
  let failures ← Checking.checkRoot c heap v target
  .note .debug .validation
    ("Validated value against " ++ target.text ++ ": " ++ toString failures.length ++ " failures")
  return { failures }

/-- The verdict on a value against a registered type. -/
def validateNamed {n : Nat} (c : Composer) (heap : Heap (Fin n)) (v : Value (Fin n))
    (name : String) : Action Fault Memo Verdict := do
  let resolved ← (c.resolve { name, args := [] }).mapError Fault.schema
  c.validate heap v (.ofResolved resolved)

end Composer

end WidgetSchema
