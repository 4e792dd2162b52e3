/-
Which values a check resolves.

Following a check goes where the check went: into the branches of a union up to
the first that fits, into the parts of containers, and along names. What it
finds there is of no interest, only the order in which names are met. Whether a
branch fits is asked of the check itself, with all that is remembered now.
-/
import WidgetSchema.Sharing.Ledger
import WidgetSchema.Verdict.Check

set_option autoImplicit false

namespace WidgetSchema

namespace Following

/-! ## Absence -/

/-- A question that is followed, and its answer. -/
abbrev Question := SharedExpr → Following Bool

mutual
/-- Follows the question whether no value satisfies an expression; names are
followed by `named`. -/
def absentFits (named : Question) : TypeExpr → Origins → Following Bool
  | .optional _, _ => return true
  | .primitive name, _ => return name == "none"
  | .union members, o => absentFitsSome named members o.parts
  | .intersection members, o => absentFitsEach named members o.parts
  | .reference name, o => named { expression := .reference name, origins := o }
  | .generic base args, o => named { expression := .generic base args, origins := o }
  | .literal _, _ | .enumSet _, _ | .sequence _, _ | .mapping _, _ => return false

/-- Follows the question for the expressions of a list, up to the first for which it holds. -/
def absentFitsSome (named : Question) : List TypeExpr → List Origins → Following Bool
  | e :: es, o :: os => do
    if ← absentFits named e o then return true else absentFitsSome named es os
  | _, _ => return false

/-- Follows the question for the expressions of a list, up to the first for which
it does not hold. -/
def absentFitsEach (named : Question) : List TypeExpr → List Origins → Following Bool
  | e :: es, o :: os => do
    if ← absentFits named e o then absentFitsEach named es os else return false
  | _, _ => return true
end

/-- Follows the question for a type name; the names in `seen` are being unfolded
around it, and `steps` more may be. -/
def absentFitsName (g : Guide) :
    (steps : Nat) → (seen : List String) → SharedExpr → Following Bool
  | 0, seen, e => if e.expression.render ∈ seen then return false else failure
  | steps + 1, seen, e => do
    let label := e.expression.render
    if label ∈ seen then return false
    else match ← resolveExpression g e with
      | .schema _ => return false
      | .expression e' =>
        absentFits (absentFitsName g steps (label :: seen)) e'.expression e'.origins

/-- Follows the question whether no value satisfies an expression. -/
def admitsAbsence (g : Guide) (e : SharedExpr) : Following Bool :=
  let steps := g.composer.registry.definitions.size + Composer.spareUnfoldings
  absentFits (absentFitsName g steps []) e.expression e.origins

/-- The fields of a schema with the origins of their types. -/
def fieldsOf (s : ResolvedSchema) : Following (List (String × SharedExpr)) := do
  let origins := ((← get).schemas.lookup s.instantiation).getD []
  return s.fields.entries.filterMap fun f =>
    (origins.lookup f.1).map fun o => (f.1, { expression := f.2.expression, origins := o })

/-- Follows the search for the fields that a value of a schema must carry. -/
def requiredFields (g : Guide) (s : ResolvedSchema) : Following Unit := do
  (← fieldsOf s).forM fun f => do
    let _ ← admitsAbsence g f.2

/-! ## Checks -/

variable {n : Nat}

/-- What follows the check of a value against an expression. -/
abbrev Walk := SharedExpr → Following Unit

/-- What follows the check of a part of a container, inside the containers of the list. -/
abbrev PartWalk (n : Nat) := List (Fin n) → Value (Fin n) → SharedExpr → Following Unit

/-- The value being checked, whether a failure can repeat it, and how to go on at a sequence, at a
mapping and at a union, of which the branches that fit are known. -/
structure Stop (n : Nat) where
  value : Value (Fin n)
  isShown : Bool
  atSequence : Walk
  atMapping : Walk
  fits : TypeExpr → Bool

/-- Goes on behind a type that fits, and behind one that does not if the failure
can repeat the value. -/
def Stop.judged (s : Stop n) (fits : Bool) : Following Unit :=
  if fits || s.isShown then return () else failure

mutual
/-- Follows the check of a value against an expression; names are followed by `named`. -/
def checkHere (s : Stop n) (named : Walk) : TypeExpr → Origins → Following Unit
  | .primitive _, _ => return ()
  | .literal t, _ => s.judged (s.fits (.literal t))
  | .enumSet values, _ => s.judged (s.fits (.enumSet values))
  | .optional e, o =>
    if s.value.isAbsent then return () else o.parts.forM fun p => checkHere s named e p
  | .reference name, o => named { expression := .reference name, origins := o }
  | .generic base args, o => named { expression := .generic base args, origins := o }
  | .sequence e, o =>
    if s.value.isAbsent then return ()
    else o.parts.forM fun p => s.atSequence { expression := e, origins := p }
  | .mapping e, o =>
    if s.value.isAbsent then return ()
    else o.parts.forM fun p => s.atMapping { expression := e, origins := p }
  | .union members, o =>
    if s.value.isAbsent then return () else checkBranches s named members o.parts
  | .intersection members, o =>
    if s.value.isAbsent then return () else checkEach s named members o.parts

/-- Follows the checks against all expressions of a list. -/
def checkEach (s : Stop n) (named : Walk) : List TypeExpr → List Origins → Following Unit
  | e :: es, o :: os => do
    checkHere s named e o
    checkEach s named es os
  | _, _ => return ()

/-- Follows the checks against the expressions of a list, up to the first that fits. -/
def checkBranches (s : Stop n) (named : Walk) : List TypeExpr → List Origins → Following Unit
  | e :: es, o :: os => do
    checkHere s named e o
    if s.fits e then return () else checkBranches s named es os
  | _, _ => s.judged false
end

/-- Enters a container that is not being checked already. -/
def within (active : List (Fin n)) (p : Fin n) (walk : List (Fin n) → Following Unit) :
    Following Unit :=
  if active.contains p then failure else walk (p :: active)

/-- Follows the check of a value against a schema. -/
def checkStruct (g : Guide) (heap : Heap (Fin n)) (part : PartWalk n) (active : List (Fin n))
    (v : Value (Fin n)) (s : ResolvedSchema) : Following Unit :=
  (v.entries? heap).forM fun c =>
    within active c.1 fun active => do
      (← fieldsOf s).forM fun f => do
        let v := (Container.entry? c.2 f.1).getD (.atom .missing)
        if v.isAbsent then
          let _ ← admitsAbsence g f.2
        else part active v f.2

/-- Follows the check of the items of a sequence. -/
def checkSequence (heap : Heap (Fin n)) (part : PartWalk n) (active : List (Fin n))
    (v : Value (Fin n)) (inner : SharedExpr) : Following Unit :=
  (v.items? heap).forM fun c =>
    within active c.1 fun active => c.2.forM fun item => part active item inner

/-- Follows the check of the entries of a mapping. -/
def checkMapping (heap : Heap (Fin n)) (part : PartWalk n) (active : List (Fin n))
    (v : Value (Fin n)) (inner : SharedExpr) : Following Unit :=
  (v.entries? heap).forM fun c =>
    within active c.1 fun active => c.2.forM fun entry =>
      if entry.1.isWritable then part active entry.2 inner else failure

/-- Follows a type name; `depth` names are unfolded one after the other. -/
def checkNamed (g : Guide) (s : Stop n) (struct : ResolvedSchema → Following Unit) :
    (depth : Nat) → SharedExpr → Following Unit
  | 0, _ => failure
  | depth + 1, e => do
    match ← resolveExpression g e with
    | .schema schema => struct schema
    | .expression e' => checkHere s (checkNamed g s struct depth) e'.expression e'.origins

/-- The check of a value against an expression finds no failure. -/
def fits (g : Guide) (heap : Heap (Fin n)) (active : List (Fin n)) (v : Value (Fin n))
    (e : TypeExpr) : Bool :=
  let part := Checking.checkPart g.composer heap n
  match ((Checking.checkExpr g.composer heap part active .root v e).run g.memo).outcome with
  | .ok failures => failures.isEmpty
  | .error _ => false

/-- Follows the check of a value; `room` more containers can be entered. -/
def checkExpr (g : Guide) (heap : Heap (Fin n)) :
    (room : Nat) → List (Fin n) → Value (Fin n) → SharedExpr → Following Unit
  | 0, _, _, _ => failure
  | room + 1, active, v, e =>
    let part := checkExpr g heap room
    let s : Stop n :=
      { value := v
        isShown := (v.shown? heap).isSome
        atSequence := checkSequence heap part active v
        atMapping := checkMapping heap part active v
        fits := fits g heap active v }
    checkHere s (checkNamed g s (checkStruct g heap part active v) g.composer.maxDepth)
      e.expression e.origins

/-- Follows the check of a whole value against what a name resolved to. -/
def checkAnswer (g : Guide) (heap : Heap (Fin n)) (v : Value (Fin n)) :
    SharedAnswer → Following Unit
  | .schema s => checkStruct g heap (checkExpr g heap n) [] v s
  | .expression e => checkExpr g heap (n + 1) [] v e

end Following

end WidgetSchema
