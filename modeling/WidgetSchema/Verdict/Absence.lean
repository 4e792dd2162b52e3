/-
Types that are satisfied by no value at all.

An optional type is, the empty scalar kind is, a union is if one member is and an
intersection if all are, and a type name is if what it resolves to is. A name
that is met again while it is being unfolded settles nothing, so it counts as
not satisfied.

An alias without parameters is unfolded at most once on any path, so the number
of definitions bounds the unfoldings. Applied to ever larger arguments an alias
can be unfolded for ever; `spareUnfoldings` further ones are tried, and then the
test is given up, which is a fault of its own and no answer.
-/
import WidgetSchema.Schema.Resolution

set_option autoImplicit false

namespace WidgetSchema

namespace Composer

/-- Questions about types, which may have to resolve names. -/
abbrev Asking := Action Fault Memo Bool

mutual
/-- No value satisfies the expression, with names judged by `named`. -/
def absentFits (named : TypeExpr → Asking) : TypeExpr → Action Fault Memo Bool
  | .optional _ => return true
  | .primitive name => return name == "none"
  | .union members => absentFitsSome named members
  | .intersection members => absentFitsEach named members
  | .reference name => named (.reference name)
  | .generic base args => named (.generic base args)
  | .literal _ | .enumSet _ | .sequence _ | .mapping _ => return false

/-- No value satisfies one of the expressions; those behind it are not asked. -/
def absentFitsSome (named : TypeExpr → Asking) : List TypeExpr → Action Fault Memo Bool
  | [] => return false
  | e :: es => do
    if ← absentFits named e then return true else absentFitsSome named es

/-- No value satisfies each of the expressions; those behind one that it does not
satisfy are not asked. -/
def absentFitsEach (named : TypeExpr → Asking) : List TypeExpr → Action Fault Memo Bool
  | [] => return true
  | e :: es => do
    if ← absentFits named e then absentFitsEach named es else return false
end

/-- No value satisfies what a type name resolves to. The names in `seen` are
being unfolded around it, and `steps` more may be. -/
def absentFitsName (c : Composer) :
    (steps : Nat) → (seen : List String) → TypeExpr → Action Fault Memo Bool
  | 0, seen, e => if e.render ∈ seen then return false else .fail (.endlessAlias e.render)
  | steps + 1, seen, e => do
    if e.render ∈ seen then return false
    else match ← (c.resolveExpression e).mapError Fault.schema with
      | .schema _ => return false
      | .expression e' => absentFits (c.absentFitsName steps (e.render :: seen)) e'

/-- The unfoldings that are tried beyond one for each definition. -/
def spareUnfoldings : Nat := 1000

/-- No value satisfies the expression. -/
def admitsAbsence (c : Composer) (e : TypeExpr) : Action Fault Memo Bool :=
  absentFits (c.absentFitsName (c.registry.definitions.size + spareUnfoldings) []) e

/-- The fields of a list that a value must carry. -/
def requiredAmong (c : Composer) :
    List (String × ResolvedField) → Action Fault Memo (List String)
  | [] => return []
  | (name, f) :: rest => do
    let admits ← c.admitsAbsence f.expression
    let required ← c.requiredAmong rest
    return if admits then required else name :: required

/-- The fields that a value of a schema must carry, in order. -/
def requiredFields (c : Composer) (s : ResolvedSchema) : Action Fault Memo (List String) :=
  c.requiredAmong s.fields.entries

end Composer

end WidgetSchema
