/-
Expressions as values that are shared.

Two expressions can be equal and still be two values, and one value can stand in
several expressions. The origin of an expression tells them apart: all readings
of one text give one value, everything else is a value of the occasion it was
made on.

Binding parameters makes new values only where it has to: an expression without
parts is left as it is, a bound reference gives the value it is bound to, and all
other expressions are made anew around their parts.
-/
import WidgetSchema.Definition.Texts
import WidgetSchema.Expr.Substitution

set_option autoImplicit false

namespace WidgetSchema

/-- Where an expression comes from. Expressions of one origin are one value. -/
inductive Origin where
  /-- The part at a place of what a text reads as. -/
  | read (text : String) (place : List Nat)
  /-- The part at a place of what was made on an occasion. -/
  | made (occasion : Nat) (place : List Nat)
deriving DecidableEq, Repr

/-- The origin of the part at a place of an expression with readings, if the
expression itself was made on an occasion, at a place of what was made then. -/
def Readings.origin (readings : Readings) (occasion : Nat) (base place : List Nat) : Origin :=
  match readings.find? fun r => r.1.isPrefixOf place with
  | some (start, text) => .read text (place.drop start.length)
  | none => .made occasion (base ++ place)

/-- The origins of an expression and of all its parts. -/
inductive Origins where
  | node (here : Origin) (parts : List Origins)

namespace Origins

/-- The origin of the expression itself. -/
def here : Origins → Origin
  | node o _ => o

/-- The origins of its parts. -/
def parts : Origins → List Origins
  | node _ ps => ps

mutual
/-- The origins of an expression at a place, if `origin` says what comes from where. -/
def ofExpr (origin : List Nat → Origin) (place : List Nat) : TypeExpr → Origins
  | .primitive _ | .reference _ | .literal _ | .enumSet _ => node (origin place) []
  | .optional e | .sequence e | .mapping e =>
    node (origin place) [ofExpr origin (place ++ [0]) e]
  | .union es | .intersection es | .generic _ es =>
    node (origin place) (ofParts origin place 0 es)

/-- The origins of the parts of an expression, from a number on. -/
def ofParts (origin : List Nat → Origin) (place : List Nat) : Nat → List TypeExpr → List Origins
  | _, [] => []
  | number, e :: es =>
    ofExpr origin (place ++ [number]) e :: ofParts origin place (number + 1) es
end

mutual
/-- The origins of an expression after its parameters were bound. -/
def bind (bindings : List (String × Origins)) (origin : List Nat → Origin) (place : List Nat) :
    TypeExpr → Origins → Origins
  | .reference name, old => (bindings.lookup name).getD old
  | .primitive _, old | .literal _, old | .enumSet _, old => old
  | .optional e, old | .sequence e, old | .mapping e, old =>
    node (origin place) (old.parts.map fun o => bind bindings origin (place ++ [0]) e o)
  | .union es, old | .intersection es, old | .generic _ es, old =>
    node (origin place) (bindParts bindings origin place 0 es old.parts)

/-- The origins of parts after parameters were bound. -/
def bindParts (bindings : List (String × Origins)) (origin : List Nat → Origin)
    (place : List Nat) : Nat → List TypeExpr → List Origins → List Origins
  | number, e :: es, old :: olds =>
    bind bindings origin (place ++ [number]) e old ::
      bindParts bindings origin place (number + 1) es olds
  | _, _, _ => []
end

end Origins

/-- An expression and where it and its parts come from. -/
structure SharedExpr where
  expression : TypeExpr
  origins : Origins

namespace SharedExpr

/-- The parts of a shared expression. -/
def parts (e : SharedExpr) : List SharedExpr :=
  (e.expression.parts.zip e.origins.parts).map fun p => { expression := p.1, origins := p.2 }

/-- The operands of an intersection; any other expression is its only operand. -/
def operands (e : SharedExpr) : List SharedExpr :=
  match e.expression with
  | .intersection _ => e.parts
  | _ => [e]

/-- The type name of an expression and the arguments it is applied to. -/
def request? (e : SharedExpr) : Option (String × List SharedExpr) :=
  match e.expression with
  | .reference name => some (name, [])
  | .generic base _ => some (base, e.parts)
  | _ => none

/-- An expression with readings, made on an occasion. -/
def made (occasion : Nat) (base : List Nat) (readings : Readings) (e : TypeExpr) : SharedExpr :=
  { expression := e, origins := .ofExpr (readings.origin occasion base) [] e }

/-- An expression after its parameters were bound on an occasion. Without
parameters it stays the value it is. -/
def bind (occasion : Nat) (base : List Nat) (bindings : List (String × SharedExpr))
    (e : SharedExpr) : SharedExpr :=
  if bindings.isEmpty then e
  else
    { expression := e.expression.substitute (bindings.map fun b => (b.1, b.2.expression))
      origins := .bind (bindings.map fun b => (b.1, b.2.origins))
        (fun place => .made occasion (base ++ place)) [] e.expression e.origins }

end SharedExpr

end WidgetSchema
