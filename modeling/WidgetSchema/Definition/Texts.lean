/-
The texts behind expressions.

An expression is read from a text, or it is given as a tree that may have
expressions read from texts among its parts. What it means does not depend on
that; which expressions are one value does.
-/
import WidgetSchema.Expr.Basic

set_option autoImplicit false

namespace WidgetSchema

/-- The places of an expression where a text was read, with the texts. A place is
the list of the part numbers that lead to it. -/
abbrev Readings := List (List Nat × String)

/-- The readings of an expression that was read as a whole. -/
def Readings.whole (text : String) : Readings := [([], text)]

/-- An expression with the texts it was read from. -/
structure SourcedExpr where
  expression : TypeExpr
  readings : Readings
deriving DecidableEq

/-- The texts behind the expressions of a definition. -/
structure DeclaredTexts where
  /-- The expression of an alias or the supertype of a struct. -/
  body : Readings
  /-- The defaults of the parameters, in order. -/
  defaults : List Readings
  /-- The types of the fields, by name. -/
  fields : List (String × Readings)
deriving DecidableEq

/-- No expression of the definition was read from a text. -/
def DeclaredTexts.none : DeclaredTexts := { body := [], defaults := [], fields := [] }

end WidgetSchema
