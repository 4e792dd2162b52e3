/-
Definitions of types.

A struct has fields and may compose supertypes; an alias names an expression.
Both may have parameters, whose defaults may mention the parameters before them.
Definitions hold expressions as they were declared: nothing is resolved or
substituted here.
-/
import WidgetSchema.Error.Schema
import WidgetSchema.Expr.Parser
import WidgetSchema.Expr.Rendering
import WidgetSchema.Tag.Basic

set_option autoImplicit false

namespace WidgetSchema

/-! ## Parameters -/

/-- A parameter of a definition and the expression that stands for a missing argument. -/
structure GenericParameter where
  name : String
  default : Option TypeExpr
deriving DecidableEq

namespace GenericParameter

/-- The text of the default in `name=default`. -/
def defaultText? (raw : String) : Option String :=
  (Text.cutAt '=' raw.toList).2.map fun rest => String.ofList (Text.trim rest)

/-- Reads `name` or `name=default`. -/
def parse (raw : String) : Except SyntaxError GenericParameter :=
  let name := String.ofList (Text.trim (Text.cutAt '=' raw.toList).1)
  if !Name.isParameter name then
    .error { fault := .invalidParameterName name, raw, offset := 0 }
  else match defaultText? raw with
    | none => .ok { name, default := none }
    | some text => do
      let default ← TypeExpr.parse text
      .ok { name, default := some default }

/-- A parameter as it is declared. -/
def render (p : GenericParameter) : String :=
  match p.default with
  | none => p.name
  | some e => p.name ++ "=" ++ e.render

end GenericParameter

/-! ## Fields, structs and aliases -/

/-- The declaration of a field: its type, its tags and the text of both. -/
structure FieldDef where
  expression : TypeExpr
  tags : TagSet
  raw : String
deriving DecidableEq

/-- A struct type. -/
structure StructDef where
  name : String
  fields : OrderedMap FieldDef
  supertype : Option TypeExpr
  parameters : List GenericParameter
deriving DecidableEq

/-- A named type expression. -/
structure AliasDef where
  name : String
  expression : TypeExpr
  parameters : List GenericParameter
deriving DecidableEq

/-- A type definition. -/
inductive Definition where
  | ofStruct (d : StructDef)
  | ofAlias (d : AliasDef)
deriving DecidableEq

namespace Definition

/-- The name a definition gives its type. -/
def name : Definition → String
  | ofStruct d => d.name
  | ofAlias d => d.name

/-- The parameters of a definition, in order. -/
def parameters : Definition → List GenericParameter
  | ofStruct d => d.parameters
  | ofAlias d => d.parameters

/-- What the journal calls the kind of a definition. -/
def kindName : Definition → String
  | ofStruct _ => "StructDef"
  | ofAlias _ => "AliasDef"

/-- The expressions of a definition apart from its parameters. -/
def bodyExpressions : Definition → List TypeExpr
  | ofStruct d => d.supertype.toList ++ d.fields.values.map FieldDef.expression
  | ofAlias d => [d.expression]

/-- All expressions of a definition, those of its parameters first. -/
def expressions (d : Definition) : List TypeExpr :=
  d.parameters.filterMap GenericParameter.default ++ d.bodyExpressions

/-- The names a definition mentions that are not its own parameters. -/
def freeReferences (d : Definition) : List String :=
  (d.expressions.flatMap TypeExpr.references).filter fun r =>
    !(d.parameters.map GenericParameter.name).contains r

end Definition

end WidgetSchema
