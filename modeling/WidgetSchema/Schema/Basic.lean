/-
Resolved schemas: the flat field tables of struct types.

A schema belongs to an instantiation, a type name with all its arguments. Its
lineage holds the label of every instantiation composed into it, its own among
them, and says who may override whom.
-/
import WidgetSchema.Error.Schema
import WidgetSchema.Expr.Rendering
import WidgetSchema.OrderedMap
import WidgetSchema.Tag.Basic

set_option autoImplicit false

namespace WidgetSchema

/-- A type name with arguments. -/
structure Instantiation where
  name : String
  args : List TypeExpr
deriving DecidableEq

/-- The text of an instantiation. -/
def Instantiation.label (i : Instantiation) : String := TypeExpr.label i.name i.args

/-- A field of a schema. -/
structure ResolvedField where
  /-- The type, with every parameter replaced. -/
  expression : TypeExpr
  /-- The tags it was declared with. -/
  tags : TagSet
  /-- The definition that declares it. -/
  origin : String
deriving DecidableEq

/-- The flat field table of an instantiation. -/
structure ResolvedSchema where
  instantiation : Instantiation
  fields : OrderedMap ResolvedField
  lineage : LiteralSet
deriving DecidableEq

namespace ResolvedSchema

/-- The text of the instantiation a schema belongs to. -/
def label (s : ResolvedSchema) : String := s.instantiation.label

/-- The field of a name. -/
def field (s : ResolvedSchema) (name : String) : Except SchemaError ResolvedField :=
  match s.fields.get? name with
  | some f => .ok f
  | none => .error (.unknownField s.label name)

end ResolvedSchema

/-- What a type name resolves to: a struct to its schema, any other alias to its
expression. -/
inductive Resolved where
  | schema (s : ResolvedSchema)
  | expression (e : TypeExpr)
deriving DecidableEq

/-- The text of a resolved type. -/
def Resolved.text : Resolved → String
  | schema s => s.label
  | expression e => e.render

end WidgetSchema
