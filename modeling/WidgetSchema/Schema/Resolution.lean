/-
Type names to schemas and expressions.

A struct is resolved by binding its arguments, resolving the members of its
supertype, merging them and laying its own fields on top. Results are remembered
by instantiation, in a memo that outlives the request; an instantiation is
entered only when its composition is complete, so an entry is never partial.

The chain of instantiations being composed grows with every supertype, and the
depth bound limits its length. `compose` recurses on the room that is left below
the bound, and the bound is tested only where a composition would begin: what is
remembered needs no room.
-/
import WidgetSchema.Registry
import WidgetSchema.Schema.Binding
import WidgetSchema.Schema.Merging

set_option autoImplicit false

namespace WidgetSchema

/-- What has been resolved so far. -/
structure Memo where
  schemas : List (Instantiation × ResolvedSchema)
  expressions : List (Instantiation × TypeExpr)
deriving DecidableEq

namespace Memo

/-- The memo without entries. -/
def empty : Memo := { schemas := [], expressions := [] }

/-- The number of entries. -/
def size (m : Memo) : Nat := m.schemas.length + m.expressions.length

/-- Enters a schema. -/
def addSchema (m : Memo) (i : Instantiation) (s : ResolvedSchema) : Memo :=
  { m with schemas := m.schemas ++ [(i, s)] }

/-- Enters an expression. -/
def addExpression (m : Memo) (i : Instantiation) (e : TypeExpr) : Memo :=
  { m with expressions := m.expressions ++ [(i, e)] }

end Memo

/-- A registry to resolve against and the bound on nested compositions. -/
structure Composer where
  registry : Registry
  maxDepth : Nat

/-! ## What a definition composes -/

/-- The supertype and the own fields that a definition composes. -/
structure Composition where
  supertype : Option TypeExpr
  fields : OrderedMap FieldDef

namespace Definition

/-- What a definition composes. An alias composes its expression, if that can
only denote struct types. -/
def composition : Definition → Except SchemaError Composition
  | ofStruct d => .ok { supertype := d.supertype, fields := d.fields }
  | ofAlias d =>
    if d.expression.isStructShaped then
      .ok { supertype := some d.expression, fields := .empty }
    else .error (.definition d.name (.notComposition d.expression.render))

/-- The expression of an alias that resolves to one. An alias of an intersection
resolves to a schema, as a struct does. -/
def plainExpression? : Definition → Option TypeExpr
  | ofStruct _ => none
  | ofAlias d =>
    match d.expression with
    | .intersection _ => none
    | e => some e

end Definition

/-- The members of a composition whose parameters are bound. -/
def Composition.members (c : Composition) (bindings : Bindings) : List TypeExpr :=
  match c.supertype with
  | none => []
  | some e => (e.substitute bindings).operands

/-- The instantiation a member names. -/
def TypeExpr.instantiation? : TypeExpr → Option Instantiation
  | .reference name => some { name, args := [] }
  | .generic base args => some { name := base, args }
  | _ => none

/-! ## Composing -/

/-- The members merged so far: their fields and the lineage of all of them. -/
structure Merged where
  held : OrderedMap Contribution
  lineage : List String

/-- Lays the own fields of a type over inherited ones. An own field takes the
last place, also where a field of its name was inherited. -/
def layFields (origin : String) (bindings : Bindings) :
    List (String × FieldDef) → OrderedMap ResolvedField → OrderedMap ResolvedField
  | [], fields => fields
  | (name, d) :: rest, fields =>
    layFields origin bindings rest <| (fields.erase name).insert name
      { expression := d.expression.substitute bindings, tags := d.tags, origin }

/-- The schema of an instantiation from its merged members and own fields. -/
def assemble (i : Instantiation) (bindings : Bindings) (own : OrderedMap FieldDef)
    (merged : Merged) : ResolvedSchema :=
  { instantiation := i
    fields := layFields i.name bindings own.entries (merged.held.mapValues Contribution.field)
    lineage := .ofList (i.label :: merged.lineage) }

namespace Composer

/-- Actions on the memo. -/
abbrev Resolving (α : Type) := Action SchemaError Memo α

/-- Resolves members in order, merging each with those before it; `owner` is the
type that composes them. -/
def mergeEach (resolve : Instantiation → Resolving ResolvedSchema) (owner : String) :
    List TypeExpr → Merged → Action SchemaError Memo Merged
  | [], merged => return merged
  | member :: rest, merged =>
    match member.instantiation? with
    | none => .fail (.definition owner (.notTypeName member.render))
    | some i => do
      let parent ← resolve i
      match mergeMember merged.held parent with
      | .error conflict => do
        .note .warning .composer conflict.message
        .fail conflict.toSchemaError
      | .ok held =>
        mergeEach resolve owner rest { held, lineage := merged.lineage ++ parent.lineage.toList }

/-- Composes the schema of an instantiation and remembers it. -/
def composeNew (resolve : Instantiation → Resolving ResolvedSchema) (i : Instantiation)
    (bindings : Bindings) (c : Composition) : Action SchemaError Memo ResolvedSchema := do
  let merged ← mergeEach resolve i.name (c.members bindings) { held := .empty, lineage := [] }
  let schema := assemble i bindings c.fields merged
  .note .debug .composer
    ("Composed " ++ schema.label ++ " with " ++ toString schema.fields.size ++ " fields")
  .modify fun memo => memo.addSchema i schema
  return schema

/-- The definition of an instantiation, what its parameters are bound to, and the
instantiation completed by the defaults. -/
def complete (c : Composer) (i : Instantiation) :
    Except SchemaError (Definition × Bindings × Instantiation) := do
  let d ← c.registry.lookup i.name
  let (bindings, args) ← d.bind i.args
  return (d, bindings, { name := i.name, args })

/-- An instantiation that is known already, or all that its composition starts from. -/
inductive Start where
  | known (schema : ResolvedSchema)
  | fresh (key : Instantiation) (bindings : Bindings) (parts : Composition)

/-- Looks an instantiation up inside the composition of those in `chain`,
outermost first. The instantiation is completed by its defaults before the memo
and the chain are asked for it. -/
def start (c : Composer) (chain : List Instantiation) (i : Instantiation) :
    Action SchemaError Memo Start := do
  let (d, bindings, key) ← .ofExcept (c.complete i)
  let memo ← .get
  match memo.schemas.lookup key with
  | some schema => do
    .note .debug .composer ("Cache hit for " ++ i.name)
    return .known schema
  | none => do
    let parts ← .ofExcept d.composition
    if key ∈ chain then .fail (.inheritanceCycle (chain.map Instantiation.label ++ [i.name]))
    else return .fresh key bindings parts

/-- The schema of an instantiation, inside the composition of the instantiations
in `chain`; `room` more can be composed inside each other. -/
def compose (c : Composer) :
    (room : Nat) → (chain : List Instantiation) → Instantiation →
      Action SchemaError Memo ResolvedSchema
  | 0, chain, i => do
    match ← c.start chain i with
    | .known schema => return schema
    | .fresh .. => .fail (.resolutionDepth i.name c.maxDepth)
  | room + 1, chain, i => do
    match ← c.start chain i with
    | .known schema => return schema
    | .fresh key bindings parts =>
      composeNew (compose c room (chain ++ [key])) key bindings parts

/-! ## Resolving -/

/-- The schema of a type that denotes a struct, directly or through an alias. -/
def resolveStruct (c : Composer) (i : Instantiation) : Action SchemaError Memo ResolvedSchema :=
  c.compose c.maxDepth [] i

/-- The schema or the expression of a type name with arguments. -/
def resolve (c : Composer) (i : Instantiation) : Action SchemaError Memo Resolved := do
  let (d, bindings, key) ← .ofExcept (c.complete i)
  match d.plainExpression? with
  | none => Resolved.schema <$> c.resolveStruct i
  | some e => do
    let memo ← .get
    match memo.expressions.lookup key with
    | some known => return .expression known
    | none => do
      let result := e.substitute bindings
      .modify fun memo => memo.addExpression key result
      return .expression result

/-- What an expression resolves to: a type name as such, any other expression to itself. -/
def resolveExpression (c : Composer) (e : TypeExpr) : Action SchemaError Memo Resolved :=
  match e.instantiation? with
  | some i => c.resolve i
  | none => return .expression e

end Composer

end WidgetSchema
