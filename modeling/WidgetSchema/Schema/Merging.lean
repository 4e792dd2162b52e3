/-
Supertypes that share fields.

The members of a composition are merged from left to right. Each field remembers
the member it came from, its holder. A member that declares the same type adds
nothing; one that declares another type is decided by ancestry: a descendant
overrides what its ancestor declared, whichever comes first, and members of
which neither descends from the other conflict.
-/
import WidgetSchema.Schema.Basic

set_option autoImplicit false

namespace WidgetSchema

/-- A field and the member it came from. -/
structure Contribution where
  field : ResolvedField
  holder : ResolvedSchema
deriving DecidableEq

/-- Two members that declare one field differently. -/
structure Conflict where
  field : String
  first : ResolvedSchema
  second : ResolvedSchema
  /-- The type that the first member gives the field. -/
  held : TypeExpr
  /-- The type that the second member gives the field. -/
  offered : TypeExpr
deriving DecidableEq

namespace Conflict

/-- The error that reports a conflict. -/
def toSchemaError (c : Conflict) : SchemaError :=
  .compositionConflict c.field c.first.label c.second.label
    (some (c.held.render ++ " vs " ++ c.offered.render))

/-- What the journal says about a conflict. -/
def message (c : Conflict) : String :=
  "Field '" ++ c.field ++ "' conflicts between " ++ c.first.label ++ " and " ++ c.second.label

end Conflict

/-- What to do with a field that is held already. -/
inductive Decision where
  | keep | replace | conflict
deriving DecidableEq, Repr

/-- A member offers a field that another one holds. -/
def Contribution.decide (held : Contribution) (member : ResolvedSchema) (offered : ResolvedField) :
    Decision :=
  if held.field.expression = offered.expression then .keep
  else if held.holder.label = member.label then .conflict
  else if member.label ∈ held.holder.lineage then .keep
  else if held.holder.label ∈ member.lineage then .replace
  else .conflict

/-- Adds one field of a member to the fields held so far. -/
def mergeField (held : OrderedMap Contribution) (member : ResolvedSchema) (name : String)
    (offered : ResolvedField) : Except Conflict (OrderedMap Contribution) :=
  let mine : Contribution := { field := offered, holder := member }
  match held.get? name with
  | none => .ok (held.insert name mine)
  | some c =>
    match c.decide member offered with
    | .keep => .ok held
    | .replace => .ok (held.insert name mine)
    | .conflict =>
      .error { field := name, first := c.holder, second := member,
               held := c.field.expression, offered := offered.expression }

/-- Adds fields of a member, in order. -/
def mergeFields (member : ResolvedSchema) :
    List (String × ResolvedField) → OrderedMap Contribution →
      Except Conflict (OrderedMap Contribution)
  | [], held => .ok held
  | (name, offered) :: rest, held => do
    let held ← mergeField held member name offered
    mergeFields member rest held

/-- Adds a member. -/
def mergeMember (held : OrderedMap Contribution) (member : ResolvedSchema) :
    Except Conflict (OrderedMap Contribution) :=
  mergeFields member member.fields.entries held

/-- Merges members from left to right. -/
def mergeMembers : List ResolvedSchema → OrderedMap Contribution →
    Except Conflict (OrderedMap Contribution)
  | [], held => .ok held
  | member :: rest, held => do
    let held ← mergeMember held member
    mergeMembers rest held

end WidgetSchema
