/-
Which value a resolution returns.

The ledger keeps, beside the memo, where the remembered values come from. It is
brought up to date by following a computation that has ended: the same names are
resolved in the same order, and of what the memo holds now, whatever the ledger
does not know yet was remembered when it was first met. Following ends where the
computation failed.
-/
import WidgetSchema.Schema.Resolution
import WidgetSchema.Sharing.Origin

set_option autoImplicit false

namespace WidgetSchema

/-! ## Declared texts -/

/-- The readings of the types of declared fields. -/
def fieldReadings (fields : List (String × String)) : List (String × Readings) :=
  fields.map fun f =>
    match (extractTags false f.2).outcome with
    | .ok (text, _) => (f.1, .whole text)
    | .error _ => (f.1, [])

/-- The readings of the default of a declared parameter. -/
def defaultReadings (raw : String) : Readings :=
  match GenericParameter.defaultText? raw with
  | some text => .whole text
  | none => []

/-- The texts behind the definition that an entry declares. -/
def DeclaredTexts.ofEntry : Entry → DeclaredTexts
  | .definition _ texts => texts
  | .atom (.text raw) => { body := .whole raw, defaults := [], fields := [] }
  | .table fields =>
    match StructEntry.ofFields fields with
    | .ok entry =>
      { body := (entry.supertype.map Readings.whole).getD []
        defaults := entry.parameters.map defaultReadings
        fields := fieldReadings entry.fields }
    | .error _ => .none
  | _ => .none

/-! ## The ledger -/

/-- Where the remembered values come from. -/
structure Ledger where
  /-- The number of occasions on which values were made. -/
  occasions : Nat
  /-- The texts behind each definition, and the occasion it was registered on. -/
  declarations : List (String × DeclaredTexts × Nat)
  /-- The field types of each schema in the memo. -/
  schemas : List (Instantiation × List (String × Origins))
  /-- The expressions in the memo. -/
  expressions : List (Instantiation × Origins)

namespace Ledger

/-- The ledger before anything is registered. -/
def empty : Ledger := { occasions := 0, declarations := [], schemas := [], expressions := [] }

/-- Forgets all resolutions. -/
def forget (l : Ledger) : Ledger := { l with schemas := [], expressions := [] }

/-- The texts behind a definition and the occasion it was registered on. -/
def declaration (l : Ledger) (name : String) : DeclaredTexts × Nat :=
  (l.declarations.lookup name).getD (.none, 0)

/-- Adds the entries that a registry took in, in order. -/
def declare (r : Registry) : List (String × Entry) → Ledger → Ledger
  | [], l => l
  | (name, entry) :: rest, l =>
    if r.definitions.contains name && (l.declarations.lookup name).isNone then
      declare r rest
        { l with
          occasions := l.occasions + 1
          declarations := (name, DeclaredTexts.ofEntry entry, l.occasions) :: l.declarations }
    else declare r rest l

end Ledger

/-- What follows a computation in the ledger, up to where it failed. -/
abbrev Following (α : Type) := OptionT (StateM Ledger) α

/-- What a computation worked with and the memo it left. -/
structure Guide where
  composer : Composer
  memo : Memo

/-- What a name resolves to, as a value: a schema, which belongs to its
instantiation alone, or an expression. -/
inductive SharedAnswer where
  | schema (s : ResolvedSchema)
  | expression (e : SharedExpr)

/-- What tells apart the values that names resolve to. -/
inductive Identity where
  | schema (i : Instantiation)
  | expression (o : Origin)
deriving DecidableEq

/-- The identity of an answer. -/
def SharedAnswer.identity : SharedAnswer → Identity
  | .schema s => .schema s.instantiation
  | .expression e => .expression e.origins.here

namespace Following

/-- A new occasion. -/
def occasion : Following Nat := do
  let l ← get
  set { l with occasions := l.occasions + 1 }
  return l.occasions

/-- An expression that is given from outside. -/
def hold (e : SourcedExpr) : Following SharedExpr := do
  return .made (← occasion) [] e.readings e.expression

/-- Binds parameters, from a number on, to arguments and defaults; a parameter
without either ends it. `declared` is the occasion of the definition. -/
def bindFrom (defaults : List Readings) (declared occasion : Nat) :
    (number : Nat) → List GenericParameter → List SharedExpr → List (String × SharedExpr) →
      List (String × SharedExpr)
  | _, [], _, bindings => bindings
  | number, p :: ps, arg :: args, bindings =>
    bindFrom defaults declared occasion (number + 1) ps args ((p.name, arg) :: bindings)
  | number, p :: ps, [], bindings =>
    match p.default with
    | none => bindings
    | some e =>
      let given := SharedExpr.made declared [0, number] (defaults[number]?.getD []) e
      bindFrom defaults declared occasion (number + 1) ps []
        ((p.name, given.bind occasion [0, number] bindings) :: bindings)

/-- A definition with its parameters bound. -/
structure Bound where
  definition : Definition
  key : Instantiation
  /-- The expression of an alias or the supertype of a struct. -/
  body : Option SharedExpr
  /-- The types of the own fields of a struct. -/
  fields : List (String × SharedExpr)

/-- Binds the parameters of a named definition, if the arguments fit. -/
def bindArgs (g : Guide) (name : String) (args : List SharedExpr) : Following Bound := do
  match g.composer.complete { name, args := args.map SharedExpr.expression } with
  | .error _ => failure
  | .ok (definition, _, key) =>
    let now ← occasion
    let (texts, declared) := (← get).declaration name
    let bindings := bindFrom texts.defaults declared now 0 definition.parameters args []
    let body (e : TypeExpr) : SharedExpr :=
      (SharedExpr.made declared [1] texts.body e).bind now [1] bindings
    let field (f : (String × FieldDef) × Nat) : String × SharedExpr :=
      let readings := (texts.fields.lookup f.1.1).getD []
      let given := SharedExpr.made declared [2, f.2] readings f.1.2.expression
      (f.1.1, given.bind now [2, f.2] bindings)
    return match definition with
      | .ofAlias d => { definition, key, body := some (body d.expression), fields := [] }
      | .ofStruct d =>
        { definition, key
          body := d.supertype.map body
          fields := d.fields.entries.zipIdx.map field }

/-- The schemas of members, as far as the memo has them. -/
def memberSchemas (g : Guide) (members : List SharedExpr) : List ResolvedSchema :=
  members.filterMap fun m => do
    let i ← m.expression.instantiation?
    let (_, _, key) ← (g.composer.complete i).toOption
    g.memo.schemas.lookup key

/-- The origins of the field types of a schema: those of its own fields are at
hand, and an inherited field has the type of the member that it came from. -/
def fieldOrigins (l : Ledger) (b : Bound) (members : List ResolvedSchema)
    (s : ResolvedSchema) : List (String × Origins) :=
  let held := ((mergeMembers members .empty).toOption).getD .empty
  s.fields.entries.filterMap fun f =>
    match b.fields.lookup f.1 with
    | some e => some (f.1, e.origins)
    | none => do
      let c ← held.get? f.1
      let inherited ← l.schemas.lookup c.holder.instantiation
      return (f.1, ← inherited.lookup f.1)

/-- Enters the schema of a composition whose members have been followed, if it
succeeded. -/
def enterSchema (g : Guide) (b : Bound) : Following Unit := do
  match g.memo.schemas.lookup b.key with
  | none => failure
  | some s =>
    let members := memberSchemas g ((b.body.map SharedExpr.operands).getD [])
    modify fun l => { l with schemas := (b.key, fieldOrigins l b members s) :: l.schemas }

/-- Follows the composition of a name inside the compositions in `chain`; `room`
more are composed inside each other. -/
def compose (g : Guide) :
    (room : Nat) → (chain : List Instantiation) → String → List SharedExpr → Following Unit
  | 0, _, name, args => do
    let b ← bindArgs g name args
    if ((← get).schemas.lookup b.key).isSome then return () else failure
  | room + 1, chain, name, args => do
    let b ← bindArgs g name args
    if ((← get).schemas.lookup b.key).isSome then return ()
    else if b.key ∈ chain then failure
    else
      ((b.body.map SharedExpr.operands).getD []).forM fun member =>
        match member.request? with
        | none => failure
        | some (base, args) => compose g room (b.key :: chain) base args
      enterSchema g b

/-- Follows the composition of a name and says what it resolved to. -/
def resolveStruct (g : Guide) (name : String) (args : List SharedExpr) :
    Following SharedAnswer := do
  compose g g.composer.maxDepth [] name args
  let b ← bindArgs g name args
  match g.memo.schemas.lookup b.key with
  | some s => return .schema s
  | none => failure

/-- The value of an alias: the one that it was first resolved to, or else the one
at hand, which is it from now on. -/
def first (key : Instantiation) (body : SharedExpr) : Following SharedAnswer := do
  match (← get).expressions.lookup key with
  | some origins => return .expression { body with origins }
  | none =>
    modify fun l => { l with expressions := (key, body.origins) :: l.expressions }
    return .expression body

/-- Follows the resolution of a name and says what it resolved to. -/
def resolve (g : Guide) (name : String) (args : List SharedExpr) :
    Following SharedAnswer := do
  let b ← bindArgs g name args
  match b.definition.plainExpression?, b.body with
  | some _, some body => first b.key body
  | _, _ => resolveStruct g name args

/-- Follows the resolution of an expression: a type name as such, any other
expression is its own answer. -/
def resolveExpression (g : Guide) (e : SharedExpr) : Following SharedAnswer :=
  match e.request? with
  | some (name, args) => resolve g name args
  | none => return .expression e

end Following

end WidgetSchema
