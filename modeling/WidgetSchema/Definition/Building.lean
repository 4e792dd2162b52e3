/-
Raw entries to definitions.

A text is an alias, except for an empty pair of braces, which is a struct without
fields; a table is a struct. Whatever is read inside an entry says in its faults
which definition or field it belongs to, and a fault in the type of a field is
placed in the text of the field as it was declared.
-/
import WidgetSchema.Definition.Entry
import WidgetSchema.Tag.Extraction

set_option autoImplicit false

namespace WidgetSchema

/-! ## Fields -/

/-- Moves the fault of a field's type from the trimmed text that was read to the
declared text, where it stands behind the leading blanks. -/
def SyntaxError.inDeclaration (declared : String) (e : SyntaxError) : SyntaxError :=
  { fault := e.fault
    raw := declared
    offset := e.offset + (declared.length - (Text.trimStart declared.toList).length) }

/-- The declaration of a field from its text; `place` names the field in faults. -/
def FieldDef.build (strict : Bool) (place raw : String) : Noted SyntaxError FieldDef := do
  let (text, tags) ← (extractTags strict raw).mapError (SyntaxError.within place)
  let expression ← Noted.ofExcept <|
    (TypeExpr.parse text).mapError fun e => (e.inDeclaration raw).within place
  return { expression, tags, raw }

/-- The declarations of the fields of a struct, in order. -/
def buildFields (strict : Bool) (owner : String) :
    List (String × String) → Noted SyntaxError (List (String × FieldDef))
  | [] => pure []
  | (name, raw) :: rest => do
    let field ← FieldDef.build strict (owner ++ "." ++ name) raw
    let fields ← buildFields strict owner rest
    return (name, field) :: fields

/-! ## Parameters -/

/-- The parameters of a definition, in order. -/
def readParameters : List String → Except SyntaxError (List GenericParameter)
  | [] => .ok []
  | raw :: rest => do
    let parameter ← GenericParameter.parse raw
    let parameters ← readParameters rest
    .ok (parameter :: parameters)

/-- The first name that stands a second time in a list. -/
def firstRepeated? (seen : List String) : List String → Option String
  | [] => none
  | name :: rest => if name ∈ seen then some name else firstRepeated? (name :: seen) rest

/-! ## Definitions -/

/-- The text that declares a struct without fields. -/
def emptyStructText : String := "\x7b\x7d"

/-- An expression of a definition; a fault names the definition. -/
def parseIn (owner raw : String) : Except SchemaError TypeExpr :=
  (TypeExpr.parse raw).mapError fun e => (e.within owner).toSchemaError

/-- The parameters of a definition, which have different names. -/
def buildParameters (owner : String) (raws : List String) :
    Except SchemaError (List GenericParameter) := do
  let parameters ← (readParameters raws).mapError fun e => (e.within owner).toSchemaError
  match firstRepeated? [] (parameters.map GenericParameter.name) with
  | some name => .error (.definition owner (.duplicateParameter name))
  | none => .ok parameters

/-- The supertype of a definition; an empty text is none. -/
def buildSupertype (owner : String) : Option String → Except SchemaError (Option TypeExpr)
  | none => .ok none
  | some raw => if raw.isEmpty then .ok none else (parseIn owner raw).map some

/-- The struct that a struct entry declares. -/
def StructDef.build (strict : Bool) (name : String) (entry : StructEntry) :
    Noted SchemaError StructDef := do
  let parameters ← Noted.ofExcept (buildParameters name entry.parameters)
  let supertype ← Noted.ofExcept (buildSupertype name entry.supertype)
  let fields ← (buildFields strict name entry.fields).mapError SyntaxError.toSchemaError
  return { name, fields := OrderedMap.ofList fields, supertype, parameters }

/-- The definition that a raw entry declares under a name. -/
def Definition.build (strict : Bool) (name : String) : Entry → Noted SchemaError Definition
  | .definition d _ =>
    if d.name = name then pure d else .fail (.definition name (.namedOtherwise d.name))
  | .atom (.text raw) =>
    if Text.trimmed raw = emptyStructText then
      pure (.ofStruct { name, fields := .empty, supertype := none, parameters := [] })
    else do
      let expression ← Noted.ofExcept (parseIn name raw)
      return .ofAlias { name, expression, parameters := [] }
  | .table fields =>
    match StructEntry.ofFields fields with
    | .error faults => .fail (.definition name (.malformed faults))
    | .ok entry => do
      let d ← StructDef.build strict name entry
      return .ofStruct d
  | entry => .fail (.definition name (.unsupportedEntry entry.kindName))

end WidgetSchema
