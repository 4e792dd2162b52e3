/-
The registry: every defined type by name.

Types are registered one by one until the registry is frozen. A registration that
fails leaves the registry as it was; a batch that fails keeps the entries before
the failing one. The order of registration is the order of the names.
-/
import WidgetSchema.Definition.Building
import WidgetSchema.Definition.Namespace

set_option autoImplicit false

namespace WidgetSchema

/-- The defined types and whether more can be added. -/
structure Registry where
  definitions : OrderedMap Definition
  frozen : Bool
deriving DecidableEq

namespace Registry

/-- The registry without types. -/
def empty : Registry := { definitions := .empty, frozen := false }

/-- The registered names, in order of registration. -/
def names (r : Registry) : List String := r.definitions.keys

/-- The definition of a name. -/
def lookup (r : Registry) (name : String) : Except SchemaError Definition :=
  match r.definitions.get? name with
  | some d => .ok d
  | none => .error (.unknownType name)

/-- The name can be registered at all: it is qualified and no scalar kind. -/
def isTypeName (name : String) : Bool := Name.isQualified name && !isPrimitiveName name

/-! ## Registration -/

/-- Why a name cannot be registered now, whatever its entry is. -/
def refusal? (r : Registry) (name : String) : Option SchemaError :=
  if r.frozen then some (.registryFrozen name)
  else if !isTypeName name then some (.definition name .invalidName)
  else if r.definitions.contains name then some (.duplicateDefinition name)
  else none

/-- The registry with one more definition. -/
def add (r : Registry) (name : String) (d : Definition) : Registry :=
  { r with definitions := r.definitions.insert name d }

/-- Registers the definition that an entry declares. -/
def register (strictTags : Bool) (name : String) (entry : Entry) :
    Action SchemaError Registry Definition := do
  let r ← .get
  match r.refusal? name with
  | some e => .fail e
  | none =>
    let d ← .ofNoted (Definition.build strictTags name entry)
    .modify fun r => r.add name d
    .note .debug .registry ("Registered " ++ d.kindName ++ " '" ++ name ++ "'")
    return d

/-- Registers entries in order, up to the first that fails. -/
def registerEach (strictTags : Bool) :
    List (String × Entry) → Action SchemaError Registry Unit
  | [] => return ()
  | (name, entry) :: rest => do
    let _ ← register strictTags name entry
    registerEach strictTags rest

/-- Registers the types of a flat table and returns their names. -/
def registerAll (strictTags : Bool) (entries : List (String × Entry)) :
    Action SchemaError Registry (List String) := do
  registerEach strictTags entries
  .note .info .registry ("Registered " ++ toString entries.length ++ " type definitions")
  return entries.map Prod.fst

/-- The registry to which nothing can be added. -/
def freeze (r : Registry) : Registry := { r with frozen := true }

/-! ## The prelude -/

/-- The types that every table may use: a flag is set or absent, a text is one
line or several, and any type can be made optional by name. -/
def prelude : List (String × Entry) :=
  [("Flag", .atom (.text "boolean?")),
   ("Text", .atom (.text "string|[string]")),
   ("Maybe", .definition
     (.ofAlias
       { name := "Maybe"
         expression := .optional (.reference "T")
         parameters := [{ name := "T", default := none }] })
     .none)]

/-! ## Dangling references -/

/-- The names a definition mentions that are neither its parameters nor
registered, in ascending order. -/
def danglingIn (r : Registry) (d : Definition) : List String :=
  (LiteralSet.ofList (d.freeReferences.filter fun n => !r.definitions.contains n)).toList

/-- The definitions with dangling names, in order of registration. -/
def unresolvedReferences (r : Registry) : List (String × List String) :=
  (r.definitions.entries.map fun e => (e.1, r.danglingIn e.2)).filter fun e => !e.2.isEmpty

end Registry

end WidgetSchema
