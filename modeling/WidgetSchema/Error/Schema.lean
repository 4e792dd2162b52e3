/-
The errors of registering, composing and checking.

`SchemaError` lists every way in which a table, a type or a value can be refused
outright; a value that merely does not fit its type is no error but a failure in
the verdict. `Fault` adds what can stop the program around them: a catalogue
that does not exist, a type that is not one, a log level nobody knows, a document
that is not text or has an impossible name, an alias that unfolds without end, an
integer that is too long to be read or written, and too many calls inside one
another.
-/
import WidgetSchema.Error.Syntax
import WidgetSchema.Number.Digits
import WidgetSchema.Text.CodePoint

set_option autoImplicit false

namespace WidgetSchema

/-! ## Malformed table entries -/

/-- What is wrong with the shape of a struct entry. -/
inductive EntryFault where
  /-- The parameters are neither a list nor a text. -/
  | parametersNotList
  /-- A parameter is not a text. -/
  | parameterNotText (index : Nat)
  /-- The supertype is not a text. -/
  | supertypeNotText
  /-- The key of a field, shown as it is written, is not a text. -/
  | fieldKeyNotText (key : String)
  /-- The type of the field with this key is not a text. -/
  | fieldNotText (key : String)
  /-- A field has a name that is not one. -/
  | invalidFieldName (name : String)
  /-- The entry is not a table. -/
  | notTable
deriving DecidableEq, Repr

namespace EntryFault

/-- The class of a fault. -/
def kind : EntryFault → String
  | parametersNotList => "list_type"
  | parameterNotText _ | supertypeNotText | fieldKeyNotText _ | fieldNotText _ => "string_type"
  | invalidFieldName _ => "value_error"
  | notTable => "model_type"

/-- The place of a fault inside the entry, from the outside in. -/
def location : EntryFault → List String
  | parametersNotList => ["macro"]
  | parameterNotText index => ["macro", toString index]
  | supertypeNotText => ["super_"]
  | fieldKeyNotText key => ["entries", key, "[key]"]
  | fieldNotText key => ["entries", key]
  | invalidFieldName _ => ["entries"]
  | notTable => []

/-- The wording of a fault. -/
def message : EntryFault → String
  | parametersNotList => "Input should be a valid list"
  | parameterNotText _ | supertypeNotText | fieldKeyNotText _ | fieldNotText _ =>
    "Input should be a valid string"
  | invalidFieldName name => "Value error, invalid field name " ++ Quoted.ofString name
  | notTable => "Input should be a valid dictionary or instance of RawStructDefinition"

end EntryFault

/-! ## Schema errors -/

/-- Why a table entry or a type makes no definition. -/
inductive DefinitionFault where
  /-- The name is not a qualified name or belongs to a scalar kind. -/
  | invalidName
  /-- A ready definition has another name. -/
  | namedOtherwise (name : String)
  /-- An entry of a kind that defines nothing. -/
  | unsupportedEntry (kind : String)
  /-- One parameter name twice. -/
  | duplicateParameter (name : String)
  /-- An alias that does not compose struct types; its expression as written. -/
  | notComposition (expression : String)
  /-- A supertype member that names no type, as written. -/
  | notTypeName (member : String)
  /-- A struct entry of the wrong shape. -/
  | malformed (faults : List EntryFault)
  /-- A fault described in other words. -/
  | other (message : String)
deriving DecidableEq, Repr

/-- The wording of a fault. -/
def DefinitionFault.message : DefinitionFault → String
  | invalidName => "not a valid type name"
  | namedOtherwise name => "definition is named '" ++ name ++ "'"
  | unsupportedEntry kind => "unsupported entry of type " ++ kind
  | duplicateParameter name => "duplicate parameter '" ++ name ++ "'"
  | notComposition expression => "'" ++ expression ++ "' is not a composition of struct types"
  | notTypeName member => "supertype member '" ++ member ++ "' is not a type name"
  | malformed faults =>
    "; ".intercalate (faults.map fun f => ".".intercalate f.location ++ ": " ++ f.message)
  | other message => message

/-- An error in a table, a type or a value. -/
inductive SchemaError where
  /-- An error described in other words. -/
  | general (message : String)
  /-- A text is malformed; the position is counted from the start of the text. -/
  | syntaxError (fault : SyntaxFault) (raw : String) (offset : Int)
  /-- A table entry or type makes no definition. -/
  | definition (name : String) (fault : DefinitionFault)
  /-- A type name is not registered. -/
  | unknownType (name : String)
  /-- A type name is registered already. -/
  | duplicateDefinition (name : String)
  /-- The build phase of the registry is over. -/
  | registryFrozen (name : String)
  /-- A generic type is applied to the wrong number of arguments. -/
  | arity (name : String) (expected given : Int) (explanation : Option String)
  /-- Two supertypes declare one field differently. -/
  | compositionConflict (field first second : String) (detail : Option String)
  /-- A chain of supertypes leads back to a type on it. -/
  | inheritanceCycle (chain : List String)
  /-- A type nests deeper than the bound. -/
  | resolutionDepth (name : String) (maxDepth : Int)
  /-- A schema has no such field. -/
  | unknownField (schema field : String)
  /-- A container reappears inside itself. -/
  | cyclicValue (path : CodeText)
deriving DecidableEq, Repr

namespace SchemaError

/-- The name of the class of an error, as reports show it. -/
def className : SchemaError → String
  | general _ => "SchemaError"
  | syntaxError .. => "ExpressionSyntaxError"
  | definition .. => "DefinitionError"
  | unknownType _ => "UnknownTypeError"
  | duplicateDefinition _ => "DuplicateDefinitionError"
  | registryFrozen _ => "RegistryFrozenError"
  | arity .. => "ArityError"
  | compositionConflict .. => "CompositionConflictError"
  | inheritanceCycle _ => "InheritanceCycleError"
  | resolutionDepth .. => "ResolutionDepthError"
  | unknownField .. => "UnknownFieldError"
  | cyclicValue _ => "CyclicValueError"

/-- The wording of an error, as it is written out: a surrogate that stands alone in a
path appears by its escape. -/
def message : SchemaError → String
  | general message => message
  | syntaxError fault raw offset =>
    fault.message ++ " at offset " ++ toString offset ++ " in " ++ Quoted.ofString raw
  | definition name fault => "Invalid definition '" ++ name ++ "': " ++ fault.message
  | unknownType name => "Unknown type '" ++ name ++ "'"
  | duplicateDefinition name => "Type '" ++ name ++ "' is already defined"
  | registryFrozen name => "Cannot register '" ++ name ++ "': registry is frozen"
  | arity name expected given explanation =>
    explanation.getD ("Type '" ++ name ++ "' takes " ++ toString expected
      ++ " generic argument(s), " ++ toString given ++ " given")
  | compositionConflict field first second detail =>
    "Field '" ++ field ++ "' is declared differently by '" ++ first ++ "' and '" ++ second ++ "'"
      ++ (match detail with | some d => ": " ++ d | none => "")
  | inheritanceCycle chain => "Cyclic supertype chain: " ++ " -> ".intercalate chain
  | resolutionDepth name maxDepth =>
    "Resolution of '" ++ name ++ "' exceeded the maximum depth of " ++ toString maxDepth
  | unknownField schema field => "Schema '" ++ schema ++ "' has no field '" ++ field ++ "'"
  | cyclicValue path => "Cyclic value detected at " ++ path.spelled

end SchemaError

/-- A misread text, as an error in a table or type. -/
def SyntaxError.toSchemaError (e : SyntaxError) : SchemaError :=
  .syntaxError e.fault e.raw e.offset

/-! ## Faults of a whole run -/

/-- Whatever stops a request. -/
inductive Fault where
  /-- An error in a table, a type or a value. -/
  | schema (e : SchemaError)
  /-- No catalogue has this name; `available` are those that exist. -/
  | unknownCatalogue (name : String) (available : List String)
  /-- What a value was to be checked against is no type. -/
  | unsupportedType (shown : String)
  /-- No log level has this name. -/
  | unknownLogLevel (name : String)
  /-- A document is not encoded as text. -/
  | undecodable
  /-- A document is needed and none is named. -/
  | noDocument
  /-- The name of a document can be the name of no file. -/
  | impossiblePath (path : String)
  /-- The alias unfolded further than any chain of definitions reaches. -/
  | endlessAlias (label : String)
  /-- An integer has too many digits to be read or written. -/
  | tooManyDigits
  /-- The containers of a document nest too deep for it to be read. -/
  | tooDeep
  /-- The calls inside one another left no room for another one. -/
  | stackOverflow
  /-- An answer holds a character that the standard output does not have. -/
  | unprintable
deriving DecidableEq, Repr

/-- The wording of a fault. -/
def Fault.message : Fault → String
  | schema e => e.message
  | unknownCatalogue name available =>
    "Unknown catalogue '" ++ name ++ "'. Available: " ++ ", ".intercalate available
  | unsupportedType shown => "Unsupported type expression: " ++ shown
  | unknownLogLevel name => "Unknown level: " ++ Quoted.ofString name
  | undecodable => "the document is not valid text"
  | noDocument => "no document is named"
  | impossiblePath path => "no file can be named " ++ Quoted.ofString path
  | endlessAlias label => "alias '" ++ label ++ "' unfolds without end"
  | tooManyDigits => "an integer has more than " ++ toString Digits.limit ++ " digits"
  | tooDeep => "the document nests too deep"
  | stackOverflow => "the calls nest too deep"
  | unprintable => "the answer cannot be written"

end WidgetSchema
