/-
Catalogues: tables of types that come with the program.

A catalogue is plain data, read in the same way as any other table. The
functions here write entries down as the tables of a catalogue do.
-/
import WidgetSchema.Definition.Building

set_option autoImplicit false

namespace WidgetSchema

namespace Entry

/-- A table with texts as keys. -/
def keyed (fields : List (String × Entry)) : List (Atom × Entry) :=
  fields.map fun f => (.text f.1, f.2)

/-- The entry of an alias, or of a field. -/
def ofText (expression : String) : Entry := atom (.text expression)

/-- The entry of a struct without fields. -/
def emptyStruct : Entry := atom (.text emptyStructText)

/-- The entry of a struct: parameters and supertype, if there are any, before the fields. -/
def ofStruct (parameters : List String) (supertype : Option String)
    (fields : List (String × String)) : Entry :=
  let parameterFields :=
    if parameters.isEmpty then []
    else [(StructEntry.parametersKey, list (parameters.map ofText))]
  let supertypeFields := supertype.toList.map fun s => (StructEntry.supertypeKey, ofText s)
  table (parameterFields ++ supertypeFields
    ++ keyed (fields.map fun f => (f.1, ofText f.2)))

/-- Types grouped under a common name. -/
def group (fields : List (String × Entry)) : Entry := table (keyed fields)

end Entry

/-- A named table with a line about it. -/
structure Catalogue where
  name : String
  description : String
  table : List (Atom × Entry)

end WidgetSchema
