/-
Nested tables and the flat tables they stand for.

A table whose keys are all capitalized groups types under a common name; the
name of a type is then the names of the groups around it, joined by dots. A
table with any other key is an entry of its own, since fields are not
capitalized. A key is written behind the names of its groups whatever its size;
that a whole number of very many digits could not be written is left out here.
-/
import WidgetSchema.Definition.Entry

set_option autoImplicit false

namespace WidgetSchema

namespace Entry

/-- A key that can name a type inside a group. -/
def isCapitalized : Atom → Bool
  | .text s =>
    match s.toList with
    | [] => false
    | c :: _ => Character.isUpper c
  | _ => false

/-- The keys are those of a group of types. -/
def isNamespace (fields : List (Atom × Entry)) : Bool :=
  !fields.isEmpty && fields.all fun f => isCapitalized f.1

mutual
/-- The types an entry stands for under a name: those inside it if it is a group,
and otherwise the entry itself. -/
def flatten (name : String) : Entry → List (String × Entry)
  | table fields =>
    if isNamespace fields then flattenAll (name ++ ".") fields else [(name, table fields)]
  | atom a => [(name, atom a)]
  | list items => [(name, list items)]
  | tuple items => [(name, tuple items)]
  | definition d texts => [(name, definition d texts)]

/-- The types of a table, each under its key behind a leading text. -/
def flattenAll (leading : String) : List (Atom × Entry) → List (String × Entry)
  | [] => []
  | (key, entry) :: rest => flatten (leading ++ key.keyText) entry ++ flattenAll leading rest
end

end Entry

/-- The types of a table, in order, each with its full name behind a leading text. -/
def flattenTable (leading : String) (table : List (Atom × Entry)) : List (String × Entry) :=
  Entry.flattenAll leading table

end WidgetSchema
