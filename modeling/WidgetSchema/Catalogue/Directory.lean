/-
The catalogues there are, by name.
-/
import WidgetSchema.Catalogue.Published
import WidgetSchema.Catalogue.Standard

set_option autoImplicit false

namespace WidgetSchema.Catalogue

/-- All catalogues, in the order they are listed. -/
def all : List Catalogue := [standard, published]

/-- The names of all catalogues. -/
def names : List String := all.map Catalogue.name

/-- The catalogue of a name. -/
def find (name : String) : Except Fault Catalogue :=
  match all.find? (·.name == name) with
  | some c => .ok c
  | none => .error (.unknownCatalogue name names)

end WidgetSchema.Catalogue
