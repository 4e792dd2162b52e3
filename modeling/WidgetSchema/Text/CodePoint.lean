/-
Texts by code points.

Most texts are made of characters, and a `String` holds them. A document can also ask, by an
escape, for a surrogate that stands alone: one half of a pair of code units, and no character. A
text with such a half in it is a value like any other text, and it is no `String`.
-/
import WidgetSchema.Text.Quoted

set_option autoImplicit false

namespace WidgetSchema

/-- A code point of a text. -/
inductive CodePoint where
  | char (c : Char)
  /-- A half that stands alone, by its place among the surrogates. -/
  | surrogate (place : Fin 0x800)
deriving DecidableEq, Repr

namespace CodePoint

/-- The number of the first surrogate. -/
def firstSurrogate : Nat := 0xD800

/-- The code unit of a half that stands alone. -/
def unit (place : Fin 0x800) : Nat := firstSurrogate + place.val

/-- The character that a code point is, if it is one. -/
def char? : CodePoint → Option Char
  | char c => some c
  | surrogate _ => none

end CodePoint

/-- A text by its code points. -/
abbrev CodeText := List CodePoint

namespace CodeText

/-- A text without surrogates. -/
def ofString (s : String) : CodeText := s.toList.map .char

instance : Coe String CodeText := ⟨ofString⟩

/-- Texts with another text between each two. -/
def intercalate (separator : CodeText) (texts : List CodeText) : CodeText :=
  List.intercalate separator texts

/-- The characters of a text, if it has no surrogates. -/
def chars? (t : CodeText) : Option (List Char) := t.mapM CodePoint.char?

/-- One code point inside quotes: a surrogate has no visible form. -/
def escapePoint (quote : Char) : CodePoint → List Char
  | .char c => Quoted.escape quote c
  | .surrogate place => Quoted.escapeHidden (CodePoint.unit place)

/-- A text in quotes, as messages show it. -/
def quoted (t : CodeText) : String :=
  let quote := Quoted.quoteFor (t.contains (.char '\'')) (t.contains (.char '"'))
  String.ofList (quote :: t.flatMap (escapePoint quote) ++ [quote])

/-- A text as the wording of an error repeats it: a surrogate is written by its escape there. -/
def spelled (t : CodeText) : String :=
  String.ofList (t.flatMap fun
    | .char c => [c]
    | .surrogate place => Quoted.escapeHidden (CodePoint.unit place))

end CodeText

/-- A text that is no `String`. -/
structure UnpairedText where
  points : CodeText
  unpaired : points.chars? = none
deriving DecidableEq, Repr

end WidgetSchema
