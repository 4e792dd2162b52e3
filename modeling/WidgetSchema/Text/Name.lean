/-
The kinds of names: qualified type names, parameter names, field names and tag
keys.

A type name is one or more segments joined by single dots; every segment starts
with an ASCII letter, an underscore or a dollar sign. `nameTail` takes the
longest part of a text that continues a name, so the same function reads a name
inside an expression and decides whether a whole text is a name.
-/
import WidgetSchema.Text.Character

set_option autoImplicit false

namespace WidgetSchema.Name

open Character

/-- A character a name segment may start with. -/
def isStart (c : Char) : Bool := isAsciiLetter c || c == '_' || c == '$'

/-- A character a name segment may go on with. -/
def isPart (c : Char) : Bool := isWord c || c == '$'

/-- The longest continuation of a name and the text after it. A dot belongs to
the name only if another segment starts right behind it. -/
def nameTail : List Char → List Char × List Char
  | [] => ([], [])
  | c :: cs =>
    if isPart c then (c :: (nameTail cs).1, (nameTail cs).2)
    else match cs with
      | d :: _ =>
        if c = '.' ∧ isStart d then (c :: (nameTail cs).1, (nameTail cs).2) else ([], c :: cs)
      | [] => ([], [c])

/-- The text is a qualified name, such as `UI.Flow.Cut`. -/
def isQualified (s : String) : Bool :=
  match s.toList with
  | [] => false
  | c :: cs => isStart c && (nameTail cs).2.isEmpty

/-- The text is a single name segment, as parameters have. -/
def isParameter (s : String) : Bool :=
  match s.toList with
  | [] => false
  | c :: cs => isStart c && cs.all isPart

/-- The text names a field: letters, digits and underscores, no digit first. -/
def isField (s : String) : Bool :=
  match s.toList with
  | [] => false
  | c :: cs => (isAsciiLetter c || c == '_') && cs.all isWord

/-- The text is the key of a tag: a field name that may go on with dots and hyphens. -/
def isTagKey (s : String) : Bool :=
  match s.toList with
  | [] => false
  | c :: cs => (isAsciiLetter c || c == '_') && cs.all fun d => isWord d || d == '.' || d == '-'

end WidgetSchema.Name
