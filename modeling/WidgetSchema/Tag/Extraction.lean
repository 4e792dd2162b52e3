/-
The tags behind a field's type.

A field is declared by one text: a type expression, then words of the form
`@key=value`. The expression ends before the first tag mark that stands outside
double quotes, so a literal may hold one. From there on every word has to be a
tag. In strict reading a known key takes only the values it allows; otherwise
any value is kept, and the journal says so.
-/
import WidgetSchema.Error.Syntax
import WidgetSchema.Expr.Lexer
import WidgetSchema.Journal.Action
import WidgetSchema.Tag.Basic
import WidgetSchema.Text.Name
import WidgetSchema.Text.Trimming

set_option autoImplicit false

namespace WidgetSchema

namespace Tagging

/-- The text up to the first tag mark outside double quotes, and the text from
that mark on; `quoted` says whether the text starts inside quotes. -/
def split (quoted : Bool) : List Char → List Char × List Char
  | [] => ([], [])
  | c :: cs =>
    if c = '@' ∧ quoted = false then ([], c :: cs)
    else
      let rest := split (if c = '"' then !quoted else quoted) cs
      (c :: rest.1, rest.2)

/-- The key and the value of a word that has the form of a tag. -/
def readTag (word : List Char) (offset : Nat) : Except LocatedFault (String × String) :=
  let here (fault : SyntaxFault) : Except LocatedFault (String × String) :=
    .error { fault, offset }
  match word with
  | '@' :: body =>
    match Text.cutAt '=' body with
    | (_, none) => here (.tagWithoutValue (String.ofList word))
    | (key, some value) =>
      if key.isEmpty then here .emptyTagKey
      else if !Name.isTagKey (String.ofList key) then here (.invalidTagKey (String.ofList key))
      else if value.isEmpty || value.contains '@' || value.contains '=' then
        .error { fault := .invalidTagValue (String.ofList key), offset := offset + key.length + 2 }
      else .ok (String.ofList key, String.ofList value)
  | _ => here (.expectedTag (String.ofList word))

/-- The fault of a known key with a value it does not allow. -/
def unknownValue? (key value : String) : Option SyntaxFault :=
  match allowedValues? key with
  | some allowed => if value ∈ allowed then none else some (.unknownTagValue key allowed value)
  | none => none

/-- Accepts a value or, if its key does not allow it, refuses it in strict
reading and notes it otherwise. -/
def checkValue (strict : Bool) (key value : String) (offset : Nat) : Noted LocatedFault Unit :=
  match unknownValue? key value with
  | none => .done ()
  | some fault =>
    if strict then .fail { fault, offset }
    else .note .debug .tags
      ("Keeping unrecognised value " ++ Quoted.ofString value ++ " for annotation '" ++ key ++ "'")

/-- Adds the tags of words, each with its position, to those read so far. -/
def readTags (strict : Bool) (soFar : TagSet) :
    List (Nat × List Char) → Noted LocatedFault TagSet
  | [] => .done soFar
  | (offset, word) :: rest =>
    match readTag word offset with
    | .error e => .fail e
    | .ok (key, value) =>
      if soFar.contains key then .fail { fault := .duplicateTag key, offset }
      else (checkValue strict key value offset).andThen fun _ =>
        readTags strict (soFar.insert key value) rest

end Tagging

/-- The expression text of a declared field and its tags. -/
def extractTags (strict : Bool) (raw : String) : Noted SyntaxError (String × TagSet) :=
  let parts := Tagging.split false raw.toList
  ((Tagging.readTags strict .empty (Text.words parts.1.length parts.2)).mapError
      (LocatedFault.toSyntaxError raw)).andThen fun tags =>
    .done (String.ofList (Text.trim parts.1), tags)

end WidgetSchema
