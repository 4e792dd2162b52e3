/-
Texts and byte strings as messages show them: in quotes, on one line, with every
character that has no visible form written as an escape.

Single quotes are used unless the text holds a single quote and no double one.
A backslash and the quote in use are escaped, the three common controls have
letters of their own, and any other hidden character is written with the fewest
of two, four or eight hexadecimal digits that hold its code.
-/
import WidgetSchema.Text.Character

set_option autoImplicit false

namespace WidgetSchema.Quoted

open Character

/-- The quote to put around a text that may hold both kinds. -/
def quoteFor (holdsSingle holdsDouble : Bool) : Char :=
  if holdsSingle && !holdsDouble then '"' else '\''

/-- A hexadecimal digit in lower case. -/
def hexDigit (n : Nat) : Char :=
  if n < 10 then Char.ofNat ('0'.toNat + n) else Char.ofNat ('a'.toNat + (n - 10))

/-- The last `width` hexadecimal digits of a number, highest first. -/
def hexDigits : (width : Nat) → Nat → List Char
  | 0, _ => []
  | width + 1, n => hexDigits width (n / 16) ++ [hexDigit (n % 16)]

/-- The escape of a hidden character. -/
def escapeHidden (code : Nat) : List Char :=
  if code < 0x100 then '\\' :: 'x' :: hexDigits 2 code
  else if code < 0x10000 then '\\' :: 'u' :: hexDigits 4 code
  else '\\' :: 'U' :: hexDigits 8 code

/-- One character inside a quoted text. -/
def escape (quote c : Char) : List Char :=
  if c = '\\' ∨ c = quote then ['\\', c]
  else if c = '\n' then ['\\', 'n']
  else if c = '\r' then ['\\', 'r']
  else if c = '\t' then ['\\', 't']
  else if isPrintable c then [c]
  else escapeHidden c.toNat

/-- A text in quotes. -/
def ofString (s : String) : String :=
  let quote := quoteFor (s.toList.contains '\'') (s.toList.contains '"')
  String.ofList (quote :: s.toList.flatMap (escape quote) ++ [quote])

/-- Items between brackets, separated by a comma and a space. -/
def bracketed (opening closing : String) (items : List String) : String :=
  opening ++ ", ".intercalate items ++ closing

/-- A list of texts, each in quotes. -/
def ofStrings (ss : List String) : String := bracketed "[" "]" (ss.map ofString)

/-- One byte inside a quoted byte string: ASCII as in a text, every other byte as
an escape. -/
def escapeByte (quote : Char) (b : UInt8) : List Char :=
  if b.toNat < 0x80 then escape quote (Char.ofNat b.toNat) else escapeHidden b.toNat

/-- A byte string in quotes, marked by a leading `b`. -/
def ofBytes (bytes : List UInt8) : String :=
  let quote := quoteFor (bytes.contains 39) (bytes.contains 34)
  String.ofList ('b' :: quote :: bytes.flatMap (escapeByte quote) ++ [quote])

end WidgetSchema.Quoted
