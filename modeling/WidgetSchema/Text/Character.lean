/-
The character classes the notation of types is read with.

ASCII is decided by comparison and everything above it by the tables of
`CharacterTable`, so a statement about ASCII text never has to look into a
table. The classes are Boolean, because every use of them is a scan.
-/
import WidgetSchema.Text.CharacterTable

set_option autoImplicit false

namespace WidgetSchema.Character

/-- Membership in the class whose borders are listed: a code point is in the
class if an odd number of the ascending borders is at or below it. -/
def inClass : (borders : List Nat) → (code : Nat) → Bool
  | [], _ => false
  | border :: borders, code => if code < border then false else !inClass borders code

/-! ## Blanks -/

/-- The borders of white space, line and paragraph separators and the four
information separators. -/
def blankBorders : List Nat :=
  [0x09, 0x0E, 0x1C, 0x21, 0x85, 0x86, 0xA0, 0xA1, 0x1680, 0x1681, 0x2000, 0x200B,
   0x2028, 0x202A, 0x202F, 0x2030, 0x205F, 0x2060, 0x3000, 0x3001]

/-- Blanks separate tokens and tags, and are trimmed from both ends of a text. -/
def isBlank (c : Char) : Bool := inClass blankBorders c.toNat

/-! ## Letters and digits -/

/-- An ASCII letter. -/
def isAsciiLetter (c : Char) : Bool :=
  ('a' ≤ c && c ≤ 'z') || ('A' ≤ c && c ≤ 'Z')

/-- An ASCII digit. -/
def isAsciiDigit (c : Char) : Bool := '0' ≤ c && c ≤ '9'

/-- A letter, a digit of any kind, or the underscore. -/
def isWord (c : Char) : Bool :=
  if c.toNat < 0x80 then isAsciiLetter c || isAsciiDigit c || c == '_'
  else inClass CharacterTable.word c.toNat

/-- An upper-case letter. -/
def isUpper (c : Char) : Bool :=
  if c.toNat < 0x80 then 'A' ≤ c && c ≤ 'Z'
  else CharacterTable.upper.any fun r =>
    r.1 ≤ c.toNat && c.toNat ≤ r.2.1 && (c.toNat - r.1) % r.2.2 == 0

/-- The value of a decimal digit of any digit system. -/
def digitValue? (c : Char) : Option Nat :=
  if isAsciiDigit c then some (c.toNat - '0'.toNat)
  else (CharacterTable.digitZeros.find? fun z => z ≤ c.toNat && c.toNat ≤ z + 9).map
    fun z => c.toNat - z

/-! ## What a quoted text shows as it is -/

/-- A character that a quoted text shows as it is. -/
def isPrintable (c : Char) : Bool :=
  if c.toNat < 0x80 then 0x20 ≤ c.toNat && c.toNat < 0x7F
  else !inClass CharacterTable.hidden c.toNat

/-! ## Upper and lower case -/

/-- The upper case of one character, which may be several characters. -/
def toUpper (c : Char) : List Char :=
  if c.toNat < 0x80 then [c.toUpper]
  else match CharacterTable.upperExpansion.lookup c.toNat with
    | some codes => codes.map Char.ofNat
    | none =>
      match CharacterTable.upperShift.find? fun r =>
          r.1 ≤ c.toNat && c.toNat ≤ r.2.1 && (c.toNat - r.1) % r.2.2.1 == 0 with
      | some r => [Char.ofNat (c.toNat + r.2.2.2).toNat]
      | none => [c]

end WidgetSchema.Character
