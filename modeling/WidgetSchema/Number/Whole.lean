/-
Whole numbers written by people, as settings hold them.

Blanks around the number, one sign, decimal digits of any digit system and single
underscores between two digits are accepted, leading zeros too; anything else is
no number, and neither is what has too many digits. The four information
separators are blanks between words, but they are no part of a number's margin.
-/
import WidgetSchema.Number.Digits
import WidgetSchema.Text.Character

set_option autoImplicit false

namespace WidgetSchema.Whole

open Character

/-- A blank that may stand around a number. -/
def isMargin (c : Char) : Bool := isBlank c && !(0x1C ≤ c.toNat && c.toNat ≤ 0x1F)

/-- The text without the margin around it. -/
def trimMargin (cs : List Char) : List Char :=
  ((cs.dropWhile isMargin).reverse.dropWhile isMargin).reverse

/-- Reads digits behind a digit, adding to the number read so far. An underscore
counts only if a digit follows it. -/
def readDigits (soFar : Nat) : List Char → Option Nat
  | [] => some soFar
  | '_' :: c :: cs => (digitValue? c).bind fun d => readDigits (10 * soFar + d) cs
  | c :: cs => (digitValue? c).bind fun d => readDigits (10 * soFar + d) cs

/-- The number of digits in a number: zeros in front count, underscores do not. -/
def digitCount (cs : List Char) : Nat := (cs.filter fun c => c != '_').length

/-- Reads a number without sign. -/
def readNat? (cs : List Char) : Option Nat :=
  if Digits.limit < digitCount cs then none
  else
    match cs with
    | [] => none
    | c :: cs => (digitValue? c).bind fun d => readDigits d cs

/-- Reads a number with an optional sign and blanks around it. -/
def read? (s : String) : Option Int :=
  match trimMargin s.toList with
  | '-' :: cs => (readNat? cs).map fun n => -Int.ofNat n
  | '+' :: cs => (readNat? cs).map Int.ofNat
  | cs => (readNat? cs).map Int.ofNat

end WidgetSchema.Whole
