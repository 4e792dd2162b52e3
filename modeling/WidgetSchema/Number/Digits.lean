/-
Numbers that are short enough for decimal.

Reading a whole number from its digits, and writing it, takes time that grows with the square of
their number. Beyond a number of digits both are refused, and what asked for them ends. The number
is the usual one; that it could be set to another is left out.
-/
set_option autoImplicit false

namespace WidgetSchema.Digits

/-- The most decimal digits that are read or written. -/
def limit : Nat := 4300

/-- The number has at most so many decimal digits. -/
def fit : (digits : Nat) → Nat → Bool
  | 0, n => n == 0
  | digits + 1, n => n == 0 || fit digits (n / 10)

/-- A whole number that can be written. Its sign does not count. -/
def areFew (n : Int) : Bool := fit limit n.natAbs

end WidgetSchema.Digits
