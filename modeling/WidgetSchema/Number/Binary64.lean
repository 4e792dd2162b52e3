/-
Floating-point numbers of the binary64 format, as exact values.

A finite number is a sign, a whole mantissa and a power of two. Every number of
the format has one normal form: the mantissa has 53 bits, or the exponent is the
least one. `ofRatio` produces that form, so two numbers are the same exactly if
they are equal as data, apart from the two zeros and the value that is no
number. Rounding is done on whole numbers: a quotient goes to the nearest
mantissa, and a tie to the even one.
-/
set_option autoImplicit false

namespace WidgetSchema

/-- A number of the binary64 format; a finite one is `mantissa * 2 ^ exponent`. -/
inductive Binary64 where
  | nan
  | infinity (negative : Bool)
  | finite (negative : Bool) (mantissa : Nat) (exponent : Int)
deriving DecidableEq, Repr, Inhabited

namespace Binary64

/-- The least exponent of a finite number. -/
def minExponent : Int := -1074

/-- The greatest exponent of a finite number. -/
def maxExponent : Int := 971

/-- A whole number times a power of the base, or the number itself where the exponent
is negative. A ratio is multiplied by the power, whatever the sign of its exponent,
by scaling the numerator by the exponent and the denominator by its opposite. -/
def scaled (base n : Nat) (e : Int) : Nat := n * base.pow e.toNat

/-- The least mantissa of 53 bits. -/
def leastNormal : Nat := Nat.pow 2 52

/-- The quotient rounded to the nearest whole number, a tie to the even one. -/
def roundDiv (numerator denominator : Nat) : Nat :=
  let quotient := numerator / denominator
  let twice := 2 * (numerator % denominator)
  if twice < denominator then quotient
  else if denominator < twice then quotient + 1
  else quotient + quotient % 2

/-- The exponent of the highest power of two not above a positive ratio. -/
def floorLog2 (numerator denominator : Nat) : Int :=
  let guess : Int := Int.ofNat numerator.log2 - Int.ofNat denominator.log2
  if scaled 2 denominator guess ≤ scaled 2 numerator (-guess) then guess else guess - 1

/-- The nearest number to a ratio of whole numbers, the second one positive. -/
def ofRatio (negative : Bool) (numerator denominator : Nat) : Binary64 :=
  if numerator = 0 then finite negative 0 minExponent
  else
    let exponent := max (floorLog2 numerator denominator - 52) minExponent
    let mantissa := roundDiv (scaled 2 numerator (-exponent)) (scaled 2 denominator exponent)
    let carried := mantissa = 2 * leastNormal
    let mantissa := if carried then leastNormal else mantissa
    let exponent := if carried then exponent + 1 else exponent
    if maxExponent < exponent then infinity negative else finite negative mantissa exponent

/-- The nearest number to `digits * 10 ^ exponent`, where `digits` is read off
`length` decimal digits. An exponent far outside the format is settled by the
length alone, before any power is computed. -/
def ofDecimal (negative : Bool) (digits length : Nat) (exponent : Int) : Binary64 :=
  if digits = 0 then finite negative 0 minExponent
  else if 400 < exponent + length then infinity negative
  else if exponent + length < -400 then finite negative 0 minExponent
  else ofRatio negative (scaled 10 digits exponent) (scaled 10 1 (-exponent))

/-- The value is a whole number, namely the given one. -/
def isInt (x : Binary64) (n : Int) : Bool :=
  match x with
  | finite negative mantissa exponent =>
    scaled 2 mantissa exponent == scaled 2 n.natAbs (-exponent)
      && (mantissa == 0 || negative == decide (n < 0))
  | _ => false

/-- The two have one numeric value: the zeros are equal, and what is no number
equals nothing. -/
def equals (x y : Binary64) : Bool :=
  match x, y with
  | nan, _ | _, nan => false
  | finite _ 0 _, finite _ 0 _ => true
  | _, _ => x == y

/-- The value is below one. -/
def lessThanOne (x : Binary64) : Bool :=
  match x with
  | nan => false
  | infinity negative => negative
  | finite negative mantissa exponent =>
    negative || scaled 2 mantissa exponent < scaled 2 1 (-exponent)

/-- The value is a zero. -/
def isZero (x : Binary64) : Bool :=
  match x with
  | finite _ 0 _ => true
  | _ => false

end Binary64

end WidgetSchema
