/-
The shortest decimal text of a floating-point number, and the reading of one.

Printing takes the fewest digits that read back to the same number and, of the
decimals with that many digits, the nearest one. The reals that round to
`m * 2 ^ e` form an interval around it whose ends belong to it if `m` is even.
For one digit, two digits and so on up to seventeen, the two neighbours of the
number on that decimal grid are tested against the interval; the first grid with
a hit wins. Everything is decided on whole numbers.

Positional notation is used for magnitudes from `0.0001` to below `10 ^ 16`,
always with a point; outside of it the exponent has a sign and at least two
digits.
-/
import WidgetSchema.Number.Binary64

set_option autoImplicit false

namespace WidgetSchema.Shortest

/-! ## Decimal digits -/

/-- The decimal digits of a number, highest first. -/
def digits (n : Nat) : List Char := Nat.toDigits 10 n

/-- The exponent of the highest power of ten not above a positive ratio. -/
def floorLog10 (numerator denominator : Nat) : Int :=
  if denominator ≤ numerator then Int.ofNat (digits (numerator / denominator)).length - 1
  else -Int.ofNat (digits ((denominator - 1) / numerator)).length

/-! ## The interval of a number -/

/-- A positive number between the two ends of its rounding interval, all three
over one denominator. -/
structure Interval where
  low : Nat
  value : Nat
  high : Nat
  denominator : Nat
  closed : Bool

/-- The interval of `mantissa * 2 ^ exponent`. Below a power of two the numbers
lie twice as close, so the lower end is then half as far away. -/
def Interval.of (mantissa : Nat) (exponent : Int) : Interval :=
  let narrow := mantissa = Binary64.leastNormal ∧ Binary64.minExponent < exponent
  { low := Binary64.scaled 2 (4 * mantissa - if narrow then 1 else 2) exponent
    value := Binary64.scaled 2 (4 * mantissa) exponent
    high := Binary64.scaled 2 (4 * mantissa + 2) exponent
    denominator := Binary64.scaled 2 4 (-exponent)
    closed := mantissa % 2 == 0 }

/-- The decimal `digits * 10 ^ power` rounds to the number. -/
def Interval.holds (i : Interval) (digits : Nat) (power : Int) : Bool :=
  let x := Binary64.scaled 10 (digits * i.denominator) power
  let low := Binary64.scaled 10 i.low (-power)
  let high := Binary64.scaled 10 i.high (-power)
  (low < x && x < high) || (i.closed && (x == low || x == high))

/-- The decimal on the grid of `10 ^ power` that rounds to the number, the nearer
one if both neighbours do, and the even one if they are equally near. -/
def Interval.onGrid (i : Interval) (power : Int) : Option Nat :=
  let numerator := Binary64.scaled 10 i.value (-power)
  let denominator := Binary64.scaled 10 i.denominator power
  let below := numerator / denominator
  let nearest := Binary64.roundDiv numerator denominator
  if i.holds nearest power then some nearest
  else if i.holds below power then some below
  else if i.holds (below + 1) power then some (below + 1)
  else none

/-- The shortest decimal among those with at least so many digits, as its digits
and the power of ten of the last one; `grids` counts the grids still to try. -/
def Interval.shortest (i : Interval) (top : Int) : (grids : Nat) → Nat × Int
  | 0 => (0, 0)
  | grids + 1 =>
    let power := top - Int.ofNat (16 - grids)
    match i.onGrid power with
    | some d => (d, power)
    | none => i.shortest top grids

/-- The digits of the shortest decimal without closing zeros, and the position of
the point counted from the first digit. -/
def significant (mantissa : Nat) (exponent : Int) : List Char × Int :=
  let i := Interval.of mantissa exponent
  let (d, power) := i.shortest (floorLog10 i.value i.denominator) 17
  let ds := digits d
  ((ds.reverse.dropWhile (· == '0')).reverse, Int.ofNat ds.length + power)

/-! ## Layout -/

/-- An exponent with its sign and at least two digits. -/
def exponentText (e : Int) : List Char :=
  let ds := digits e.natAbs
  (if e < 0 then '-' else '+') :: (if ds.length < 2 then '0' :: ds else ds)

/-- Significant digits laid out around the point. -/
def layout (ds : List Char) (point : Int) : List Char :=
  if -4 < point ∧ point ≤ 0 then '0' :: '.' :: List.replicate (-point).toNat '0' ++ ds
  else if 0 < point ∧ point ≤ 16 then
    let whole := ds.take point.toNat ++ List.replicate (point.toNat - ds.length) '0'
    let fraction := ds.drop point.toNat
    whole ++ '.' :: if fraction.isEmpty then ['0'] else fraction
  else
    let fraction := ds.drop 1
    ds.take 1 ++ (if fraction.isEmpty then [] else '.' :: fraction)
      ++ 'e' :: exponentText (point - 1)

/-- The text of a number. -/
def text : Binary64 → String
  | .nan => "nan"
  | .infinity negative => if negative then "-inf" else "inf"
  | .finite negative mantissa exponent =>
    let body :=
      if mantissa = 0 then ['0', '.', '0']
      else layout (significant mantissa exponent).1 (significant mantissa exponent).2
    String.ofList (if negative then '-' :: body else body)

/-! ## Reading -/

/-- The value of decimal digits, highest first. -/
def digitsValue (ds : List Char) : Nat :=
  ds.foldl (fun n d => 10 * n + (d.toNat - '0'.toNat)) 0

/-- The number written by a sign, whole digits, fraction digits and an exponent. -/
def ofParts (negative : Bool) (whole fraction : List Char) (exponent : Int) : Binary64 :=
  let ds := whole ++ fraction
  Binary64.ofDecimal negative (digitsValue ds) (ds.dropWhile (· == '0')).length
    (exponent - Int.ofNat fraction.length)

/-- An optional sign and decimal digits, as a number. -/
def exponentValue : List Char → Int
  | '-' :: ds => -Int.ofNat (digitsValue ds)
  | '+' :: ds => Int.ofNat (digitsValue ds)
  | ds => Int.ofNat (digitsValue ds)

/-- Reads the text of a number back. Anything that has no digits where digits
belong is read as no number. -/
def ofText (s : String) : Binary64 :=
  let (negative, body) := match s.toList with
    | '-' :: cs => (true, cs)
    | cs => (false, cs)
  if body = ['i', 'n', 'f'] then .infinity negative
  else
    let whole := body.takeWhile Char.isDigit
    let rest := body.dropWhile Char.isDigit
    let (fraction, rest) := match rest with
      | '.' :: cs => (cs.takeWhile Char.isDigit, cs.dropWhile Char.isDigit)
      | cs => ([], cs)
    match whole, rest with
    | [], _ => .nan
    | _, 'e' :: e => ofParts negative whole fraction (exponentValue e)
    | _, _ => ofParts negative whole fraction 0

end WidgetSchema.Shortest
