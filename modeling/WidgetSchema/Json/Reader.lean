/-
JSON documents to written values.

The grammar is that of JSON with three additions: the numbers `NaN`, `Infinity`
and `-Infinity`. A number with a fraction or an exponent is a floating-point
number, any other is an integer. A key that is given twice keeps its first place
and its last value. Strings hold no control characters; an escape may ask for a
surrogate that stands alone, and the string holds it.

Each reader takes the text still to read and gives what it read with the text
behind it, or a fault. Of a malformed text nothing more is said, because it is
refused as a whole; two faults are kept apart from it, an integer with too many
digits and containers that nest deeper than there is room for. The first fault in
reading order counts, so an integer that is too long hides a mistake behind it.
-/
import WidgetSchema.Value.Graph

set_option autoImplicit false

namespace WidgetSchema.Json

/-- Why a text could not be read. -/
inductive ReadFault where
  | malformed
  /-- An integer is longer than integers may be. -/
  | tooManyDigits
  /-- A container stands inside too many others. -/
  | tooDeep
deriving DecidableEq, Repr

/-- What was read and the text behind it, or a fault. -/
abbrev Reading (α : Type) := Except ReadFault (α × List Char)

/-- Reads the start of a text. -/
abbrev Reader (α : Type) := List Char → Reading α

/-- What is not there makes the text malformed. -/
def required {α : Type} : Option α → Except ReadFault α
  | some a => .ok a
  | none => .error .malformed

/-! ## Blanks and words -/

/-- The blanks between tokens. -/
def isSpace (c : Char) : Bool := c == ' ' || c == '\t' || c == '\n' || c == '\r'

/-- The text behind leading blanks. -/
def skipSpace (cs : List Char) : List Char := cs.dropWhile isSpace

/-- The text behind a word, if it starts with it. -/
def afterWord? : (word : List Char) → List Char → Option (List Char)
  | [], cs => some cs
  | _ :: _, [] => none
  | w :: ws, c :: cs => if w = c then afterWord? ws cs else none

/-! ## Strings -/

/-- The value of a hexadecimal digit. -/
def hexValue? (c : Char) : Option Nat :=
  if '0' ≤ c ∧ c ≤ '9' then some (c.toNat - '0'.toNat)
  else if 'a' ≤ c ∧ c ≤ 'f' then some (c.toNat - 'a'.toNat + 10)
  else if 'A' ≤ c ∧ c ≤ 'F' then some (c.toNat - 'A'.toNat + 10)
  else none

/-- The code unit of four hexadecimal digits. -/
def codeUnit? : List Char → Option (Nat × List Char)
  | a :: b :: c :: d :: rest => do
    let a ← hexValue? a
    let b ← hexValue? b
    let c ← hexValue? c
    let d ← hexValue? d
    return (((a * 16 + b) * 16 + c) * 16 + d, rest)
  | _ => none

/-- The first of two code units that together stand for one character. -/
def isHighUnit (unit : Nat) : Bool := 0xD800 ≤ unit && unit < 0xDC00

/-- The second of two code units that together stand for one character. -/
def isLowUnit (unit : Nat) : Bool := 0xDC00 ≤ unit && unit < 0xE000

/-- The code point of a code unit: half of a pair stands for itself. -/
def ofUnit (unit : Nat) : CodePoint :=
  if isHighUnit unit || isLowUnit unit then
    .surrogate (Fin.ofNat 0x800 (unit - CodePoint.firstSurrogate))
  else .char (Char.ofNat unit)

/-- The character that two code units stand for. -/
def ofUnits (high low : Nat) : Char :=
  Char.ofNat (0x10000 + (high - 0xD800) * 0x400 + (low - 0xDC00))

/-- The character of an escape that is one letter long. -/
def simpleEscape? : Char → Option Char
  | '"' => some '"'
  | '\\' => some '\\'
  | '/' => some '/'
  | 'b' => some '\x08'
  | 'f' => some '\x0C'
  | 'n' => some '\n'
  | 'r' => some '\r'
  | 't' => some '\t'
  | _ => none

/-- The code point of an escape, behind its backslash. The two halves of a pair
are joined if they stand side by side. -/
def escape? : List Char → Option (CodePoint × List Char)
  | 'u' :: cs => do
    let (unit, rest) ← codeUnit? cs
    if isHighUnit unit then
      match afterWord? ['\\', 'u'] rest with
      | none => return (ofUnit unit, rest)
      | some more =>
        let (low, rest') ← codeUnit? more
        if isLowUnit low then
          return (.char (ofUnits unit low), rest')
        else
          return (ofUnit unit, rest)
    else return (ofUnit unit, rest)
  | c :: cs => (simpleEscape? c).map fun e => (.char e, cs)
  | [] => none

/-- The code points of a string behind its opening quote; each round reads one of them. -/
def points? : (rounds : Nat) → List Char → Option (CodeText × List Char)
  | 0, _ => none
  | _ + 1, [] => none
  | rounds + 1, c :: cs =>
    if c = '"' then some ([], cs)
    else if c.toNat < 0x20 then none
    else do
      let (d, rest) ← if c = '\\' then escape? cs else some (.char c, cs)
      let (ds, rest) ← points? rounds rest
      return (d :: ds, rest)

/-- A string behind its opening quote. -/
def stringBody (cs : List Char) : Reading Scalar :=
  (required (points? (cs.length + 1) cs)).map fun r => (.ofPoints r.1, r.2)

/-! ## Numbers -/

/-- The digits a text starts with. -/
def digits (cs : List Char) : List Char × List Char :=
  (cs.takeWhile Character.isAsciiDigit, cs.dropWhile Character.isAsciiDigit)

/-- The digits before the point: no zero stands before another digit. -/
def wholeDigits : List Char → Option (List Char × List Char)
  | '0' :: cs => some (['0'], cs)
  | cs => if (digits cs).1.isEmpty then none else some (digits cs)

/-- The digits behind a point, if there are any. -/
def fractionDigits? : List Char → Option (List Char × List Char)
  | '.' :: cs => if (digits cs).1.isEmpty then none else some (digits cs)
  | _ => none

/-- The exponent behind its letter, if there is one. -/
def exponent? : List Char → Option (Int × List Char)
  | e :: cs =>
    if e = 'e' ∨ e = 'E' then
      let (sign, rest) := match cs with
        | '-' :: more => (['-'], more)
        | '+' :: more => ([], more)
        | more => ([], more)
      if (digits rest).1.isEmpty then none
      else some (Shortest.exponentValue (sign ++ (digits rest).1), (digits rest).2)
    else none
  | [] => none

/-- A number. An integer may not have too many digits; a floating-point number may. -/
def number (negative : Bool) (cs : List Char) : Except ReadFault (Scalar × List Char) := do
  let (whole, rest) ← required (wholeDigits cs)
  let signed (n : Nat) : Int := if negative then -Int.ofNat n else Int.ofNat n
  match fractionDigits? rest, exponent? ((fractionDigits? rest).elim rest Prod.snd) with
  | none, none =>
    if Digits.limit < whole.length then .error .tooManyDigits
    else return (.int (signed (Shortest.digitsValue whole)), rest)
  | some (fraction, rest), none =>
    return (.float (Shortest.ofParts negative whole fraction 0), rest)
  | fraction, some (exponent, rest) =>
    return (.float (Shortest.ofParts negative whole (fraction.elim [] Prod.fst) exponent), rest)

/-- The words that stand for values. -/
def words : List (String × Scalar) :=
  [("null", .null), ("true", .bool true), ("false", .bool false), ("NaN", .float .nan),
   ("Infinity", .float (.infinity false)), ("-Infinity", .float (.infinity true))]

/-- A value that is one word. -/
def word? (cs : List Char) : Option (Scalar × List Char) :=
  words.findSome? fun w => (afterWord? w.1.toList cs).map fun rest => (w.2, rest)

/-- A value that is one word or a number. -/
def plain (cs : List Char) : Reading Scalar :=
  match word? cs with
  | some r => .ok r
  | none =>
    match cs with
    | '-' :: rest => number true rest
    | cs => number false cs

/-! ## Nested values -/

/-- Items with a comma between each two, up to the closing character; blanks
before each item are skipped here. Each round reads one item. -/
def itemsUntil {α : Type} (item : Reader α) (closing : Char) :
    (rounds : Nat) → List Char → Except ReadFault (List α × List Char)
  | 0, _ => .error .malformed
  | rounds + 1, cs => do
    let (a, rest) ← item (skipSpace cs)
    match skipSpace rest with
    | c :: rest =>
      if c = ',' then
        let (as, rest) ← itemsUntil item closing rounds rest
        return (a :: as, rest)
      else if c = closing then return ([a], rest)
      else .error .malformed
    | [] => .error .malformed

/-- What stands between an opening character, which is read already, and its
closing one. -/
def enclosed {α : Type} (item : Reader α) (closing : Char) (cs : List Char) :
    Reading (List α) :=
  match skipSpace cs with
  | [] => .error .malformed
  | c :: rest => if c = closing then .ok ([], rest) else itemsUntil item closing cs.length cs

/-- A key with its value. -/
def entry (value : Reader Datum) :
    List Char → Except ReadFault ((Scalar × Datum) × List Char)
  | '"' :: cs => do
    let (key, rest) ← stringBody cs
    match skipSpace rest with
    | ':' :: rest => do
      let (v, rest) ← value (skipSpace rest)
      return ((key, v), rest)
    | _ => .error .malformed
  | _ => .error .malformed

/-- A value, if what is in a container is read by `inner`; without a reader there
is no room for a container, not even for an empty one. -/
def valueWith (inner : Option (Reader Datum)) : List Char → Reading Datum
  | '"' :: cs => (stringBody cs).map fun r => (.atom r.1, r.2)
  | '[' :: cs =>
    match inner with
    | none => .error .tooDeep
    | some item => (enclosed item ']' cs).map fun r => (.list r.1, r.2)
  | '\x7b' :: cs =>
    match inner with
    | none => .error .tooDeep
    | some item => (enclosed (entry item) '\x7d' cs).map fun r => (.dict (dictOfPairs r.1), r.2)
  | cs => (plain cs).map fun r => (.atom r.1, r.2)

/-- A value with at most `nesting` containers inside one another. -/
def value : (nesting : Nat) → Reader Datum
  | 0 => valueWith none
  | nesting + 1 => valueWith (some (value nesting))

/-- The value of a whole document. -/
def read (nesting : Nat) (document : String) : Except ReadFault Datum := do
  let (d, rest) ← value nesting (skipSpace document.toList)
  if (skipSpace rest).isEmpty then return d else .error .malformed

end WidgetSchema.Json
