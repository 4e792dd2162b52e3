/-
Values without parts, and keys of dictionaries.

Numbers compare by value as keys: one, true and one as a floating-point number
are the same key. A value that is no number equals nothing, not even itself.

Tables of types hold texts of characters only. A value may also hold a text with
a surrogate that stands alone, so atoms take the type of such texts: tables have
none of them, and what a value is made of is a `Scalar`. Values of other kinds,
such as sets, are left out: no document and no table has any.
-/
import WidgetSchema.Number.Digits
import WidgetSchema.Number.Shortest
import WidgetSchema.Text.CodePoint

set_option autoImplicit false

namespace WidgetSchema

/-- A value without parts; `Unpaired` is the type of the texts that are no `String`. -/
inductive Atom (Unpaired : Type := Empty) where
  /-- No value. -/
  | null
  /-- The mark of a field that is not there at all. -/
  | missing
  | bool (b : Bool)
  | int (n : Int)
  | float (x : Binary64)
  | text (s : String)
  | bytes (bs : List UInt8)
  | unpaired (t : Unpaired)
deriving DecidableEq, Repr, Inhabited

/-- What values are made of: any text can occur in them. -/
abbrev Scalar := Atom UnpairedText

namespace Atom

variable {Unpaired : Type}

/-- What counts as absent: no value and the mark of a missing field. -/
def isAbsent : Atom Unpaired → Bool
  | null | missing => true
  | _ => false

/-- What counts as true in a condition. A text with a surrogate is not empty. -/
def isTruthy : Atom Unpaired → Bool
  | null | missing => false
  | bool b => b
  | int n => n != 0
  | float x => !x.isZero
  | text s => !s.isEmpty
  | bytes bs => !bs.isEmpty
  | unpaired _ => true

/-- What messages call the kind of a value. -/
def kindName : Atom Unpaired → String
  | null => "NoneType"
  | missing => "_Missing"
  | bool _ => "bool"
  | int _ => "int"
  | float _ => "float"
  | text _ | unpaired _ => "str"
  | bytes _ => "bytes"

/-- A value as messages show it, with `quote` for the texts that are no `String`.
An integer is shown whatever its length; `shown?` is what messages use. -/
def shownBy (quote : Unpaired → String) : Atom Unpaired → String
  | null => "None"
  | missing => "MISSING"
  | bool b => if b then "True" else "False"
  | int n => toString n
  | float x => Shortest.text x
  | text s => Quoted.ofString s
  | bytes bs => Quoted.ofBytes bs
  | unpaired t => quote t

/-- The value can be written: it is no integer with too many digits. -/
def isWritable : Atom Unpaired → Bool
  | int n => Digits.areFew n
  | _ => true

/-- The whole number that a truth value or an integer is. -/
def asInt? : Atom Unpaired → Option Int
  | bool b => some (if b then 1 else 0)
  | int n => some n
  | _ => none

/-- The two are one key of a dictionary. -/
def sameKey [DecidableEq Unpaired] (a b : Atom Unpaired) : Bool :=
  match a, b with
  | float x, float y => x.equals y
  | float x, b => (b.asInt?.map x.isInt).getD false
  | a, float y => (a.asInt?.map y.isInt).getD false
  | a, b =>
    match a.asInt?, b.asInt? with
    | some m, some n => m == n
    | _, _ => a == b

/-- A number below one. -/
def isBelowOne : Atom Unpaired → Bool
  | float x => x.lessThanOne
  | a => (a.asInt?.map fun n => decide (n < 1)).getD false

/-! ## Atoms of tables -/

/-- A key of a table as names and faults repeat it: texts as they are, other keys
as messages show them. -/
def keyText : Atom → String
  | text s => s
  | a => a.shownBy Empty.elim

/-! ## Scalars -/

/-- The text of some code points. -/
def ofPoints (points : CodeText) : Scalar :=
  match h : points.chars? with
  | some cs => text (String.ofList cs)
  | none => unpaired { points, unpaired := h }

/-- A scalar as messages show it, unless it has too many digits. -/
def shown? (a : Scalar) : Option String :=
  if a.isWritable then some (a.shownBy fun t => t.points.quoted) else none

/-- A key as a path shows it: texts as they are, other keys as messages show
them. Paths are made of writable keys only. -/
def pathText : Scalar → CodeText
  | text s => s
  | unpaired t => t.points
  | a => a.shownBy fun t => t.points.quoted

end Atom

/-! ## Dictionaries -/

section Dictionaries

variable {Unpaired α : Type} [DecidableEq Unpaired]

/-- Gives a key a value in a list of entries: an equal key keeps its place and
its own spelling, a new one goes behind all others. -/
def assignKey (key : Atom Unpaired) (value : α) :
    List (Atom Unpaired × α) → List (Atom Unpaired × α)
  | [] => [(key, value)]
  | (k, v) :: rest =>
    if k.sameKey key then (k, value) :: rest else (k, v) :: assignKey key value rest

/-- The entries of a dictionary written as a list of pairs. -/
def dictOfPairs (pairs : List (Atom Unpaired × α)) : List (Atom Unpaired × α) :=
  pairs.foldl (fun entries pair => assignKey pair.1 pair.2 entries) []

end Dictionaries

end WidgetSchema
