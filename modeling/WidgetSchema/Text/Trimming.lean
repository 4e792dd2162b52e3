/-
Blanks at the ends of a text, the words between blanks, and the cut of a text at
its first separator.

All functions work on lists of characters by structural recursion. Each word
carries the position of its first character, since every message about a word
names the place where it stands.
-/
import WidgetSchema.Text.Character

set_option autoImplicit false

namespace WidgetSchema.Text

open Character

/-! ## Trimming -/

/-- The text without the blanks it starts with. -/
def trimStart (cs : List Char) : List Char := cs.dropWhile isBlank

/-- The text without the blanks it ends with. -/
def trimEnd : List Char → List Char
  | [] => []
  | c :: cs =>
    match trimEnd cs with
    | [] => if isBlank c then [] else [c]
    | kept => c :: kept

/-- The text without the blanks around it. -/
def trim (cs : List Char) : List Char := trimEnd (trimStart cs)

/-- The string without the blanks around it. -/
def trimmed (s : String) : String := String.ofList (trim s.toList)

/-! ## Words -/

/-- The maximal runs of characters that are not blank, each with the position of
its first character; `start` is the position of the first character given. -/
def words (start : Nat) : List Char → List (Nat × List Char)
  | [] => []
  | c :: cs =>
    if isBlank c then words (start + 1) cs
    else match cs, words (start + 1) cs with
      | d :: _, (at', w) :: rest =>
        if isBlank d then (start, [c]) :: (at', w) :: rest else (start, c :: w) :: rest
      | _, rest => (start, [c]) :: rest

/-! ## Cutting -/

/-- The text before the first separator, and what follows the separator if there is one. -/
def cutAt (separator : Char) : List Char → List Char × Option (List Char)
  | [] => ([], none)
  | c :: cs =>
    if c = separator then ([], some cs)
    else ((c :: (cutAt separator cs).1), (cutAt separator cs).2)

end WidgetSchema.Text
