/-
Answers as JSON text.

Every item and every member stands on a line of its own, indented by two blanks
for each level; an empty list and an empty object are written on one line. The
text is ASCII: any other character is written by its code units, in lower-case
hexadecimal digits, and so is a surrogate that stands alone.
-/
import WidgetSchema.Text.CodePoint

set_option autoImplicit false

namespace WidgetSchema.Json

/-- What an answer is made of. -/
inductive Tree where
  | text (s : CodeText)
  | truth (b : Bool)
  | list (items : List Tree)
  | object (members : List (String × Tree))

/-! ## Strings -/

/-- The escape of a code unit. -/
def escapeUnit (unit : Nat) : List Char := '\\' :: 'u' :: Quoted.hexDigits 4 unit

/-- A character inside a string. -/
def escapeChar (c : Char) : List Char :=
  match c with
  | '"' => ['\\', '"']
  | '\\' => ['\\', '\\']
  | '\n' => ['\\', 'n']
  | '\r' => ['\\', 'r']
  | '\t' => ['\\', 't']
  | '\x08' => ['\\', 'b']
  | '\x0C' => ['\\', 'f']
  | c =>
    let code := c.toNat
    if 0x20 ≤ code ∧ code < 0x7F then [c]
    else if code < 0x10000 then escapeUnit code
    else
      escapeUnit (0xD800 + (code - 0x10000) / 0x400)
        ++ escapeUnit (0xDC00 + (code - 0x10000) % 0x400)

/-- A code point inside a string. -/
def escapePoint : CodePoint → List Char
  | .char c => escapeChar c
  | .surrogate place => escapeUnit (CodePoint.unit place)

/-- A string. -/
def quote (s : CodeText) : String := String.ofList ('"' :: s.flatMap escapePoint ++ ['"'])

/-! ## Layout -/

/-- The start of a line at a level. -/
def lineAt (level : Nat) : String := "\n" ++ String.ofList (List.replicate (2 * level) ' ')

/-- Lines between brackets; without lines, only the brackets. -/
def block (opening closing : String) (level : Nat) (lines : List String) : String :=
  if lines.isEmpty then opening ++ closing
  else
    opening ++ lineAt (level + 1) ++ ("," ++ lineAt (level + 1)).intercalate lines
      ++ lineAt level ++ closing

mutual
/-- The text of an answer whose first line stands at a level. -/
def write (level : Nat) : Tree → String
  | .text s => quote s
  | .truth b => if b then "true" else "false"
  | .list items => block "[" "]" level (writeItems (level + 1) items)
  | .object members => block "\x7b" "\x7d" level (writeMembers (level + 1) members)

/-- The text of each item. -/
def writeItems (level : Nat) : List Tree → List String
  | [] => []
  | t :: ts => write level t :: writeItems level ts

/-- The text of each member. -/
def writeMembers (level : Nat) : List (String × Tree) → List String
  | [] => []
  | (key, t) :: ts => (quote key ++ ": " ++ write level t) :: writeMembers level ts
end

/-- The text of a whole answer. -/
def Tree.render (t : Tree) : String := write 0 t

end WidgetSchema.Json
