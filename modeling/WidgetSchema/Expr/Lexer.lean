/-
Text to tokens.

At every character that is neither a blank nor inside a token, `readLexeme?`
says which lexeme starts there. Its remaining characters are then skipped one by
one, so `scan` recurses on the text itself and needs no bound. Of the lexemes
that could start at a place at most one can: a name ends where no longer name is
possible, and an underscore is a joiner exactly if a quoted text follows.
-/
import WidgetSchema.Error.Syntax
import WidgetSchema.Text.Name
import WidgetSchema.Text.Trimming

set_option autoImplicit false

namespace WidgetSchema

/-- A fault and the position it was found at. -/
structure LocatedFault where
  fault : SyntaxFault
  offset : Nat
deriving DecidableEq, Repr

/-- The located fault of a given text. -/
def LocatedFault.toSyntaxError (raw : String) (f : LocatedFault) : SyntaxError :=
  { fault := f.fault, raw := raw, offset := f.offset }

namespace Token

/-- A quoted text comes next, possibly after blanks. -/
def quotedFollows (cs : List Char) : Bool := (Text.trimStart cs).head? == some '"'

/-- The lexeme a text starts with. -/
def readLexeme? : List Char → Option Lexeme
  | [] => none
  | c :: cs =>
    if c = '"' then
      match Text.cutAt '"' cs with
      | (content, some _) => some (.quoted (String.ofList content))
      | (_, none) => none
    else if c = '_' ∧ quotedFollows cs then some .joiner
    else if Name.isStart c then some (.name (String.ofList (c :: (Name.nameTail cs).1)))
    else (Mark.ofChar? c).map .mark

/-- Why no lexeme starts with a character. -/
def stuckAt (c : Char) : SyntaxFault :=
  if c = '"' then .unterminatedLiteral else .unexpectedCharacter c

/-- The tokens of a text whose first character stands at `offset` and whose first
`skip` characters belong to a token read before. -/
def scan : (skip offset : Nat) → List Char → Except LocatedFault (List Token)
  | _, _, [] => .ok []
  | skip + 1, offset, _ :: cs => scan skip (offset + 1) cs
  | 0, offset, c :: cs =>
    if Character.isBlank c then scan 0 (offset + 1) cs
    else match readLexeme? (c :: cs) with
      | some lexeme =>
        (scan (lexeme.width - 1) (offset + 1) cs).map ({ lexeme, offset } :: ·)
      | none => .error { fault := stuckAt c, offset }

end Token

/-- The tokens of a text, in order. -/
def tokenize (raw : String) : Except SyntaxError (List Token) :=
  (Token.scan 0 0 raw.toList).mapError (LocatedFault.toSyntaxError raw)

end WidgetSchema
