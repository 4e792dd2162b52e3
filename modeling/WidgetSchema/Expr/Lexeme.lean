/-
The lexemes that type expressions are written with.

A lexeme is a word of the notation with its meaning: a name, a quoted text, the
joiner between two quoted texts, or a mark. A token is a lexeme and the position
of its first character. A lexeme knows the text it is written as, and reading
and writing meet only there: the reader turns text into lexemes, the writer
produces lexemes, and their texts side by side are the written expression.
-/
set_option autoImplicit false

namespace WidgetSchema

/-- A mark of the notation. -/
inductive Mark where
  | bar | plus | question | comma
  | openBracket | closeBracket
  | openAngle | closeAngle
  | openParen | closeParen
deriving DecidableEq, Repr

namespace Mark

/-- The character a mark is written as. -/
def toChar : Mark → Char
  | bar => '|'
  | plus => '+'
  | question => '?'
  | comma => ','
  | openBracket => '['
  | closeBracket => ']'
  | openAngle => '<'
  | closeAngle => '>'
  | openParen => '('
  | closeParen => ')'

/-- The mark that a character writes. -/
def ofChar? : Char → Option Mark
  | '|' => some bar
  | '+' => some plus
  | '?' => some question
  | ',' => some comma
  | '[' => some openBracket
  | ']' => some closeBracket
  | '<' => some openAngle
  | '>' => some closeAngle
  | '(' => some openParen
  | ')' => some closeParen
  | _ => none

/-- A mark is read back from its character. -/
theorem ofChar?_toChar (m : Mark) : ofChar? m.toChar = some m := by cases m <;> rfl

end Mark

/-- A word of the notation. -/
inductive Lexeme where
  /-- A type name. -/
  | name (text : String)
  /-- A text between double quotes. -/
  | quoted (content : String)
  /-- The underscore between two quoted texts. -/
  | joiner
  /-- Any other mark. -/
  | mark (m : Mark)
deriving DecidableEq, Repr

namespace Lexeme

/-- The text of a lexeme. -/
def text : Lexeme → String
  | name t => t
  | quoted content => "\"" ++ content ++ "\""
  | joiner => "_"
  | mark m => m.toChar.toString

/-- The number of characters a lexeme takes. -/
def width (l : Lexeme) : Nat := l.text.length

/-- What messages call the class of a lexeme; a mark is called by itself. -/
def kind : Lexeme → String
  | name _ => "name"
  | quoted _ => "string"
  | joiner => "sep"
  | mark m => m.toChar.toString

end Lexeme

/-- A lexeme and the position of its first character. -/
structure Token where
  lexeme : Lexeme
  offset : Nat
deriving DecidableEq, Repr

end WidgetSchema
