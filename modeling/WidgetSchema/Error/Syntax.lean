/-
What can be wrong with a written expression, tag or parameter.

A fault is a cause, not a text: `SyntaxFault.message` is the one place where its
wording stands. A `SyntaxError` adds the text that was read and the position of
the fault in it, counted in characters from its start.
-/
import WidgetSchema.Expr.Lexeme
import WidgetSchema.Text.Quoted

set_option autoImplicit false

namespace WidgetSchema

/-- The two operators that join expressions. -/
inductive Operator where
  | union
  | intersection
deriving DecidableEq, Repr

/-- The mark between the operands. -/
def Operator.mark : Operator → Mark
  | union => .bar
  | intersection => .plus

/-- Why a text is no expression, no tag list or no parameter. -/
inductive SyntaxFault where
  /-- No token at all. -/
  | emptyExpression
  /-- A double quote that is never closed. -/
  | unterminatedLiteral
  /-- A character that starts no token. -/
  | unexpectedCharacter (c : Char)
  /-- A token behind a complete expression. -/
  | unexpectedToken (found : Lexeme)
  /-- Another class of token than the only possible one, or the end. -/
  | expectedToken (kind : String) (found : Option Lexeme)
  /-- No expression where one has to start. -/
  | expectedExpression (found : Option Lexeme)
  /-- A set of several literals, not in parentheses, beside an operator. -/
  | ungroupedLiterals (operator : Operator)
  /-- One literal twice in a set. -/
  | duplicateLiteral (content : String)
  /-- A scalar kind with arguments. -/
  | primitiveArguments (name : String)
  /-- A pair of parentheses without arguments behind a name. -/
  | emptyArguments
  /-- A word among the tags that does not start like one. -/
  | expectedTag (word : String)
  /-- A tag without an equality sign. -/
  | tagWithoutValue (word : String)
  /-- A tag without a key. -/
  | emptyTagKey
  /-- A key that is not one. -/
  | invalidTagKey (key : String)
  /-- A value that is empty or holds a tag mark or an equality sign. -/
  | invalidTagValue (key : String)
  /-- One key twice. -/
  | duplicateTag (key : String)
  /-- A value that is none of those its key allows. -/
  | unknownTagValue (key : String) (allowed : List String) (value : String)
  /-- A parameter name that is not one. -/
  | invalidParameterName (name : String)
  /-- A fault inside a named definition or field. -/
  | within (owner : String) (fault : SyntaxFault)
  /-- A fault described in other words. -/
  | other (reason : String)
deriving DecidableEq, Repr

namespace SyntaxFault

/-- What messages say was found. -/
def foundText : Option Lexeme → String
  | some l => Quoted.ofString l.text
  | none => "end of expression"

/-- The wording of a fault. -/
def message : SyntaxFault → String
  | emptyExpression => "empty type expression"
  | unterminatedLiteral => "unterminated string literal"
  | unexpectedCharacter c => "unexpected character " ++ Quoted.ofString c.toString
  | unexpectedToken found => "unexpected token " ++ Quoted.ofString found.text
  | expectedToken kind found =>
    "expected " ++ Quoted.ofString kind ++ ", found " ++ foundText found
  | expectedExpression found => "expected type expression, found " ++ foundText found
  | ungroupedLiterals operator =>
    "literal set cannot be combined with '" ++ operator.mark.toChar.toString
      ++ "' without grouping"
  | duplicateLiteral content => "duplicate literal " ++ (Lexeme.quoted content).text
  | primitiveArguments name => "primitive '" ++ name ++ "' cannot take generic arguments"
  | emptyArguments => "empty generic argument list"
  | expectedTag word => "expected annotation tag, found " ++ Quoted.ofString word
  | tagWithoutValue word => "annotation " ++ Quoted.ofString word ++ " is missing '='"
  | emptyTagKey => "annotation key is empty"
  | invalidTagKey key => "invalid annotation key " ++ Quoted.ofString key
  | invalidTagValue key => "invalid value for annotation '" ++ key ++ "'"
  | duplicateTag key => "duplicate annotation '" ++ key ++ "'"
  | unknownTagValue key allowed value =>
    "annotation '" ++ key ++ "' must be one of " ++ Quoted.ofStrings allowed ++ ", got "
      ++ Quoted.ofString value
  | invalidParameterName name => "invalid parameter name " ++ Quoted.ofString name
  | within owner fault => owner ++ ": " ++ fault.message
  | other reason => reason

end SyntaxFault

/-- A fault and its position in the text that was read. -/
structure SyntaxError where
  fault : SyntaxFault
  raw : String
  offset : Nat
deriving DecidableEq, Repr

/-- The same fault, said to be inside a definition or field. -/
def SyntaxError.within (owner : String) (e : SyntaxError) : SyntaxError :=
  { e with fault := .within owner e.fault }

end WidgetSchema
