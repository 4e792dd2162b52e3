/-
Type expressions to text.

An expression is written as its lexemes without blanks between them. Parentheses
stand around an operand exactly where the grammar would otherwise read another
tree: around a set of several literals, around an operator inside the same
operator or inside one that binds tighter, and around whatever a question mark
would not reach as a whole.
-/
import WidgetSchema.Error.Syntax
import WidgetSchema.Expr.Basic

set_option autoImplicit false

namespace WidgetSchema

/-- Where an expression stands inside another one. -/
inductive Place where
  /-- Where the grammar reads a whole expression. -/
  | free
  /-- As an operand. -/
  | operand (operator : Operator)
  /-- Before a question mark. -/
  | beforeQuestion
deriving DecidableEq, Repr

namespace TypeExpr

/-- The expression needs parentheses at the place. -/
def needsParens : Place → TypeExpr → Bool
  | .free, _ => false
  | .operand _, enumSet _ | .operand _, union _ => true
  | .operand .intersection, intersection _ => true
  | .operand _, _ => false
  | .beforeQuestion, union _ | .beforeQuestion, intersection _ | .beforeQuestion, enumSet _
  | .beforeQuestion, optional _ => true
  | .beforeQuestion, _ => false

/-- Lexemes in parentheses, if they need them. -/
def parenthesized (needed : Bool) (ls : List Lexeme) : List Lexeme :=
  if needed then .mark .openParen :: ls ++ [.mark .closeParen] else ls

/-- Groups of lexemes with one lexeme between each two. -/
def joinWith (separator : Lexeme) : List (List Lexeme) → List Lexeme
  | [] => []
  | [g] => g
  | g :: h :: gs => g ++ separator :: joinWith separator (h :: gs)

mutual
/-- The lexemes an expression is written with. -/
def lexemes : TypeExpr → List Lexeme
  | primitive name | reference name => [.name name]
  | literal text => [.quoted text]
  | enumSet values => joinWith .joiner (values.toList.map fun v => [.quoted v])
  | union members => joinWith (.mark .bar) (lexemesEach (.operand .union) members)
  | intersection members =>
    joinWith (.mark .plus) (lexemesEach (.operand .intersection) members)
  | optional inner =>
    parenthesized (needsParens .beforeQuestion inner) (lexemes inner) ++ [.mark .question]
  | sequence inner => .mark .openBracket :: lexemes inner ++ [.mark .closeBracket]
  | mapping inner => .mark .openAngle :: lexemes inner ++ [.mark .closeAngle]
  | generic base args =>
    .name base :: .mark .openParen :: joinWith (.mark .comma) (lexemesEach .free args)
      ++ [.mark .closeParen]

/-- The lexemes of each expression of a list, in parentheses where the place
needs them. -/
def lexemesEach (place : Place) : List TypeExpr → List (List Lexeme)
  | [] => []
  | e :: es => parenthesized (needsParens place e) (lexemes e) :: lexemesEach place es
end

theorem lexemesEach_eq (place : Place) (es : List TypeExpr) :
    lexemesEach place es = es.map fun e => parenthesized (needsParens place e) (lexemes e) := by
  induction es with
  | nil => rfl
  | cons e es ih => simp [lexemesEach, ih]

/-- The text of an expression. -/
def render (e : TypeExpr) : String := String.join (e.lexemes.map Lexeme.text)

/-- The text of a name applied to arguments; without arguments, the name. -/
def label (name : String) (args : List TypeExpr) : String :=
  if args.isEmpty then name else (generic name args).render

end TypeExpr

end WidgetSchema
