/-
Tokens to type expressions.

The grammar, loosest binding first:

    Expr         := Union
    Union        := Intersection ('|' Intersection)*
    Intersection := Modifier ('+' Modifier)*
    Modifier     := ('[' Expr ']' | '<' Expr '>' | Atom) '?'?
    Atom         := Name ('(' Expr (',' Expr)* ')')? | LiteralSet | '(' Expr ')'
    LiteralSet   := Quoted ('_' Quoted)*

Each rule is a function from the tokens still to read to what it read and the
tokens left. The rules are layered: none calls itself, every layer takes the
reader of a nested expression as an argument, and `expression` ties the knot by
recursion on a nesting depth. Before a nested expression is read at least one
token is used up, so the number of tokens bounds the nesting, and the bound is
never met: at depth zero no token is left, and `expression` answers what any
reader answers there.
-/
import WidgetSchema.Expr.Basic
import WidgetSchema.Expr.Lexer

set_option autoImplicit false

namespace WidgetSchema

namespace Parsing

/-! ## Reading tokens -/

/-- A rule of the grammar: from the tokens still to read to what it read and the
tokens behind that. -/
abbrev Rule (α : Type) := List Token → Except LocatedFault (α × List Token)

/-- The lexeme of the next token. -/
def nextLexeme? : List Token → Option Lexeme
  | [] => none
  | t :: _ => some t.lexeme

/-- The position of the next token; the end of the text if there is none. -/
def nextOffset (stop : Nat) : List Token → Nat
  | [] => stop
  | t :: _ => t.offset

/-- A fault at the next token. -/
def faultHere {α : Type} (stop : Nat) (ts : List Token) (fault : SyntaxFault) :
    Except LocatedFault α :=
  .error { fault, offset := nextOffset stop ts }

/-- Uses up a mark, if it comes next. -/
def accept? (m : Mark) : List Token → Option (List Token)
  | [] => none
  | t :: ts => if t.lexeme = .mark m then some ts else none

/-- Uses up a mark, which has to come next. -/
def expect (stop : Nat) (m : Mark) (ts : List Token) : Except LocatedFault (List Token) :=
  match accept? m ts with
  | some rest => .ok rest
  | none => faultHere stop ts (.expectedToken (Lexeme.mark m).kind (nextLexeme? ts))

/-- Further items, each behind a mark. Every round uses up the mark, so the
number of tokens bounds the rounds. -/
def moreItems {α : Type} (item : Rule α) (m : Mark) :
    (rounds : Nat) → List Token → Except LocatedFault (List α × List Token)
  | 0, ts => .ok ([], ts)
  | rounds + 1, ts =>
    match accept? m ts with
    | none => .ok ([], ts)
    | some rest => do
      let (a, rest) ← item rest
      let (as, rest) ← moreItems item m rounds rest
      .ok (a :: as, rest)

/-- One or more items with a mark between each two. -/
def separated {α : Type} (item : Rule α) (m : Mark) (ts : List Token) :
    Except LocatedFault (List α × List Token) := do
  let (a, rest) ← item ts
  let (as, rest) ← moreItems item m rest.length rest
  .ok (a :: as, rest)

/-! ## The rules -/

/-- An expression and whether it is a set of several literals that no parentheses
enclose. Such a set may not be an operand. -/
structure Part where
  expr : TypeExpr
  bareSet : Bool
deriving DecidableEq

/-- The literals of a set behind its first ones. -/
def moreLiterals (stop : Nat) (seen : List String) : Rule (List String)
  | ⟨.joiner, _⟩ :: ⟨.quoted content, offset⟩ :: rest =>
    if content ∈ seen then .error { fault := .duplicateLiteral content, offset }
    else moreLiterals stop (seen ++ [content]) rest
  | ⟨.joiner, _⟩ :: rest =>
    faultHere stop rest (.expectedToken (Lexeme.quoted "").kind (nextLexeme? rest))
  | ts => .ok (seen, ts)

/-- The expression of a list of literals. -/
def literals : List String → Part
  | [content] => { expr := .literal content, bareSet := false }
  | contents => { expr := .enumSet (.ofList contents), bareSet := true }

/-- A name and its arguments, if there are any. -/
def named (stop : Nat) (nested : Rule Part) (name : String) (offset : Nat)
    (ts : List Token) : Except LocatedFault (Part × List Token) :=
  match accept? .openParen ts with
  | none =>
    .ok ({ expr := if isPrimitiveName name then .primitive name else .reference name
           bareSet := false }, ts)
  | some rest =>
    if isPrimitiveName name then .error { fault := .primitiveArguments name, offset }
    else if nextLexeme? rest = some (.mark .closeParen) then faultHere stop rest .emptyArguments
    else do
      let (args, rest) ← separated nested .comma rest
      let rest ← expect stop .closeParen rest
      .ok ({ expr := .generic name (args.map Part.expr), bareSet := false }, rest)

/-- An expression between two marks. -/
def enclosed (stop : Nat) (nested : Rule Part) (closing : Mark)
    (wrap : TypeExpr → TypeExpr) (ts : List Token) :
    Except LocatedFault (Part × List Token) := do
  let (inner, rest) ← nested ts
  let rest ← expect stop closing rest
  .ok ({ expr := wrap inner.expr, bareSet := false }, rest)

/-- A name, a set of literals or an expression in parentheses. -/
def atom (stop : Nat) (nested : Rule Part) (ts : List Token) :
    Except LocatedFault (Part × List Token) :=
  match ts with
  | ⟨.name text, offset⟩ :: rest => named stop nested text offset rest
  | ⟨.quoted content, _⟩ :: rest => do
    let (contents, rest) ← moreLiterals stop [content] rest
    .ok (literals contents, rest)
  | ⟨.mark .openParen, _⟩ :: rest => enclosed stop nested .closeParen id rest
  | ts => faultHere stop ts (.expectedExpression (nextLexeme? ts))

/-- A sequence, a mapping or an atom. -/
def container (stop : Nat) (nested : Rule Part) (ts : List Token) :
    Except LocatedFault (Part × List Token) :=
  match ts with
  | ⟨.mark .openBracket, _⟩ :: rest => enclosed stop nested .closeBracket .sequence rest
  | ⟨.mark .openAngle, _⟩ :: rest => enclosed stop nested .closeAngle .mapping rest
  | ts => atom stop nested ts

/-- A container with at most one question mark behind it. -/
def modifier (stop : Nat) (nested : Rule Part) (ts : List Token) :
    Except LocatedFault (Part × List Token) := do
  let (part, rest) ← container stop nested ts
  match accept? .question rest with
  | some rest => .ok ({ part with expr := .optional part.expr }, rest)
  | none => .ok (part, rest)

/-- The expression an operator makes of its operands. -/
def applyOperator : Operator → List TypeExpr → TypeExpr
  | .union => .union
  | .intersection => .intersection

/-- Joins operands that were read from `start` on. A single operand stands for
itself; among several, none may be a bare set. -/
def join (operator : Operator) (start : Nat) : List Part → Except LocatedFault Part
  | [part] => .ok part
  | parts =>
    if parts.any Part.bareSet then
      .error { fault := .ungroupedLiterals operator, offset := start }
    else .ok { expr := applyOperator operator (parts.map Part.expr), bareSet := false }

/-- Operands with the mark of an operator between them. -/
def operation (stop : Nat) (operator : Operator) (operand : Rule Part)
    (ts : List Token) : Except LocatedFault (Part × List Token) := do
  let (parts, rest) ← separated operand operator.mark ts
  let part ← join operator (nextOffset stop ts) parts
  .ok (part, rest)

/-- One layer of the grammar around a nested expression. -/
def layer (stop : Nat) (nested : Rule Part) : Rule Part :=
  operation stop .union (operation stop .intersection (modifier stop nested))

/-- An expression in which at most `depth` layers nest. -/
def expression (stop : Nat) : (depth : Nat) → Rule Part
  | 0, ts => faultHere stop ts (.expectedExpression (nextLexeme? ts))
  | depth + 1, ts => layer stop (expression stop depth) ts

/-- The expression that is written by exactly these tokens. -/
def whole (stop : Nat) (ts : List Token) : Except LocatedFault TypeExpr :=
  if ts.isEmpty then faultHere stop ts .emptyExpression
  else do
    let (part, rest) ← expression stop ts.length ts
    match rest with
    | [] => .ok part.expr
    | t :: _ => .error { fault := .unexpectedToken t.lexeme, offset := t.offset }

end Parsing

/-- The expression a text denotes. Names are not looked up. -/
def TypeExpr.parse (raw : String) : Except SyntaxError TypeExpr := do
  let tokens ← tokenize raw
  (Parsing.whole raw.length tokens).mapError (LocatedFault.toSyntaxError raw)

end WidgetSchema
