/-
The grammar of type expressions, as a type of derivation trees.

    Expr         := Union
    Union        := Intersection ('|' Intersection)*
    Intersection := Modifier ('+' Modifier)*
    Modifier     := ('[' Expr ']' | '<' Expr '>' | Atom) '?'?
    Atom         := Name ('(' Expr (',' Expr)* ')')? | LiteralSet | '(' Expr ')'
    LiteralSet   := Quoted ('_' Quoted)*

A tree says by which rule each phrase is written. What it is a derivation of are
its lexemes from left to right (`yield`), and what it means is the expression
that the notation gives it (`meaning`), in which parentheses leave nothing behind.
Three things that the rules allow are forbidden (`Admissible`): a set of several
literals beside an operator, one literal twice in a set, and a scalar kind with
arguments.

Nothing here looks at how expressions are read.
-/
import WidgetSchema.Error.Syntax
import WidgetSchema.Expr.Basic

set_option autoImplicit false

namespace WidgetSchema.Grammar

/-- The phrases that denote one expression. The two operators make phrases of
the same kind, unions of intersections and intersections of modifiers. -/
inductive Phrase where
  | operation (operator : Operator)
  | modifier
  /-- What a question mark may follow. -/
  | container
  | atom
deriving DecidableEq

/-- The phrase that stands between the marks of an operator. -/
def operand : Operator → Phrase
  | .union => .operation .intersection
  | .intersection => .modifier

/-- A whole expression is a union. -/
abbrev Phrase.expression : Phrase := .operation .union

mutual
/-- A derivation tree for a phrase. -/
inductive Tree : Phrase → Type where
  /-- `Intersection ('|' Intersection)*` and `Modifier ('+' Modifier)*` -/
  | operation (operator : Operator) :
      Tree (operand operator) → Tail operator.mark (operand operator) → Tree (.operation operator)
  | plain : Tree .container → Tree .modifier
  /-- `... '?'` -/
  | optional : Tree .container → Tree .modifier
  /-- `'[' Expr ']'` -/
  | sequence : Tree .expression → Tree .container
  /-- `'<' Expr '>'` -/
  | mapping : Tree .expression → Tree .container
  | atom : Tree .atom → Tree .container
  /-- `Name` -/
  | name (text : String) : Tree .atom
  /-- `Name '(' Expr (',' Expr)* ')'` -/
  | generic (base : String) : Tree .expression → Tail .comma .expression → Tree .atom
  /-- `Quoted ('_' Quoted)*` -/
  | literals (first : String) (more : List String) : Tree .atom
  /-- `'(' Expr ')'` -/
  | group : Tree .expression → Tree .atom

/-- Further phrases of one kind, each behind a mark: `(m p)*`. -/
inductive Tail : Mark → Phrase → Type where
  | nil {m : Mark} {p : Phrase} : Tail m p
  | cons {m : Mark} {p : Phrase} : Tree p → Tail m p → Tail m p
end

/-- Further literals of a set, each behind a joiner. -/
def literalTail (contents : List String) : List Lexeme :=
  contents.flatMap fun content => [.joiner, .quoted content]

mutual
/-- What a tree derives. -/
def Tree.yield : {p : Phrase} → Tree p → List Lexeme
  | _, .operation _ first more => first.yield ++ more.yield
  | _, .plain t => t.yield
  | _, .optional t => t.yield ++ [.mark .question]
  | _, .sequence t => .mark .openBracket :: t.yield ++ [.mark .closeBracket]
  | _, .mapping t => .mark .openAngle :: t.yield ++ [.mark .closeAngle]
  | _, .atom t => t.yield
  | _, .name text => [.name text]
  | _, .generic base first more =>
    .name base :: .mark .openParen :: (first.yield ++ more.yield) ++ [.mark .closeParen]
  | _, .literals first more => .quoted first :: literalTail more
  | _, .group t => .mark .openParen :: t.yield ++ [.mark .closeParen]

def Tail.yield : {m : Mark} → {p : Phrase} → Tail m p → List Lexeme
  | _, _, .nil => []
  | m, _, .cons t ts => .mark m :: t.yield ++ ts.yield
end

/-- The lexemes that a phrase can start with. -/
def starts : Lexeme → Bool
  | .name _ | .quoted _ | .mark .openBracket | .mark .openAngle | .mark .openParen => true
  | _ => false

theorem Tree.exists_yield_cons : {p : Phrase} → (t : Tree p) →
    ∃ l ls, t.yield = l :: ls ∧ starts l = true
  | _, .operation _ first more => by
    obtain ⟨l, ls, hfirst, hl⟩ := first.exists_yield_cons
    exact ⟨l, ls ++ more.yield, by rw [yield, hfirst, List.cons_append], hl⟩
  | _, .plain t => t.exists_yield_cons
  | _, .optional t => by
    obtain ⟨l, ls, ht, hl⟩ := t.exists_yield_cons
    exact ⟨l, ls ++ [.mark .question], by rw [yield, ht, List.cons_append], hl⟩
  | _, .atom t => t.exists_yield_cons
  | _, .sequence _ | _, .mapping _ | _, .name _ | _, .generic _ _ _ | _, .literals _ _
  | _, .group _ => ⟨_, _, rfl, rfl⟩

/-! ## Meaning -/

/-- What operands mean together. A single operand stands for itself. -/
def operate (operator : Operator) (first : TypeExpr) : List TypeExpr → TypeExpr
  | [] => first
  | rest =>
    match operator with
    | .union => .union (first :: rest)
    | .intersection => .intersection (first :: rest)

mutual
/-- The expression that a tree means. -/
def Tree.meaning : {p : Phrase} → Tree p → TypeExpr
  | _, .operation operator first more => operate operator first.meaning more.meanings
  | _, .plain t => t.meaning
  | _, .optional t => .optional t.meaning
  | _, .sequence t => .sequence t.meaning
  | _, .mapping t => .mapping t.meaning
  | _, .atom t => t.meaning
  | _, .name text => if isPrimitiveName text then .primitive text else .reference text
  | _, .generic base first more => .generic base (first.meaning :: more.meanings)
  | _, .literals first [] => .literal first
  | _, .literals first more => .enumSet (.ofList (first :: more))
  | _, .group t => t.meaning

def Tail.meanings : {m : Mark} → {p : Phrase} → Tail m p → List TypeExpr
  | _, _, .nil => []
  | _, _, .cons t ts => t.meaning :: ts.meanings
end

/-! ## Side conditions -/

/-- The phrase is a set of two or more literals, with or without a question mark,
and no parentheses stand around it. -/
def Tree.isSet : {p : Phrase} → Tree p → Bool
  | _, .operation _ first .nil => first.isSet
  | _, .plain t => t.isSet
  | _, .optional t => t.isSet
  | _, .atom t => t.isSet
  | _, .literals _ (_ :: _) => true
  | _, _ => false

/-- Some of the phrases is such a set. -/
def Tail.anySet : {m : Mark} → {p : Phrase} → Tail m p → Bool
  | _, _, .nil => false
  | _, _, .cons t ts => t.isSet || ts.anySet

mutual
/-- Of two or more operands none is a set of literals, the literals of a set are
different, and no scalar kind has arguments. -/
def Tree.Admissible : {p : Phrase} → Tree p → Prop
  | _, .operation _ first more =>
    first.Admissible ∧ more.Admissible ∧
      (more = .nil ∨ first.isSet = false ∧ more.anySet = false)
  | _, .plain t => t.Admissible
  | _, .optional t => t.Admissible
  | _, .sequence t => t.Admissible
  | _, .mapping t => t.Admissible
  | _, .atom t => t.Admissible
  | _, .name _ => True
  | _, .generic base first more =>
    isPrimitiveName base = false ∧ first.Admissible ∧ more.Admissible
  | _, .literals first more => (first :: more).Nodup
  | _, .group t => t.Admissible

def Tail.Admissible : {m : Mark} → {p : Phrase} → Tail m p → Prop
  | _, _, .nil => True
  | _, _, .cons t ts => t.Admissible ∧ ts.Admissible
end

/-- The lexemes derive the expression. -/
def Derives (ls : List Lexeme) (e : TypeExpr) : Prop :=
  ∃ t : Tree .expression, t.yield = ls ∧ t.Admissible ∧ t.meaning = e

end WidgetSchema.Grammar
