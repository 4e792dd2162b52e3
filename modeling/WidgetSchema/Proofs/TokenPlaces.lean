/-
The parser and the places of tokens.

The rules of the parser decide by lexemes. Where a token stands they only hand on, to say where a
fault is. So if the tokens of a text are moved, and the end of the text with them, what is read
stays the same, and a fault goes where its token goes (`whole_moved`). A text whose tokens are
those of another text at other places is therefore read like that text (`parse_moved`).
-/
import WidgetSchema.Proofs.ParserGrammar

set_option autoImplicit false

namespace WidgetSchema

variable {α β : Type} {f : Nat → Nat}

/-- The token at its new place. -/
def Token.moved (f : Nat → Nat) (t : Token) : Token := { t with offset := f t.offset }

/-- The fault at its new place. -/
def LocatedFault.moved (f : Nat → Nat) (e : LocatedFault) : LocatedFault :=
  { e with offset := f e.offset }

namespace Parsing

variable {stop : Nat} {m : Mark} {ts : List Token}

/-! ## Answers after a move -/

/-- An answer after a move: a value is carried over, a fault is moved. -/
def moved (f : Nat → Nat) (carry : α → β) : Except LocatedFault α → Except LocatedFault β
  | .ok a => .ok (carry a)
  | .error e => .error (e.moved f)

/-- The tokens left are moved with the others. -/
abbrev carryRest (f : Nat → Nat) (read : α × List Token) : α × List Token :=
  (read.1, read.2.map (Token.moved f))

/-- The second rule does among moved tokens what the first one does among the tokens. -/
def MovesWith (f : Nat → Nat) (rule rule' : Rule α) : Prop :=
  ∀ ts, rule' (ts.map (Token.moved f)) = moved f (carryRest f) (rule ts)

/-- Step by step, a sequence follows another one. -/
theorem moved_bind {α' β' : Type} {carry : α → α'} {carry' : β → β'}
    {x : Except LocatedFault α} {x' : Except LocatedFault α'}
    {next : α → Except LocatedFault β} {next' : α' → Except LocatedFault β'}
    (hx : x' = moved f carry x) (hnext : ∀ a, next' (carry a) = moved f carry' (next a)) :
    x' >>= next' = moved f carry' (x >>= next) := by
  subst hx
  cases x with
  | error e => rfl
  | ok a => exact hnext a

/-- What comes next is a lexeme, and lexemes do not move. -/
theorem nextLexeme?_moved (f : Nat → Nat) (ts : List Token) :
    nextLexeme? (ts.map (Token.moved f)) = nextLexeme? ts := by
  cases ts <;> rfl

/-- Where the tokens are used up the end of the text is named, which moves like an offset. -/
theorem nextOffset_moved (f : Nat → Nat) (stop : Nat) (ts : List Token) :
    nextOffset (f stop) (ts.map (Token.moved f)) = f (nextOffset stop ts) := by
  cases ts <;> rfl

/-- A fault names the next token or the end. -/
theorem faultHere_moved (carry : α → β) (stop : Nat) (ts : List Token) (fault : SyntaxFault) :
    faultHere (f stop) (ts.map (Token.moved f)) fault =
      moved f carry (faultHere stop ts fault) := by
  rw [faultHere, nextOffset_moved]
  rfl

/-- Accepting a mark looks at lexemes only. -/
theorem accept?_moved (f : Nat → Nat) (m : Mark) (ts : List Token) :
    accept? m (ts.map (Token.moved f)) = (accept? m ts).map (List.map (Token.moved f)) := by
  cases ts with
  | nil => rfl
  | cons t ts =>
    rw [List.map_cons, accept?, accept?]
    show (if t.lexeme = .mark m then _ else _) = _
    split <;> rfl

/-- A mark that is missing is reported at the moved place. -/
theorem expect_moved (f : Nat → Nat) (stop : Nat) (m : Mark) (ts : List Token) :
    expect (f stop) m (ts.map (Token.moved f)) =
      moved f (List.map (Token.moved f)) (expect stop m ts) := by
  rw [expect, expect, accept?_moved, nextLexeme?_moved]
  cases accept? m ts with
  | none => exact faultHere_moved _ stop ts _
  | some rest => rfl

/-! ## The rules -/

section Rules

variable {item item' : Rule α} {nested nested' : Rule Part}

/-- The items of a list, one after the other, by induction on the rounds. -/
theorem moreItems_moved (h : MovesWith f item item') (m : Mark) (rounds : Nat) :
    MovesWith f (moreItems item m rounds) (moreItems item' m rounds) := by
  induction rounds with
  | zero => exact fun ts => rfl
  | succ rounds ih =>
    intro ts
    rw [moreItems, moreItems, accept?_moved]
    cases accept? m ts with
    | none => rfl
    | some rest =>
      refine moved_bind (h rest) fun a => moved_bind (ih a.2) fun as => ?_
      rfl

/-- A first item and the ones behind marks. -/
theorem separated_moved (h : MovesWith f item item') (m : Mark) :
    MovesWith f (separated item m) (separated item' m) := by
  intro ts
  refine moved_bind (h ts) fun a => ?_
  have hmore : moreItems item' m (a.2.map (Token.moved f)).length (a.2.map (Token.moved f)) =
      moved f (carryRest f) (moreItems item m a.2.length a.2) := by
    rw [List.length_map]
    exact moreItems_moved h m a.2.length a.2
  exact moved_bind hmore fun as => rfl

/-- A literal that comes twice is reported where it stands the second time. The induction is on the
recursion of the rule. -/
theorem moreLiterals_moved (stop : Nat) (seen : List String) :
    MovesWith f (moreLiterals stop seen) (moreLiterals (f stop) seen) := by
  intro ts
  fun_induction moreLiterals stop seen ts with
  | case1 seen offset content offset' rest hmem =>
    exact if_pos hmem
  | case2 seen offset content offset' rest hnew ih =>
    exact (if_neg hnew).trans ih
  | case3 seen offset rest hquoted =>
    rw [← nextLexeme?_moved f rest]
    cases rest with
    | nil => rfl
    | cons t rest =>
      obtain ⟨l, offset'⟩ := t
      cases l with
      | quoted content => exact absurd rfl (hquoted content offset' rest)
      | name | joiner | mark => rfl
  | case4 seen ts _ hjoiner =>
    cases ts with
    | nil => rfl
    | cons t rest =>
      obtain ⟨l, offset⟩ := t
      cases l with
      | joiner => exact absurd rfl (hjoiner offset rest)
      | name | quoted | mark => rfl

/-- The offset of the name is read by the faults behind it, so it is moved as well. -/
theorem named_moved (h : MovesWith f nested nested') (stop : Nat) (name : String) (offset : Nat) :
    MovesWith f (named stop nested name offset) (named (f stop) nested' name (f offset)) := by
  intro ts
  rw [named, named, accept?_moved]
  cases accept? .openParen ts with
  | none => rfl
  | some rest =>
    dsimp only [Option.map_some]
    rw [nextLexeme?_moved]
    split
    · rfl
    · split
      · exact faultHere_moved _ stop rest _
      · exact moved_bind (separated_moved h .comma rest) fun args =>
          moved_bind (expect_moved f stop .closeParen args.2) fun last => rfl

/-- What stands between brackets, and the closing bracket. -/
theorem enclosed_moved (h : MovesWith f nested nested') (stop : Nat) (closing : Mark)
    (wrap : TypeExpr → TypeExpr) :
    MovesWith f (enclosed stop nested closing wrap) (enclosed (f stop) nested' closing wrap) :=
  fun ts => moved_bind (h ts) fun inner =>
    moved_bind (expect_moved f stop closing inner.2) fun _ => rfl

/-- The first token says which production it is, before and after the move. -/
theorem atom_moved (h : MovesWith f nested nested') (stop : Nat) :
    MovesWith f (atom stop nested) (atom (f stop) nested') := by
  intro ts
  cases ts with
  | nil => rfl
  | cons t rest =>
    obtain ⟨l, offset⟩ := t
    cases l with
    | name text => exact named_moved h stop text offset rest
    | quoted content => exact moved_bind (moreLiterals_moved stop [content] rest) fun read => rfl
    | joiner => rfl
    | mark m =>
      cases m with
      | openParen => exact enclosed_moved h stop .closeParen id rest
      | _ => rfl

/-- The first token says whether it is a sequence, a mapping or an atom. -/
theorem container_moved (h : MovesWith f nested nested') (stop : Nat) :
    MovesWith f (container stop nested) (container (f stop) nested') := by
  intro ts
  cases ts with
  | nil => rfl
  | cons t rest =>
    obtain ⟨l, offset⟩ := t
    have hatom := atom_moved h stop (⟨l, offset⟩ :: rest)
    cases l with
    | mark m =>
      cases m with
      | openBracket => exact enclosed_moved h stop .closeBracket .sequence rest
      | openAngle => exact enclosed_moved h stop .closeAngle .mapping rest
      | _ => exact hatom
    | _ => exact hatom

/-- Whether a question mark follows is not changed by a move. -/
theorem modifier_moved (h : MovesWith f nested nested') (stop : Nat) :
    MovesWith f (modifier stop nested) (modifier (f stop) nested') := by
  intro ts
  refine moved_bind (container_moved h stop ts) fun read => ?_
  dsimp only
  rw [accept?_moved]
  cases accept? .question read.2 <;> rfl

/-- A bare set among several operands is reported where the operation starts. -/
theorem join_moved (f : Nat → Nat) (operator : Operator) (start : Nat) (parts : List Part) :
    join operator (f start) parts = moved f id (join operator start parts) := by
  unfold join
  split
  · rfl
  · split <;> rfl

/-- An operation remembers where it starts, for that report. -/
theorem operation_moved {operand operand' : Rule Part} (h : MovesWith f operand operand')
    (stop : Nat) (operator : Operator) :
    MovesWith f (operation stop operator operand) (operation (f stop) operator operand') := by
  intro ts
  refine moved_bind (separated_moved h operator.mark ts) fun read => ?_
  rw [nextOffset_moved]
  exact moved_bind (join_moved f operator _ read.1) fun part => rfl

/-- **One layer of the grammar hands places on**, if the reader of nested expressions does. -/
theorem layer_moved (h : MovesWith f nested nested') (stop : Nat) :
    MovesWith f (layer stop nested) (layer (f stop) nested') :=
  operation_moved (operation_moved (modifier_moved h stop) stop .intersection) stop .union

/-- **Every rule, at every depth.** What an expression reads after a move is what it read before,
and its fault is the moved one. -/
theorem expression_moved (f : Nat → Nat) (stop depth : Nat) :
    MovesWith f (expression stop depth) (expression (f stop) depth) := by
  induction depth with
  | zero =>
    intro ts
    rw [expression, expression, nextLexeme?_moved]
    exact faultHere_moved _ stop ts _
  | succ depth ih => exact layer_moved ih stop

end Rules

/-- **The expression of moved tokens is that of the tokens**, and so is the fault, moved. -/
theorem whole_moved (f : Nat → Nat) (stop : Nat) (ts : List Token) :
    whole (f stop) (ts.map (Token.moved f)) = moved f id (whole stop ts) := by
  rw [whole, whole, List.isEmpty_map]
  split
  · exact faultHere_moved id stop ts .emptyExpression
  · rw [List.length_map]
    refine moved_bind (expression_moved f stop ts.length ts) fun read => ?_
    obtain ⟨part, rest⟩ := read
    cases rest <;> rfl

end Parsing

/-- **A text with the same tokens at other places is read alike.** -/
theorem TypeExpr.parse_moved {raw raw' : String} {ts : List Token} (h : tokenize raw = .ok ts)
    (h' : tokenize raw' = .ok (ts.map (Token.moved f))) (hstop : f raw.length = raw'.length) :
    TypeExpr.parse raw' =
      (TypeExpr.parse raw).mapError fun e => { e with raw := raw', offset := f e.offset } := by
  have hwhole := Parsing.whole_moved f raw.length ts
  rw [hstop] at hwhole
  simp only [TypeExpr.parse, h, h', bind, Except.bind, hwhole]
  cases Parsing.whole raw.length ts <;> rfl

end WidgetSchema
