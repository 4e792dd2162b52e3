/-
The notation, one lexeme at a time.

Whether a lexeme may come next depends on two things: how far the phrase at hand has
got, and what is still open around it. A `Standing` is these two, `advance?` takes one
lexeme, and `follow` takes several. Nothing is looked up ahead and nothing is built: a
standing is all that the lexemes read so far mean for those to come.

Every derivation tree is followed from start to end, whatever stands open around it
(`follow_yield`). So where a standing has no way on, the lexemes up to there begin no
tree (`not_prefix_yield`), and where it is not final, they are none (`yield_ne`).
-/
import WidgetSchema.Proofs.Grammar

set_option autoImplicit false

namespace WidgetSchema.Grammar

variable {m : Mark} {p : Phrase} {ls ls' : List Lexeme} {l : Lexeme}

/-! ## Standings -/

/-- A pair of marks that phrases may stand between. -/
inductive Opening where
  | bracket
  | angle
  /-- Parentheses around one expression. -/
  | group
  /-- Parentheses around the arguments behind a name. -/
  | arguments
deriving DecidableEq

/-- The mark that closes what was opened. -/
def Opening.closing : Opening → Mark
  | bracket => .closeBracket
  | angle => .closeAngle
  | group | arguments => .closeParen

/-- How far the phrase at hand has got. -/
inductive Stage where
  /-- Nothing of it has been read. -/
  | start
  | name
  | literal
  /-- A literal and the joiner behind it. -/
  | joiner
  /-- A pair of marks and all between them. -/
  | closed
  /-- A question mark was the last. -/
  | optional
deriving DecidableEq

namespace Stage

/-- The phrase may end here. -/
def complete : Stage → Bool
  | start | joiner => false
  | name | literal | closed | optional => true

/-- How a phrase goes on with a lexeme: the stage that follows, and what it opens. -/
def next? : Stage → Lexeme → Option (Stage × List Opening)
  | start, .name _ => some (name, [])
  | start, .quoted _ | joiner, .quoted _ => some (literal, [])
  | start, .mark .openBracket => some (start, [.bracket])
  | start, .mark .openAngle => some (start, [.angle])
  | start, .mark .openParen => some (start, [.group])
  | name, .mark .openParen => some (start, [.arguments])
  | literal, .joiner => some (joiner, [])
  -- nothing else starts a phrase, and only a literal goes on behind a joiner
  | start, _ | joiner, _ => none
  | optional, .mark .question => none
  | _, .mark .question => some (optional, [])
  | _, .mark .bar | _, .mark .plus => some (start, [])
  | _, _ => none

end Stage

/-- How far the phrase at hand has got, and what is open around it, innermost first. -/
structure Standing where
  stage : Stage
  opened : List Opening

namespace Standing

/-- Where every expression starts. -/
def initial : Standing := { stage := .start, opened := [] }

/-- An expression may end here. -/
def Final (s : Standing) : Prop := s.stage.complete = true ∧ s.opened = []

/-- How a lexeme goes on behind a phrase: it closes what was opened last, or another
argument follows. -/
def leave? : List Opening → Lexeme → Option Standing
  | opening :: outer, .mark m =>
    if m = opening.closing then some { stage := .closed, opened := outer }
    else if opening = .arguments ∧ m = .comma then
      some { stage := .start, opened := opening :: outer }
    else none
  | _, _ => none

/-- The standing after one more lexeme, unless it cannot come next. -/
def advance? (s : Standing) (l : Lexeme) : Option Standing :=
  match s.stage.next? l with
  | some (stage, opened) => some { stage, opened := opened ++ s.opened }
  | none => if s.stage.complete then leave? s.opened l else none

/-- The standing after several lexemes. -/
def follow (s : Standing) (ls : List Lexeme) : Option Standing := ls.foldlM advance? s

variable {s s' : Standing}

@[simp] theorem follow_nil (s : Standing) : s.follow [] = some s := rfl

@[simp] theorem follow_cons (s : Standing) (l : Lexeme) (ls : List Lexeme) :
    s.follow (l :: ls) = (s.advance? l).bind (·.follow ls) := by
  rw [follow, List.foldlM_cons]
  rfl

theorem follow_append (s : Standing) (ls ls' : List Lexeme) :
    s.follow (ls ++ ls') = (s.follow ls).bind (·.follow ls') := by
  rw [follow, List.foldlM_append]
  rfl

/-- Lexemes behind others are followed from where those lead. -/
theorem follow_behind (h : s.follow ls = some s') : s.follow (ls ++ ls') = s'.follow ls' := by
  rw [follow_append, h, Option.bind_some]

/-- A lexeme that goes on with a phrase leaves open what is open around it. -/
theorem advance?_of_next? {stage stage' : Stage} {opened opened' : List Opening}
    (h : stage.next? l = some (stage', opened')) :
    advance? ⟨stage, opened⟩ l = some ⟨stage', opened' ++ opened⟩ := by
  simp only [advance?, h]

/-- A lexeme that does not go on with a complete phrase has to leave it. -/
theorem advance?_of_complete {stage : Stage} {opened : List Opening}
    (hnext : stage.next? l = none) (hcomplete : stage.complete = true) :
    advance? ⟨stage, opened⟩ l = leave? opened l := by
  simp only [advance?, hnext, hcomplete, if_true]

/-- Behind any complete phrase the mark starts another one, with the same open. -/
def Separates (m : Mark) (opened : List Opening) : Prop :=
  ∀ stage : Stage, stage.complete = true →
    advance? ⟨stage, opened⟩ (.mark m) = some ⟨.start, opened⟩

theorem separates_operator (operator : Operator) (opened : List Opening) :
    Separates operator.mark opened := by
  intro stage hcomplete
  cases stage with
  | start | joiner => cases hcomplete
  | name | literal | closed | optional => cases operator <;> rfl

theorem separates_comma (outer : List Opening) : Separates .comma (.arguments :: outer) := by
  intro stage hcomplete
  cases stage with
  | start | joiner => cases hcomplete
  | name | literal | closed | optional => rfl

/-- What was opened is closed behind any complete phrase. -/
theorem advance?_closing {stage : Stage} (opening : Opening) (outer : List Opening)
    (hcomplete : stage.complete = true) :
    advance? ⟨stage, opening :: outer⟩ (.mark opening.closing) = some ⟨.closed, outer⟩ := by
  cases stage with
  | start | joiner => cases hcomplete
  | name | literal | closed | optional => cases opening <;> rfl

end Standing

open Standing

/-! ## Trees -/

mutual
/-- The stage at the end of a tree. -/
def Tree.last : {p : Phrase} → Tree p → Stage
  | _, .operation _ first more => more.last first.last
  | _, .plain t => t.last
  | _, .optional _ => .optional
  | _, .sequence _ | _, .mapping _ | _, .generic _ _ _ | _, .group _ => .closed
  | _, .atom t => t.last
  | _, .name _ => .name
  | _, .literals _ _ => .literal

/-- The stage at the end of further phrases behind one that ended with `before`. -/
def Tail.last : {m : Mark} → {p : Phrase} → Tail m p → (before : Stage) → Stage
  | _, _, .nil, before => before
  | _, _, .cons t ts, _ => ts.last t.last
end

mutual
theorem Tree.complete_last : {p : Phrase} → (t : Tree p) → t.last.complete = true
  | _, .operation _ first more => more.complete_last first.complete_last
  | _, .plain t => t.complete_last
  | _, .atom t => t.complete_last
  | _, .optional _ | _, .sequence _ | _, .mapping _ | _, .generic _ _ _ | _, .group _
  | _, .name _ | _, .literals _ _ => rfl

theorem Tail.complete_last : {m : Mark} → {p : Phrase} → (ts : Tail m p) → {before : Stage} →
    before.complete = true → (ts.last before).complete = true
  | _, _, .nil, _, h => h
  | _, _, .cons t ts, _, _ => ts.complete_last t.complete_last
end

/-- A question mark may stand behind every container. -/
theorem Tree.next?_question (t : Tree .container) :
    t.last.next? (.mark .question) = some (.optional, []) := by
  cases t with
  | sequence t => rfl
  | mapping t => rfl
  | atom t => cases t <;> rfl

/-- The literals of a set are followed from the first one on. -/
theorem follow_literalTail (contents : List String) (opened : List Opening) :
    follow ⟨.literal, opened⟩ (literalTail contents) = some ⟨.literal, opened⟩ := by
  induction contents with
  | nil => rfl
  | cons content contents ih => exact ih

/-- Between two marks, a complete phrase leads out of them. -/
theorem follow_enclosed {stage : Stage} (opening : Opening) {opened : List Opening}
    (hcomplete : stage.complete = true)
    (h : follow ⟨.start, opening :: opened⟩ ls = some ⟨stage, opening :: opened⟩) :
    follow ⟨.start, opening :: opened⟩ (ls ++ [.mark opening.closing]) =
      some ⟨.closed, opened⟩ := by
  rw [follow_behind h, follow_cons, advance?_closing opening opened hcomplete]
  rfl

mutual
/-- **Every tree is followed**, whatever is open around it, and nothing more is open at
its end. -/
theorem Tree.follow_yield : {p : Phrase} → (t : Tree p) → (opened : List Opening) →
    follow ⟨.start, opened⟩ t.yield = some ⟨t.last, opened⟩
  | _, .operation operator first more, opened => by
    rw [Tree.yield, follow_behind (first.follow_yield opened)]
    exact more.follow_yield first.complete_last (separates_operator operator opened)
  | _, .plain t, opened => t.follow_yield opened
  | _, .optional t, opened => by
    rw [Tree.yield, follow_behind (t.follow_yield opened), follow_cons,
      advance?_of_next? t.next?_question]
    rfl
  | _, .sequence t, opened => follow_enclosed .bracket t.complete_last (t.follow_yield _)
  | _, .mapping t, opened => follow_enclosed .angle t.complete_last (t.follow_yield _)
  | _, .atom t, opened => t.follow_yield opened
  | _, .name _, opened => rfl
  | _, .generic base first more, opened => by
    -- the name and the parenthesis behind it lead between the parentheses
    refine follow_enclosed .arguments (more.complete_last first.complete_last) ?_
    rw [follow_behind (first.follow_yield _)]
    exact more.follow_yield first.complete_last (separates_comma opened)
  | _, .literals _ more, opened => follow_literalTail more opened
  | _, .group t, opened => follow_enclosed .group t.complete_last (t.follow_yield _)

theorem Tail.follow_yield : {m : Mark} → {p : Phrase} → (ts : Tail m p) → {before : Stage} →
    {opened : List Opening} → before.complete = true → Separates m opened →
    follow ⟨before, opened⟩ ts.yield = some ⟨ts.last before, opened⟩
  | _, _, .nil, _, _, _, _ => rfl
  | _, _, .cons t ts, before, opened, hbefore, hm => by
    -- the mark starts the next phrase, with the same open around it
    rw [Tail.yield, List.cons_append, follow_cons, hm before hbefore, Option.bind_some,
      follow_behind (t.follow_yield opened)]
    exact ts.follow_yield t.complete_last hm
end

/-! ## Where no tree goes on -/

variable {s : Standing}

/-- The lexeme, or the end of the text, cannot come next. -/
def Standing.Refuses (s : Standing) : Option Lexeme → Prop
  | some l => s.advance? l = none
  | none => ¬ s.Final

/-- **Lexemes with no way on begin no expression.** -/
theorem not_prefix_yield (hfollow : initial.follow ls = some s) (h : s.Refuses (some l))
    (t : Tree .expression) : ¬ ls ++ [l] <+: t.yield := by
  rintro ⟨rest, hrest⟩
  have hstuck : s.advance? l = none := h
  have hwhole := t.follow_yield []
  -- such a tree would be followed past the lexeme
  rw [← hrest, List.append_assoc, List.singleton_append] at hwhole
  have hnone : initial.follow (ls ++ l :: rest) = none := by
    rw [follow_behind hfollow, follow_cons, hstuck, Option.bind_none]
  rw [initial, hwhole] at hnone
  cases hnone

/-- Lexemes that lead to no final standing are no expression. -/
theorem yield_ne (hfollow : initial.follow ls = some s) (h : s.Refuses none)
    (t : Tree .expression) : t.yield ≠ ls := by
  rintro rfl
  have hwhole := t.follow_yield []
  rw [← initial, hfollow] at hwhole
  cases hwhole
  exact h ⟨t.complete_last, rfl⟩

end WidgetSchema.Grammar
