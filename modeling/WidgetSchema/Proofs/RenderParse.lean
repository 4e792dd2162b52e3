/-
Writing and reading are inverse.

What is read is well-formed: it has names where names belong, quoted texts that can
be quoted, and as many members as its operators need. A derivation tree means a
well-formed expression exactly if its lexemes can be written
(`wellFormed_meaning`), and the tokens of a text can.

A well-formed expression is written by a tree that means it. By induction on the
expression, each kind is written by the phrase that the grammar has for it, without
parentheses around it; where it stands inside another expression, either that phrase
is one the grammar reads there, or the writer puts parentheses around it
(`Written.placed`). The lexemes of every tree are read back from their text, because
behind a phrase stands a mark or nothing.
-/
import WidgetSchema.Expr.Rendering
import WidgetSchema.Proofs.LexemeTexts
import WidgetSchema.Proofs.ParserGrammar

set_option autoImplicit false

namespace WidgetSchema

open Grammar

namespace TypeExpr

/-! ## Well-formed expressions -/

mutual
/-- The expression can be written: names are qualified and no scalar kinds, texts
hold no quote, and sets, operators and applications have enough members. -/
def WellFormed : TypeExpr → Prop
  | primitive name => isPrimitiveName name = true
  | reference name => Name.isQualified name = true ∧ isPrimitiveName name = false
  | literal text => '"' ∉ text.toList
  | enumSet values => 2 ≤ values.toList.length ∧ ∀ text ∈ values, '"' ∉ text.toList
  | union members | intersection members => 2 ≤ members.length ∧ WellFormedEach members
  | optional inner | sequence inner | mapping inner => WellFormed inner
  | generic base args =>
    (Name.isQualified base = true ∧ isPrimitiveName base = false) ∧
      1 ≤ args.length ∧ WellFormedEach args

/-- Every expression of the list is well-formed. -/
def WellFormedEach : List TypeExpr → Prop
  | [] => True
  | e :: es => WellFormed e ∧ WellFormedEach es
end

theorem wellFormedEach_iff {es : List TypeExpr} : WellFormedEach es ↔ ∀ e ∈ es, e.WellFormed := by
  induction es with
  | nil => simp [WellFormedEach]
  | cons e es ih => rw [WellFormedEach, ih, List.forall_mem_cons]

end TypeExpr

namespace LiteralSet

/-- A literal that is not in a sorted list makes it one longer. -/
theorem length_place {s : String} {ts : List String} (h : s ∉ ts) :
    (place s ts).length = ts.length + 1 := by
  induction ts with
  | nil => rfl
  | cons t ts ih =>
    rw [List.mem_cons, not_or] at h
    rw [place, if_neg h.1]
    split
    · rfl
    · rw [List.length_cons, List.length_cons, ih h.2]

/-- Sorting literals that are all different loses none. -/
theorem length_sort {ts : List String} (h : ts.Nodup) : (sort ts).length = ts.length := by
  induction ts with
  | nil => rfl
  | cons t ts ih =>
    obtain ⟨ht, hts⟩ := List.nodup_cons.1 h
    have hsort : t ∉ sort ts := fun hmem => ht (mem_sort.1 hmem)
    rw [sort, length_place hsort, ih hts, List.length_cons]

/-- A set lists no literal twice. -/
theorem nodup_toList (values : LiteralSet) : values.toList.Nodup := by
  unfold List.Nodup
  refine values.ascending.imp ?_
  rintro text _ hlt rfl
  exact String.lt_irrefl text hlt

/-- A set is the set of its literals, in any order and so also in its own. This is what lets a set
be read back from its text. -/
theorem ofList_toList (values : LiteralSet) : ofList values.toList = values :=
  ext_mem fun _ => mem_ofList

end LiteralSet

namespace Grammar

variable {m : Mark} {p q : Phrase} {ls : List Lexeme} {e : TypeExpr}

/-- The names of primitive types could be names of definitions. -/
theorem isQualified_of_isPrimitiveName {name : String} (h : isPrimitiveName name = true) :
    Name.isQualified name = true := by
  have hnames : ∀ n ∈ primitiveNames, Name.isQualified n = true := by decide
  exact hnames name (List.contains_iff_mem.1 h)

/-- An operation is well-formed if all its operands are; with one operand it is that operand. -/
theorem wellFormed_operate (operator : Operator) (first : TypeExpr) (rest : List TypeExpr) :
    (operate operator first rest).WellFormed ↔
      first.WellFormed ∧ TypeExpr.WellFormedEach rest := by
  cases rest with
  | nil => simp [operate, TypeExpr.WellFormedEach]
  | cons e rest =>
    cases operator <;> simp [operate, TypeExpr.WellFormed, TypeExpr.WellFormedEach]

/-- A literal can be written if it has no quotation mark in it. -/
theorem proper_literalTail (contents : List String) :
    (∀ l ∈ literalTail contents, l.IsProper) ↔ ∀ content ∈ contents, '"' ∉ content.toList := by
  induction contents with
  | nil => simp [literalTail]
  | cons content contents ih =>
    have htail : literalTail (content :: contents) =
        .joiner :: .quoted content :: literalTail contents := rfl
    rw [htail, List.forall_mem_cons, List.forall_mem_cons, List.forall_mem_cons, ih]
    simp [Lexeme.IsProper]

/-- Brackets can always be written. -/
theorem proper_enclosed (opening closing : Mark) (ls : List Lexeme) :
    (∀ l ∈ .mark opening :: ls ++ [.mark closing], l.IsProper) ↔ ∀ l ∈ ls, l.IsProper := by
  simp [Lexeme.IsProper, or_imp, forall_and]

mutual
/-- **A tree means a well-formed expression exactly if its lexemes can be
written.** -/
theorem wellFormed_meaning : {p : Phrase} → (t : Tree p) → t.Admissible →
    (t.meaning.WellFormed ↔ ∀ l ∈ t.yield, l.IsProper)
  | _, .operation operator first more, h => by
    rw [Tree.meaning, Tree.yield, wellFormed_operate, List.forall_mem_append,
      wellFormed_meaning first h.1, wellFormed_meanings more h.2.1]
  | _, .plain t, h => wellFormed_meaning t h
  | _, .optional t, h => by
    rw [Tree.meaning, Tree.yield, TypeExpr.WellFormed, List.forall_mem_append,
      wellFormed_meaning t h]
    simp [Lexeme.IsProper]
  | _, .sequence t, h => by
    rw [Tree.meaning, Tree.yield, TypeExpr.WellFormed, proper_enclosed]
    exact wellFormed_meaning t h
  | _, .mapping t, h => by
    rw [Tree.meaning, Tree.yield, TypeExpr.WellFormed, proper_enclosed]
    exact wellFormed_meaning t h
  | _, .atom t, h => wellFormed_meaning t h
  | _, .name text, _ => by
    rw [Tree.meaning, Tree.yield, List.forall_mem_singleton]
    cases hprimitive : isPrimitiveName text with
    | true =>
      simp [TypeExpr.WellFormed, Lexeme.IsProper, hprimitive,
        isQualified_of_isPrimitiveName hprimitive]
    | false => simp [TypeExpr.WellFormed, Lexeme.IsProper, hprimitive]
  | _, .generic base first more, h => by
    rw [Tree.meaning, Tree.yield, TypeExpr.WellFormed, TypeExpr.WellFormedEach,
      List.cons_append, List.forall_mem_cons, proper_enclosed, List.forall_mem_append,
      wellFormed_meaning first h.2.1, wellFormed_meanings more h.2.2]
    simp [Lexeme.IsProper, h.1]
  | _, .literals first [], _ => by
    simp [Tree.meaning, Tree.yield, TypeExpr.WellFormed, literalTail, Lexeme.IsProper]
  | _, .literals first (second :: more), h => by
    have hnodup : (first :: second :: more).Nodup := h
    -- the literals are different, so the set is no shorter than the list
    have hlength : 2 ≤ (LiteralSet.ofList (first :: second :: more)).toList.length := by
      show 2 ≤ (LiteralSet.sort (first :: second :: more)).length
      rw [LiteralSet.length_sort hnodup, List.length_cons, List.length_cons]
      omega
    have hquotes : (∀ l ∈ Tree.yield (.literals first (second :: more)), l.IsProper) ↔
        ∀ text ∈ first :: second :: more, '"' ∉ text.toList := by
      rw [Tree.yield, List.forall_mem_cons, proper_literalTail]
      simp only [Lexeme.IsProper, List.forall_mem_cons]
    rw [hquotes, Tree.meaning, TypeExpr.WellFormed]
    · simp only [hlength, true_and, LiteralSet.mem_ofList]
    · simp
  | _, .group t, h => by
    rw [Tree.meaning, Tree.yield, proper_enclosed]
    exact wellFormed_meaning t h

/-- The same of further trees, each behind its mark. -/
theorem wellFormed_meanings : {m : Mark} → {p : Phrase} → (more : Tail m p) → more.Admissible →
    (TypeExpr.WellFormedEach more.meanings ↔ ∀ l ∈ more.yield, l.IsProper)
  | _, _, .nil, _ => by simp [Tail.meanings, Tail.yield, TypeExpr.WellFormedEach]
  | _, _, .cons t more, h => by
    rw [Tail.meanings, Tail.yield, TypeExpr.WellFormedEach, List.cons_append,
      List.forall_mem_cons, List.forall_mem_append, wellFormed_meaning t h.1,
      wellFormed_meanings more h.2]
    simp [Lexeme.IsProper]
end

/-! ## The lexemes of a tree stand apart -/

section

open Lexeme

/-- A mark ends whatever lexeme stands before it. -/
theorem markFollows_mark (m : Mark) (next : List Lexeme) : MarkFollows (.mark m :: next) := by
  rintro l ⟨⟩
  exact ⟨m, rfl⟩

/-- Literals with joiners between them stand apart, whatever follows. -/
theorem separable_literalTail {next : List Lexeme} (hnext : Separable next)
    (contents : List String) : Separable (literalTail contents ++ next) := by
  induction contents with
  | nil => exact hnext
  | cons content contents ih => exact ⟨⟨content, rfl⟩, trivial, ih⟩

mutual
/-- **Behind a phrase a mark follows, or nothing**, so all its lexemes are read as
themselves. -/
theorem separable_yield : {p : Phrase} → (t : Tree p) → {next : List Lexeme} →
    MarkFollows next → Separable next → Separable (t.yield ++ next)
  | _, .operation _ first more, next, hmark, hnext => by
    obtain ⟨hmark', hmore⟩ := separable_tail more hmark hnext
    rw [Tree.yield, List.append_assoc]
    exact separable_yield first hmark' hmore
  | _, .plain t, _, hmark, hnext => separable_yield t hmark hnext
  | _, .optional t, next, _, hnext => by
    rw [Tree.yield, List.append_assoc]
    exact separable_yield t (markFollows_mark _ next) ⟨trivial, hnext⟩
  | _, .sequence t, next, _, hnext => by
    rw [Tree.yield, List.append_assoc]
    exact ⟨trivial, separable_yield t (markFollows_mark _ next) ⟨trivial, hnext⟩⟩
  | _, .mapping t, next, _, hnext => by
    rw [Tree.yield, List.append_assoc]
    exact ⟨trivial, separable_yield t (markFollows_mark _ next) ⟨trivial, hnext⟩⟩
  | _, .atom t, _, hmark, hnext => separable_yield t hmark hnext
  | _, .name _, _, hmark, hnext => ⟨hmark, hnext⟩
  | _, .generic _ first more, next, _, hnext => by
    obtain ⟨hmark', hmore⟩ :=
      separable_tail more (markFollows_mark .closeParen next) ⟨trivial, hnext⟩
    rw [Tree.yield, List.append_assoc]
    simp only [List.cons_append, List.append_assoc]
    exact ⟨markFollows_mark _ _, trivial, separable_yield first hmark' hmore⟩
  | _, .literals _ more, _, _, hnext => ⟨trivial, separable_literalTail hnext more⟩
  | _, .group t, next, _, hnext => by
    rw [Tree.yield, List.append_assoc]
    exact ⟨trivial, separable_yield t (markFollows_mark _ next) ⟨trivial, hnext⟩⟩

/-- Each further tree begins behind a mark, which is what the induction needs to know of the lexemes
that follow. -/
theorem separable_tail : {m : Mark} → {p : Phrase} → (more : Tail m p) → {next : List Lexeme} →
    MarkFollows next → Separable next →
    MarkFollows (more.yield ++ next) ∧ Separable (more.yield ++ next)
  | _, _, .nil, _, hmark, hnext => ⟨hmark, hnext⟩
  | m, _, .cons t more, next, hmark, hnext => by
    obtain ⟨hmark', hmore⟩ := separable_tail more hmark hnext
    rw [Tail.yield, List.append_assoc]
    exact ⟨markFollows_mark m _, trivial, separable_yield t hmark' hmore⟩
end

end

/-! ## Every well-formed expression is written by a tree -/

/-- An admissible tree for the phrase has these lexemes and means the expression;
it is, or is not, a set of literals. -/
def Written (p : Phrase) (ls : List Lexeme) (e : TypeExpr) (set : Bool) : Prop :=
  ∃ t : Tree p, t.yield = ls ∧ t.Admissible ∧ t.meaning = e ∧ t.isSet = set

/-- An atom is a container of its own; the next three lemmas go on from there, up to an
expression. -/
theorem Written.container {set : Bool} (h : Written .atom ls e set) :
    Written .container ls e set := by
  obtain ⟨t, hyield, hadm, hmeaning, hset⟩ := h
  exact ⟨.atom t, hyield, hadm, hmeaning, hset⟩

/-- A container without a question mark. -/
theorem Written.modifier {set : Bool} (h : Written .container ls e set) :
    Written .modifier ls e set := by
  obtain ⟨t, hyield, hadm, hmeaning, hset⟩ := h
  exact ⟨.plain t, hyield, hadm, hmeaning, hset⟩

/-- One operand without an operator. -/
theorem Written.operation {set : Bool} (operator : Operator)
    (h : Written (operand operator) ls e set) : Written (.operation operator) ls e set := by
  obtain ⟨t, hyield, hadm, hmeaning, hset⟩ := h
  refine ⟨.operation operator t .nil, ?_, ⟨hadm, trivial, .inl rfl⟩, hmeaning, hset⟩
  rw [Tree.yield, Tail.yield, List.append_nil, hyield]

/-- In parentheses an expression is an atom again, and a set of literals in it is not bare. -/
theorem Written.group {set : Bool} (h : Written .expression ls e set) :
    Written .atom (.mark .openParen :: ls ++ [.mark .closeParen]) e false := by
  obtain ⟨t, rfl, hadm, hmeaning, -⟩ := h
  exact ⟨.group t, rfl, hadm, hmeaning, rfl⟩

/-- The phrase that is written as a phrase alone. -/
def above : Phrase → Phrase
  | .atom => .container
  | .container => .modifier
  | .modifier => .operation .intersection
  | .operation _ => .operation .union

/-- How many phrases stand between a phrase and an atom. -/
def height : Phrase → Nat
  | .atom => 0
  | .container => 1
  | .modifier => 2
  | .operation .intersection => 3
  | .operation .union => 4

/-- There are five phrases. -/
theorem height_le (p : Phrase) : height p ≤ 4 := by
  rcases p with (_ | _) | _ | _ | _ <;> decide

/-- The phrase above is one higher, up to the expression. -/
theorem height_above (hp : height p < 4) : height (above p) = height p + 1 := by
  cases p with
  | operation operator =>
    cases operator with
    | union => simp [height] at hp
    | intersection => rfl
  | _ => rfl

/-- A phrase is known from its height. -/
theorem height_inj (h : height p = height q) : p = q := by
  rcases p with (_ | _) | _ | _ | _ <;> rcases q with (_ | _) | _ | _ | _ <;>
    first | rfl | (simp [height] at h)

/-- What is written as a phrase is written as the phrase above it, by the lemma for that step. -/
theorem Written.above {set : Bool} (h : Written p ls e set) : Written (above p) ls e set := by
  cases p with
  | operation operator =>
    cases operator with
    | union => exact h
    | intersection => exact h.operation .union
  | modifier => exact h.operation .intersection
  | container => exact h.modifier
  | atom => exact h.container

/-- What is written by a phrase is written by every higher one. -/
theorem Written.lift {set : Bool} (h : Written p ls e set) (hpq : height p ≤ height q) :
    Written q ls e set := by
  obtain ⟨steps, hsteps⟩ := Nat.exists_eq_add_of_le hpq
  induction steps generalizing p with
  | zero =>
    rw [← height_inj hsteps.symm]
    exact h
  | succ steps ih =>
    have hle := height_le q
    have hstep : height (Grammar.above p) = height p + 1 := height_above (by omega)
    exact ih h.above (by omega) (by omega)

/-! ### Places -/

/-- The phrase that the grammar reads at a place. -/
def phraseAt : Place → Phrase
  | .free => .expression
  | .operand operator => operand operator
  | .beforeQuestion => .container

/-- The phrase that an expression is written by where it needs no parentheses. -/
def phraseOf : TypeExpr → Phrase
  | .union _ => .operation .union
  | .intersection _ => .operation .intersection
  | .optional _ => .modifier
  | .sequence _ | .mapping _ => .container
  | _ => .atom

/-- The expression is a set of literals. -/
def isEnumSet : TypeExpr → Bool
  | .enumSet _ => true
  | _ => false

/-- Without parentheses stands what the grammar reads at the place, and beside an
operator no set of literals. -/
theorem height_phraseOf {place : Place} (h : TypeExpr.needsParens place e = false) :
    height (phraseOf e) ≤ height (phraseAt place) ∧ (place ≠ .free → isEnumSet e = false) := by
  cases place with
  | free => exact ⟨height_le _, fun hplace => absurd rfl hplace⟩
  | operand operator =>
    cases operator <;> cases e <;>
      simp_all [TypeExpr.needsParens, phraseOf, phraseAt, operand, height, isEnumSet]
  | beforeQuestion =>
    cases e <;> simp_all [TypeExpr.needsParens, phraseOf, phraseAt, height, isEnumSet]

/-- The lexemes of an expression at a place, in parentheses if it needs them. -/
def lexemesAt (place : Place) (e : TypeExpr) : List Lexeme :=
  TypeExpr.parenthesized (TypeExpr.needsParens place e) e.lexemes

/-- At a place the expression is written by the phrase, and beside an operator by no set. -/
def WrittenAt (place : Place) (p : Phrase) (e : TypeExpr) : Prop :=
  ∃ set, Written p (lexemesAt place e) e set ∧ (place ≠ .free → set = false)

/-- **At every place** an expression is written by the phrase that the grammar reads there. -/
theorem Written.placed (h : Written (phraseOf e) e.lexemes e (isEnumSet e)) (place : Place) :
    WrittenAt place (phraseAt place) e := by
  unfold WrittenAt lexemesAt
  cases hneeds : TypeExpr.needsParens place e with
  | true =>
    have hwhole : Written .expression e.lexemes e (isEnumSet e) := h.lift (height_le _)
    exact ⟨false, hwhole.group.lift (Nat.zero_le _), fun _ => rfl⟩
  | false =>
    obtain ⟨hheight, hset⟩ := height_phraseOf hneeds
    exact ⟨isEnumSet e, h.lift hheight, hset⟩

/-- Further members of a list are written behind a mark each. -/
theorem exists_tail (m : Mark) {place : Place} {es : List TypeExpr}
    (h : ∀ e ∈ es, WrittenAt place p e) :
    ∃ more : Tail m p, more.yield = (es.map (lexemesAt place)).flatMap (.mark m :: ·) ∧
      more.Admissible ∧ more.meanings = es ∧ (place ≠ .free → more.anySet = false) := by
  induction es with
  | nil => exact ⟨.nil, rfl, trivial, rfl, fun _ => rfl⟩
  | cons e es ih =>
    rw [List.forall_mem_cons] at h
    obtain ⟨set, ⟨t, hyield, hadm, hmeaning, hset⟩, hfree⟩ := h.1
    obtain ⟨more, hmore, hmoreadm, hmeanings, hany⟩ := ih h.2
    refine ⟨.cons t more, ?_, ⟨hadm, hmoreadm⟩, ?_, ?_⟩
    · rw [Tail.yield, hyield, hmore]
      rfl
    · rw [Tail.meanings, hmeaning, hmeanings]
    · intro hplace
      rw [Tail.anySet, hset, hfree hplace, hany hplace]
      rfl

/-- A list with separators is its first item and the others behind separators, which is the shape
of a tail. -/
theorem joinWith_cons (separator : Lexeme) (g : List Lexeme) (gs : List (List Lexeme)) :
    TypeExpr.joinWith separator (g :: gs) = g ++ gs.flatMap (separator :: ·) := by
  induction gs generalizing g with
  | nil => simp [TypeExpr.joinWith]
  | cons h gs ih => rw [TypeExpr.joinWith, ih, List.flatMap_cons, List.cons_append]

/-- The same of the operands of an expression, each at its place. -/
theorem joinWith_lexemesEach (separator : Lexeme) (place : Place) (e : TypeExpr)
    (es : List TypeExpr) : TypeExpr.joinWith separator (TypeExpr.lexemesEach place (e :: es)) =
      lexemesAt place e ++ (es.map (lexemesAt place)).flatMap (separator :: ·) := by
  rw [TypeExpr.lexemesEach_eq, List.map_cons, joinWith_cons]
  rfl

/-- The same of literals. -/
theorem joinWith_quoted (first : String) (more : List String) :
    TypeExpr.joinWith .joiner ((first :: more).map fun text => [.quoted text]) =
      .quoted first :: literalTail more := by
  rw [List.map_cons, joinWith_cons, List.flatMap_map]
  rfl

/-- Two or more members are written by an operation. -/
theorem written_operation (operator : Operator) {first second : TypeExpr} {rest : List TypeExpr}
    (h : ∀ e ∈ first :: second :: rest, WrittenAt (.operand operator) (operand operator) e) :
    Written (.operation operator)
      (TypeExpr.joinWith (.mark operator.mark)
        (TypeExpr.lexemesEach (.operand operator) (first :: second :: rest)))
      (operate operator first (second :: rest)) false := by
  have hplace : Place.operand operator ≠ .free := by simp
  rw [List.forall_mem_cons] at h
  obtain ⟨set, ⟨t, hyield, hadm, hmeaning, hset⟩, hfree⟩ := h.1
  obtain ⟨more, hmore, hmoreadm, hmeanings, hany⟩ := exists_tail operator.mark h.2
  -- an operand is no bare set, as it would stand in parentheses
  have happart : t.isSet = false ∧ more.anySet = false :=
    ⟨by rw [hset, hfree hplace], hany hplace⟩
  refine ⟨.operation operator t more, ?_, ⟨hadm, hmoreadm, .inr happart⟩, ?_, ?_⟩
  · rw [Tree.yield, hyield, hmore, joinWith_lexemesEach]
  · rw [Tree.meaning, hmeaning, hmeanings]
  · cases more with
    | nil => cases hmeanings
    | cons t' more => rfl

/-- So is an application to one or more arguments. -/
theorem written_generic {base : String} (hbase : isPrimitiveName base = false) {first : TypeExpr}
    {rest : List TypeExpr} (h : ∀ e ∈ first :: rest, WrittenAt .free .expression e) :
    Written .atom (TypeExpr.generic base (first :: rest)).lexemes (.generic base (first :: rest))
      false := by
  rw [List.forall_mem_cons] at h
  obtain ⟨set, ⟨t, hyield, hadm, hmeaning, -⟩, -⟩ := h.1
  obtain ⟨more, hmore, hmoreadm, hmeanings, -⟩ := exists_tail .comma h.2
  refine ⟨.generic base t more, ?_, ⟨hbase, hadm, hmoreadm⟩, ?_, rfl⟩
  · rw [Tree.yield, hyield, hmore, TypeExpr.lexemes, joinWith_lexemesEach]
  · rw [Tree.meaning, hmeaning, hmeanings]

/-- A name by itself is an atom; whether it is a primitive type shows in its meaning only. -/
theorem written_name (text : String) :
    Written .atom [.name text]
      (if isPrimitiveName text then .primitive text else .reference text) false :=
  ⟨.name text, rfl, trivial, rfl, rfl⟩

/-- A set of two literals or more is an atom, and it is bare. -/
theorem written_enumSet {values : LiteralSet} (h : 2 ≤ values.toList.length) :
    Written .atom (TypeExpr.enumSet values).lexemes (.enumSet values) true := by
  have hnodup := values.nodup_toList
  have hvalues := values.ofList_toList
  match htexts : values.toList with
  | [] => simp [htexts] at h
  | [_] => simp [htexts] at h
  | first :: second :: more =>
    rw [htexts] at hnodup hvalues
    refine ⟨.literals first (second :: more), ?_, hnodup, ?_, rfl⟩
    · rw [TypeExpr.lexemes, htexts, joinWith_quoted, Tree.yield]
    · exact congrArg TypeExpr.enumSet hvalues

/-- Rendering puts parentheses around what may not stand before a question mark, so a container
stands there. -/
theorem written_optional (h : WrittenAt .beforeQuestion .container e) :
    Written .modifier (TypeExpr.optional e).lexemes (.optional e) false := by
  obtain ⟨set, ⟨t, hyield, hadm, hmeaning, hset⟩, hfree⟩ := h
  refine ⟨.optional t, ?_, hadm, ?_, ?_⟩
  · rw [Tree.yield, hyield, TypeExpr.lexemes, lexemesAt]
  · rw [Tree.meaning, hmeaning]
  · rw [Tree.isSet, hset, hfree (by simp)]

/-- Any expression may stand between the brackets. -/
theorem written_sequence {set : Bool} (h : Written .expression e.lexemes e set) :
    Written .container (TypeExpr.sequence e).lexemes (.sequence e) false := by
  obtain ⟨t, hyield, hadm, hmeaning, -⟩ := h
  refine ⟨.sequence t, ?_, hadm, ?_, rfl⟩
  · rw [Tree.yield, hyield, TypeExpr.lexemes]
  · rw [Tree.meaning, hmeaning]

/-- Angle brackets likewise. -/
theorem written_mapping {set : Bool} (h : Written .expression e.lexemes e set) :
    Written .container (TypeExpr.mapping e).lexemes (.mapping e) false := by
  obtain ⟨t, hyield, hadm, hmeaning, -⟩ := h
  refine ⟨.mapping t, ?_, hadm, ?_, rfl⟩
  · rw [Tree.yield, hyield, TypeExpr.lexemes]
  · rw [Tree.meaning, hmeaning]

mutual
/-- **Every well-formed expression is written by the phrase of its kind.** -/
theorem written : (e : TypeExpr) → e.WellFormed →
    Written (phraseOf e) e.lexemes e (isEnumSet e)
  | .primitive name, h => by
    have hprimitive : isPrimitiveName name = true := h
    have hname := written_name name
    rw [if_pos hprimitive] at hname
    exact hname
  | .reference name, h => by
    have hprimitive : ¬ isPrimitiveName name = true := Bool.eq_false_iff.1 h.2
    have hname := written_name name
    rw [if_neg hprimitive] at hname
    exact hname
  | .literal text, _ => ⟨.literals text [], rfl, List.nodup_cons.2 (by simp), rfl, rfl⟩
  | .enumSet _, h => written_enumSet h.1
  | .union (_ :: _ :: _), h =>
    written_operation .union fun e he => (writtenEach _ h.2 e he).placed (.operand .union)
  | .intersection (_ :: _ :: _), h =>
    written_operation .intersection fun e he =>
      (writtenEach _ h.2 e he).placed (.operand .intersection)
  | .union [], h | .union [_], h | .intersection [], h | .intersection [_], h => by
    have hlength := h.1
    simp at hlength
  | .optional inner, h => written_optional ((written inner h).placed .beforeQuestion)
  | .sequence inner, h => written_sequence ((written inner h).lift (height_le _))
  | .mapping inner, h => written_mapping ((written inner h).lift (height_le _))
  | .generic base (_ :: _), h =>
    written_generic h.1.2 fun e he => (writtenEach _ h.2.2 e he).placed .free
  | .generic base [], h => by
    have hlength := h.2.1
    simp at hlength

/-- The same of all members, as the induction goes over lists of types too. -/
theorem writtenEach : (es : List TypeExpr) → TypeExpr.WellFormedEach es →
    ∀ e ∈ es, Written (phraseOf e) e.lexemes e (isEnumSet e)
  | [], _ => by simp
  | e :: es, h => List.forall_mem_cons.2 ⟨written e h.1, writtenEach es h.2⟩
end

end Grammar

namespace TypeExpr

/-- The lexemes of a well-formed expression derive it. -/
theorem derives_lexemes {e : TypeExpr} (h : e.WellFormed) : Derives e.lexemes e := by
  have hwhole : Written .expression e.lexemes e _ := (written e h).lift (height_le _)
  obtain ⟨t, hyield, hadm, hmeaning, -⟩ := hwhole
  exact ⟨t, hyield, hadm, hmeaning⟩

/-- **Only well-formed expressions are read.** -/
theorem wellFormed_of_parse {raw : String} {e : TypeExpr} (h : TypeExpr.parse raw = .ok e) :
    e.WellFormed := by
  obtain ⟨ts, hts, t, hyield, hadm, rfl⟩ := parse_eq_ok.1 h
  rw [wellFormed_meaning t hadm, hyield]
  exact tokenize_proper hts

/-- The lexemes of a well-formed expression can be written. -/
theorem proper_lexemes {e : TypeExpr} (h : e.WellFormed) : ∀ l ∈ e.lexemes, l.IsProper := by
  obtain ⟨t, hyield, hadm, hmeaning⟩ := derives_lexemes h
  rw [← hyield, ← wellFormed_meaning t hadm, hmeaning]
  exact h

/-- **What is written is read back.** -/
theorem parse_render {e : TypeExpr} (h : e.WellFormed) : TypeExpr.parse e.render = .ok e := by
  obtain ⟨t, hyield, hadm, hmeaning⟩ := derives_lexemes h
  have hseparable : Lexeme.Separable e.lexemes := by
    have hend : Lexeme.Separable (t.yield ++ []) :=
      separable_yield t (by rintro l ⟨⟩) trivial
    rwa [List.append_nil, hyield] at hend
  obtain ⟨ts, hts, hlexemes⟩ := tokenize_spelled (proper_lexemes h) hseparable
  refine parse_eq_ok.2 ⟨ts, hts, ?_⟩
  rw [hlexemes]
  exact ⟨t, hyield, hadm, hmeaning⟩

/-- **Writing and reading are inverse** between the texts that can be read and the
well-formed expressions. -/
theorem parse_render_inverse :
    (∀ raw e, TypeExpr.parse raw = .ok e → e.WellFormed) ∧
      (∀ e : TypeExpr, e.WellFormed → TypeExpr.parse e.render = .ok e) ∧
      (∀ e e' : TypeExpr, e.WellFormed → e'.WellFormed → e.render = e'.render → e = e') ∧
      ∀ raw e, TypeExpr.parse raw = .ok e → TypeExpr.parse e.render = TypeExpr.parse raw := by
  refine ⟨fun raw e => wellFormed_of_parse, fun e => parse_render, ?_, ?_⟩
  · intro e e' h h' hrender
    have hread := parse_render h
    rw [hrender, parse_render h'] at hread
    cases hread
    rfl
  · intro raw e h
    rw [parse_render (wellFormed_of_parse h), h]

/-- A set before a question mark and beside a bar keeps its parentheses, and loses
the blanks and the order it was written in. -/
theorem grouped_set_read_back :
    ∃ e : TypeExpr, TypeExpr.parse "( \"b\" _ \"a\" )? | Maybe([W])" = .ok e ∧ e.WellFormed ∧
      e.render = "(\"a\"_\"b\")?|Maybe([W])" ∧ TypeExpr.parse e.render = .ok e ∧
      ∀ e' : TypeExpr, e'.WellFormed → e'.render = e.render → e' = e := by
  have hparse : TypeExpr.parse "( \"b\" _ \"a\" )? | Maybe([W])" = .ok (.union
      [.optional (.enumSet (.ofList ["a", "b"])),
        .generic "Maybe" [.sequence (.reference "W")]]) := rfl
  have hwell := parse_render_inverse.1 _ _ hparse
  refine ⟨_, hparse, hwell, rfl, parse_render_inverse.2.1 _ hwell, ?_⟩
  intro e' hwell' hrender
  exact parse_render_inverse.2.2.1 e' _ hwell' hwell hrender

end TypeExpr

end WidgetSchema
