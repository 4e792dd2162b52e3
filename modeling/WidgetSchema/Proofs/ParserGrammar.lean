/-
The parser reads the grammar, and nothing else.

Every rule of the parser is compared with the derivation trees of its phrase. A
rule is sound if whatever it reads is derived by an admissible tree, and the rule
answers what the tree means. It is complete if it reads every admissible tree that
is followed by nothing that could continue the phrase: the rules take as many
tokens as they can, so what stands behind a phrase decides where it ends.

The rules of one layer inherit both properties from the reader of nested
expressions (`layer_sound`, `layer_complete`), and `expression` has them by
induction on the nesting. A tree in brackets is shorter than what stands around
it, so as many layers as there are tokens are enough.
-/
import WidgetSchema.Expr.Parser
import WidgetSchema.Proofs.Actions
import WidgetSchema.Proofs.Grammar

set_option autoImplicit false

namespace WidgetSchema

open Grammar

namespace Parsing

variable {m : Mark} {p q : Phrase} {k stop : Nat} {ls ls' : List Lexeme} {l : Lexeme}
  {ts mid rest : List Token} {nested item : Rule Part} {read : Part}

/-! ## Tokens and their lexemes -/

/-- The tokens start with these lexemes and go on with the rest. -/
def Spans : List Lexeme → List Token → List Token → Prop
  | [], ts, rest => ts = rest
  | l :: ls, ts, rest => ∃ offset mid, ts = ⟨l, offset⟩ :: mid ∧ Spans ls mid rest

/-- Lexemes in a row are read off in a row. -/
theorem spans_append : Spans (ls ++ ls') ts rest ↔ ∃ mid, Spans ls ts mid ∧ Spans ls' mid rest := by
  induction ls generalizing ts with
  | nil => simp [Spans]
  | cons l ls ih =>
    simp only [List.cons_append, Spans, ih]
    constructor
    · rintro ⟨offset, next, rfl, mid, hls, hls'⟩
      exact ⟨mid, ⟨offset, next, rfl, hls⟩, hls'⟩
    · rintro ⟨mid, ⟨offset, next, rfl, hls⟩, hls'⟩
      exact ⟨offset, next, rfl, mid, hls, hls'⟩

/-- Tokens that are used up altogether are the lexemes, each at some offset. -/
theorem spans_nil_right : Spans ls ts [] ↔ ts.map Token.lexeme = ls := by
  induction ls generalizing ts with
  | nil => simp [Spans]
  | cons l ls ih =>
    simp only [Spans, ih, List.map_eq_cons_iff]
    constructor
    · rintro ⟨offset, mid, rfl, hls⟩
      exact ⟨_, mid, rfl, rfl, hls⟩
    · rintro ⟨t, mid, rfl, rfl, hls⟩
      exact ⟨t.offset, mid, rfl, hls⟩

/-- Each lexeme takes one token. The rounds and depths of the parser are counted in tokens, so this
is what bounds them. -/
theorem Spans.length (h : Spans ls ts rest) : ls.length + rest.length = ts.length := by
  induction ls generalizing ts with
  | nil =>
    have heq : ts = rest := h
    simp [heq]
  | cons l ls ih =>
    obtain ⟨offset, mid, rfl, hls⟩ := h
    have hmid := ih hls
    simp only [List.length_cons]
    omega

/-- A mark is accepted where it is the next lexeme. -/
theorem accept?_eq_some : accept? m ts = some rest ↔ Spans [.mark m] ts rest := by
  cases ts with
  | nil => simp [accept?, Spans]
  | cons t ts =>
    obtain ⟨lexeme, offset⟩ := t
    by_cases h : lexeme = .mark m <;> simp [accept?, Spans, h]

/-- A mark is passed over where any other lexeme, or none, comes next. -/
theorem accept?_eq_none : accept? m ts = none ↔ nextLexeme? ts ≠ some (.mark m) := by
  cases ts with
  | nil => simp [accept?, nextLexeme?]
  | cons t ts => simp [accept?, nextLexeme?]

/-- A mark that is required is read where it stands, or else the rule fails. -/
theorem expect_eq_ok : expect stop m ts = .ok rest ↔ Spans [.mark m] ts rest := by
  rw [← accept?_eq_some]
  unfold expect
  cases accept? m ts with
  | none => simp [faultHere]
  | some mid => simp

/-! ## Trees and their parts -/

/-- What reading a tree gives. -/
def part (t : Tree p) : Part := { expr := t.meaning, bareSet := t.isSet }

/-- What reading further phrases gives. -/
def parts : {m : Mark} → {p : Phrase} → Tail m p → List Part
  | _, _, .nil => []
  | _, _, .cons t more => part t :: parts more

/-- The parts that follow a mark mean what the parser made of them. -/
theorem map_expr_parts : {m : Mark} → {p : Phrase} → (more : Tail m p) →
    (parts more).map Part.expr = more.meanings
  | _, _, .nil => rfl
  | _, _, .cons t more => congrArg (t.meaning :: ·) (map_expr_parts more)

/-- Whether one of them is a set of literals without brackets is known from their trees. -/
theorem any_bareSet_parts : {m : Mark} → {p : Phrase} → (more : Tail m p) →
    (parts more).any Part.bareSet = more.anySet
  | _, _, .nil => rfl
  | _, _, .cons t more => congrArg (t.isSet || ·) (any_bareSet_parts more)

/-- Operands are joined exactly if they may be. -/
theorem join_eq_ok (start : Nat) {operator : Operator} {first : Tree (operand operator)}
    {more : Tail operator.mark (operand operator)} {joined : Part} :
    join operator start (part first :: parts more) = .ok joined ↔
      (more = .nil ∨ first.isSet = false ∧ more.anySet = false) ∧
        part (Tree.operation operator first more) = joined := by
  cases more with
  | nil => simp [join, parts, part, Tree.meaning, Tail.meanings, operate, Tree.isSet]
  | cons t more =>
    have hseveral : join operator start (part first :: part t :: parts more) =
        if (part first :: part t :: parts more).any Part.bareSet then
          .error { fault := .ungroupedLiterals operator, offset := start }
        else .ok { expr := applyOperator operator
                     ((part first :: part t :: parts more).map Part.expr), bareSet := false } := rfl
    have hany : (part first :: part t :: parts more).any Part.bareSet =
        (first.isSet || (Tail.cons t more).anySet) := any_bareSet_parts (.cons first (.cons t more))
    have hmap : (part first :: part t :: parts more).map Part.expr =
        first.meaning :: (Tail.cons t more).meanings := map_expr_parts (.cons first (.cons t more))
    have hmeaning : part (Tree.operation operator first (Tail.cons t more)) =
        { expr := applyOperator operator (first.meaning :: (Tail.cons t more).meanings)
          bareSet := false } := by
      cases operator <;> rfl
    show join operator start (part first :: part t :: parts more) = _ ↔ _
    rw [hseveral, hany, hmap, hmeaning]
    cases first.isSet <;> cases (Tail.cons t more).anySet <;> simp

/-! ## Soundness -/

/-- Whatever the rule reads is derived by an admissible tree for the phrase. -/
def Sound (p : Phrase) (rule : Rule Part) : Prop :=
  ∀ ts read rest, rule ts = .ok (read, rest) →
    ∃ t : Tree p, Spans t.yield ts rest ∧ t.Admissible ∧ part t = read

/-- Items behind marks are read for as long as the mark comes next. The rounds bound the loop, and
soundness holds for any number of them. -/
theorem moreItems_sound (hitem : Sound p item) {rounds : Nat} {read : List Part}
    (h : moreItems item m rounds ts = .ok (read, rest)) :
    ∃ more : Tail m p, Spans more.yield ts rest ∧ more.Admissible ∧ parts more = read := by
  induction rounds generalizing ts read with
  | zero =>
    cases h
    exact ⟨.nil, rfl, trivial, rfl⟩
  | succ rounds ih =>
    rw [moreItems] at h
    cases hmark : accept? m ts with
    | none =>
      rw [hmark] at h
      cases h
      exact ⟨.nil, rfl, trivial, rfl⟩
    | some mid =>
      simp only [hmark, bind_eq_ok] at h
      obtain ⟨⟨first, next⟩, hfirst, ⟨others, next'⟩, hothers, h⟩ := h
      cases h
      obtain ⟨t, ht, htadm, rfl⟩ := hitem _ _ _ hfirst
      obtain ⟨more, hmore, hmoreadm, rfl⟩ := ih hothers
      obtain ⟨offset, mid, rfl, rfl⟩ := accept?_eq_some.1 hmark
      refine ⟨.cons t more, ?_, ⟨htadm, hmoreadm⟩, rfl⟩
      exact ⟨offset, mid, rfl, spans_append.2 ⟨next, ht, hmore⟩⟩

/-- A first item and the ones behind marks give the first tree and its tail. -/
theorem separated_sound (hitem : Sound p item) {read : List Part}
    (h : separated item m ts = .ok (read, rest)) :
    ∃ (first : Tree p) (more : Tail m p), Spans (first.yield ++ more.yield) ts rest ∧
      first.Admissible ∧ more.Admissible ∧ part first :: parts more = read := by
  simp only [separated, bind_eq_ok] at h
  obtain ⟨⟨head, mid⟩, hhead, ⟨others, next⟩, hothers, h⟩ := h
  cases h
  obtain ⟨first, hfirst, hadm, rfl⟩ := hitem _ _ _ hhead
  obtain ⟨more, hmore, hmoreadm, rfl⟩ := moreItems_sound hitem hothers
  exact ⟨first, more, spans_append.2 ⟨mid, hfirst, hmore⟩, hadm, hmoreadm, rfl⟩

/-- Operands between operators are an operation, or the one operand by itself. -/
theorem operation_sound {operator : Operator} (hitem : Sound (operand operator) item) :
    Sound (.operation operator) (operation stop operator item) := by
  intro ts read rest h
  simp only [operation, bind_eq_ok] at h
  obtain ⟨⟨operands, mid⟩, hoperands, joined, hjoined, h⟩ := h
  cases h
  obtain ⟨first, more, hspans, hadm, hmoreadm, rfl⟩ := separated_sound hitem hoperands
  obtain ⟨happart, hpart⟩ := (join_eq_ok _).1 hjoined
  exact ⟨.operation operator first more, hspans, ⟨hadm, hmoreadm, happart⟩, hpart⟩

/-- What stands between brackets is an expression, and the closing bracket is read too. -/
theorem enclosed_sound (hnested : Sound .expression nested) {closing : Mark}
    {wrap : TypeExpr → TypeExpr} (h : enclosed stop nested closing wrap ts = .ok (read, rest)) :
    ∃ t : Tree .expression, Spans (t.yield ++ [.mark closing]) ts rest ∧ t.Admissible ∧
      read = { expr := wrap t.meaning, bareSet := false } := by
  simp only [enclosed, bind_eq_ok] at h
  obtain ⟨⟨inner, mid⟩, hinner, next, hclosing, h⟩ := h
  cases h
  obtain ⟨t, ht, hadm, rfl⟩ := hnested _ _ _ hinner
  exact ⟨t, spans_append.2 ⟨mid, ht, expect_eq_ok.1 hclosing⟩, hadm, rfl⟩

/-- Literals are gathered in the order of the text and without doubles, which is what the grammar
asks of them. -/
theorem moreLiterals_sound {seen contents : List String} (hseen : seen.Nodup)
    (h : moreLiterals stop seen ts = .ok (contents, rest)) :
    ∃ more, Spans (literalTail more) ts rest ∧ contents.Nodup ∧ contents = seen ++ more := by
  induction seen, ts using moreLiterals.induct with
  | case1 seen offset content offset' next hmem =>
    rw [moreLiterals, if_pos hmem] at h
    cases h
  | case2 seen offset content offset' next hmem ih =>
    rw [moreLiterals, if_neg hmem] at h
    have hnodup : (seen ++ [content]).Nodup := by
      refine List.nodup_append.2 ⟨hseen, by simp, ?_⟩
      rintro x hx y hy rfl
      rw [List.mem_singleton.1 hy] at hx
      exact hmem hx
    obtain ⟨more, hmore, hcontents, rfl⟩ := ih hnodup h
    refine ⟨content :: more, ?_, hcontents, by simp⟩
    exact ⟨offset, _, rfl, offset', next, rfl, hmore⟩
  | case3 seen offset next hnext =>
    rw [moreLiterals] at h
    · cases h
    · exact hnext
  | case4 seen ts hquoted hjoiner =>
    rw [moreLiterals] at h
    · cases h
      exact ⟨[], rfl, hseen, by simp⟩
    · exact hquoted
    · exact hjoiner

/-- A set is read as what its literals mean. -/
theorem part_literals (first : String) (more : List String) :
    part (.literals first more) = literals (first :: more) := by
  cases more <;> rfl

/-- A name stands for itself, or has arguments in brackets behind it. -/
theorem named_sound (hnested : Sound .expression nested) {name : String} {offset : Nat}
    (h : named stop nested name offset ts = .ok (read, rest)) :
    ∃ t : Tree .atom, Spans t.yield (⟨.name name, offset⟩ :: ts) rest ∧ t.Admissible ∧
      part t = read := by
  unfold named at h
  cases hopen : accept? .openParen ts with
  | none =>
    rw [hopen] at h
    cases h
    exact ⟨.name name, ⟨offset, ts, rfl, rfl⟩, trivial, rfl⟩
  | some mid =>
    simp only [hopen] at h
    split at h
    · cases h
    · next hprimitive =>
      split at h
      · cases h
      · simp only [bind_eq_ok] at h
        obtain ⟨⟨args, next⟩, hargs, last, hclose, h⟩ := h
        cases h
        obtain ⟨first, more, hspans, hadm, hmoreadm, rfl⟩ := separated_sound hnested hargs
        obtain ⟨offset', mid, rfl, rfl⟩ := accept?_eq_some.1 hopen
        refine ⟨.generic name first more, ?_, ⟨by simpa using hprimitive, hadm, hmoreadm⟩, ?_⟩
        · refine ⟨offset, _, rfl, offset', mid, rfl, ?_⟩
          exact spans_append.2 ⟨next, hspans, expect_eq_ok.1 hclose⟩
        · simp [part, Tree.meaning, Tree.isSet, map_expr_parts]

/-- **Atoms.** The first token says which production it is; each kind of lexeme is a case
of its own. -/
theorem atom_sound (hnested : Sound .expression nested) : Sound .atom (atom stop nested) := by
  intro ts read rest h
  unfold atom at h
  split at h
  · exact named_sound hnested h
  · next content offset next =>
    simp only [bind_eq_ok] at h
    obtain ⟨⟨contents, mid⟩, hcontents, h⟩ := h
    cases h
    obtain ⟨more, hmore, hnodup, rfl⟩ := moreLiterals_sound (by simp) hcontents
    exact ⟨.literals content more, ⟨offset, next, rfl, hmore⟩, hnodup, part_literals content more⟩
  · next offset next =>
    obtain ⟨t, ht, hadm, rfl⟩ := enclosed_sound hnested h
    exact ⟨.group t, ⟨offset, next, rfl, ht⟩, hadm, rfl⟩
  · cases h

/-- An opening bracket begins a sequence or a mapping; whatever else comes is left to the atom. -/
theorem container_sound (hnested : Sound .expression nested) :
    Sound .container (container stop nested) := by
  intro ts read rest h
  unfold container at h
  split at h
  · next offset next =>
    obtain ⟨t, ht, hadm, rfl⟩ := enclosed_sound hnested h
    exact ⟨.sequence t, ⟨offset, next, rfl, ht⟩, hadm, rfl⟩
  · next offset next =>
    obtain ⟨t, ht, hadm, rfl⟩ := enclosed_sound hnested h
    exact ⟨.mapping t, ⟨offset, next, rfl, ht⟩, hadm, rfl⟩
  · obtain ⟨t, ht, hadm, rfl⟩ := atom_sound hnested _ _ _ h
    exact ⟨.atom t, ht, hadm, rfl⟩

/-- A container with a question mark behind it is optional. -/
theorem modifier_sound (hnested : Sound .expression nested) :
    Sound .modifier (modifier stop nested) := by
  intro ts read rest h
  simp only [modifier, bind_eq_ok] at h
  obtain ⟨⟨inner, mid⟩, hinner, h⟩ := h
  obtain ⟨t, ht, hadm, rfl⟩ := container_sound hnested _ _ _ hinner
  dsimp only at h
  cases hmark : accept? .question mid with
  | none =>
    rw [hmark] at h
    cases h
    exact ⟨.plain t, ht, hadm, rfl⟩
  | some next =>
    rw [hmark] at h
    cases h
    exact ⟨.optional t, spans_append.2 ⟨mid, ht, accept?_eq_some.1 hmark⟩, hadm, rfl⟩

/-- **One layer is sound around a sound reader.** -/
theorem layer_sound (hnested : Sound .expression nested) :
    Sound .expression (layer stop nested) :=
  operation_sound (operation_sound (modifier_sound hnested))

/-- **Soundness.** What is read at any depth of nesting is the meaning of a tree with these tokens,
by induction on the depth. -/
theorem expression_sound (depth : Nat) : Sound .expression (expression stop depth) := by
  induction depth with
  | zero =>
    intro ts read rest h
    cases h
  | succ depth ih => exact layer_sound ih

/-! ## What may follow -/

/-- The lexemes that continue a phrase if they come next. -/
def continuations : Phrase → List Lexeme
  | .atom | .container => [.joiner, .mark .openParen]
  | .modifier => [.mark .question, .joiner, .mark .openParen]
  | .operation .intersection => [.mark .plus, .mark .question, .joiner, .mark .openParen]
  | .operation .union =>
    [.mark .bar, .mark .plus, .mark .question, .joiner, .mark .openParen]

/-- No phrase of the kind goes on into these tokens. -/
def EndsBefore (p : Phrase) (rest : List Token) : Prop :=
  ∀ l, nextLexeme? rest = some l → l ∉ continuations p

/-- Behind the last token nothing can go on. -/
theorem endsBefore_nil : EndsBefore p [] := by
  intro l hl
  cases hl

/-- Only the next lexeme decides whether a phrase goes on. -/
theorem endsBefore_cons {offset : Nat} (h : l ∉ continuations p) :
    EndsBefore p (⟨l, offset⟩ :: rest) := by
  intro l' hl'
  cases hl'
  exact h

/-- A phrase that goes on with less ends in more places. -/
theorem EndsBefore.mono (h : EndsBefore p rest) (hsub : continuations q ⊆ continuations p) :
    EndsBefore q rest :=
  fun l hl hmem => h l hl (hsub hmem)

/-- What follows a phrase is the mark of the next one or what follows them all. -/
theorem EndsBefore.of_tail {more : Tail m p} (hspans : Spans more.yield ts rest)
    (hm : .mark m ∉ continuations p) (h : EndsBefore p rest) : EndsBefore p ts := by
  cases more with
  | nil =>
    have heq : ts = rest := hspans
    rw [heq]
    exact h
  | cons t more =>
    obtain ⟨offset, mid, rfl, -⟩ := hspans
    exact endsBefore_cons hm

/-! ## Completeness -/

/-- The rule reads every admissible tree for the phrase with at most `k` lexemes,
wherever the phrase can end. -/
def CompleteTo (k : Nat) (p : Phrase) (rule : Rule Part) : Prop :=
  ∀ (t : Tree p) ts rest, t.Admissible → t.yield.length ≤ k → Spans t.yield ts rest →
    EndsBefore p rest → rule ts = .ok (part t, rest)

/-- The rounds last, as each one takes a token; and the loop ends behind the last item, as the mark
does not come next there. -/
theorem moreItems_complete (hitem : CompleteTo k p item) (hm : .mark m ∉ continuations p)
    {rounds : Nat} (hrounds : ts.length ≤ rounds) {more : Tail m p} (hadm : more.Admissible)
    (hlen : more.yield.length ≤ k) (hspans : Spans more.yield ts rest)
    (hends : EndsBefore p rest) (hmark : nextLexeme? rest ≠ some (.mark m)) :
    moreItems item m rounds ts = .ok (parts more, rest) := by
  induction rounds generalizing ts more with
  | zero =>
    have hts : ts = [] := List.eq_nil_of_length_eq_zero (Nat.le_zero.1 hrounds)
    subst hts
    cases more with
    | nil =>
      cases hspans
      rfl
    | cons t more =>
      obtain ⟨offset, mid, h, -⟩ := hspans
      cases h
  | succ rounds ih =>
    rw [moreItems]
    cases more with
    | nil =>
      cases hspans
      rw [accept?_eq_none.2 hmark]
      rfl
    | cons t more =>
      obtain ⟨offset, mid, rfl, hspans⟩ := hspans
      obtain ⟨next, ht, hmore⟩ := spans_append.1 hspans
      rw [Tail.yield, List.cons_append, List.length_cons, List.length_append] at hlen
      have hread : item mid = .ok (part t, next) :=
        hitem t mid next hadm.1 (by omega) ht (.of_tail hmore hm hends)
      have hnext : next.length ≤ rounds := by
        have hmid := ht.length
        rw [List.length_cons] at hrounds
        omega
      have hothers := ih hnext hadm.2 (by omega) hmore
      rw [accept?_eq_some.2 ⟨offset, mid, rfl, rfl⟩]
      simp only [hread, hothers, bind, Except.bind, parts]

/-- The first item ends before the mark, since the mark is none of its own continuations. -/
theorem separated_complete (hitem : CompleteTo k p item) (hm : .mark m ∉ continuations p)
    {first : Tree p} {more : Tail m p} (hadm : first.Admissible) (hmoreadm : more.Admissible)
    (hlen : (first.yield ++ more.yield).length ≤ k)
    (hspans : Spans (first.yield ++ more.yield) ts rest)
    (hends : EndsBefore p rest) (hmark : nextLexeme? rest ≠ some (.mark m)) :
    separated item m ts = .ok (part first :: parts more, rest) := by
  obtain ⟨mid, hfirst, hmore⟩ := spans_append.1 hspans
  rw [List.length_append] at hlen
  have hread : item ts = .ok (part first, mid) :=
    hitem first ts mid hadm (by omega) hfirst (.of_tail hmore hm hends)
  have hothers := moreItems_complete hitem hm (Nat.le_refl mid.length) hmoreadm (by omega) hmore
    hends hmark
  simp only [separated, hread, hothers, bind, Except.bind]

/-- An operator binds its operands tighter than what surrounds it, so an operand ends before the
operator, and the operation before what may follow it. -/
theorem operation_complete (stop : Nat) {operator : Operator}
    (hitem : CompleteTo k (operand operator) item)
    (hm : .mark operator.mark ∉ continuations (operand operator))
    (hsub : continuations (operand operator) ⊆ continuations (.operation operator))
    (hmark : .mark operator.mark ∈ continuations (.operation operator)) :
    CompleteTo k (.operation operator) (operation stop operator item) := by
  rintro (⟨operator, first, more⟩) ts rest ⟨hadm, hmoreadm, happart⟩ hlen hspans hends
  have hoperands := separated_complete hitem hm hadm hmoreadm hlen hspans (hends.mono hsub)
    fun h => hends _ h hmark
  have hjoin := (join_eq_ok (nextOffset stop ts)).2 ⟨happart, rfl⟩
  simp only [operation, hoperands, hjoin, bind, Except.bind]

/-- The closing bracket continues no expression, so the expression inside ends before it. -/
theorem enclosed_complete (hnested : CompleteTo k .expression nested) {closing : Mark}
    (hclosing : .mark closing ∉ continuations .expression) (wrap : TypeExpr → TypeExpr)
    {t : Tree .expression} {opening : Lexeme} (hadm : t.Admissible)
    (hlen : (opening :: t.yield ++ [Lexeme.mark closing]).length ≤ k + 1)
    (hspans : Spans (t.yield ++ [.mark closing]) ts rest) :
    enclosed stop nested closing wrap ts =
      .ok ({ expr := wrap t.meaning, bareSet := false }, rest) := by
  obtain ⟨mid, ht, hmark⟩ := spans_append.1 hspans
  have hexpect : expect stop closing mid = .ok rest := expect_eq_ok.2 hmark
  have hends : EndsBefore .expression mid := by
    obtain ⟨offset, next, rfl, -⟩ := hmark
    exact endsBefore_cons hclosing
  -- two lexemes fewer stand between the marks
  have hshorter : t.yield.length ≤ k := by
    rw [List.length_append, List.length_cons, List.length_singleton] at hlen
    omega
  have hread := hnested t ts mid hadm hshorter ht hends
  simp only [enclosed, hread, hexpect, bind, Except.bind, part]

/-- Literals that are all different are gathered to the last one. -/
theorem moreLiterals_complete (stop : Nat) {seen more : List String}
    (hnodup : (seen ++ more).Nodup) (hspans : Spans (literalTail more) ts rest)
    (hends : nextLexeme? rest ≠ some .joiner) :
    moreLiterals stop seen ts = .ok (seen ++ more, rest) := by
  induction more generalizing seen ts with
  | nil =>
    cases hspans
    rw [List.append_nil, moreLiterals]
    · rintro offset content offset' next rfl
      exact hends rfl
    · rintro offset next rfl
      exact hends rfl
  | cons content more ih =>
    obtain ⟨offset, _, rfl, offset', next, rfl, hmore⟩ := hspans
    have hnew : content ∉ seen := by
      intro hmem
      have hdisjoint := (List.nodup_append.1 hnodup).2.2
      exact hdisjoint content hmem content (List.mem_cons_self ..) rfl
    have happend : seen ++ content :: more = (seen ++ [content]) ++ more := by simp
    rw [happend] at hnodup ⊢
    rw [moreLiterals, if_neg hnew]
    exact ih hnodup hmore

/-- An expression starts with none of the lexemes that end one. -/
theorem nextLexeme?_ne (t : Tree p) (hspans : Spans (t.yield ++ ls) ts rest)
    (hl : starts l = false) : nextLexeme? ts ≠ some l := by
  obtain ⟨l', ls', hyield, hstarts⟩ := t.exists_yield_cons
  rw [hyield] at hspans
  obtain ⟨offset, mid, rfl, -⟩ := hspans
  rintro ⟨⟩
  rw [hl] at hstarts
  cases hstarts

/-- The tree of an atom says which production it is, and the parser chooses by the first token,
which tells them apart. -/
theorem atom_complete (stop : Nat) (hnested : CompleteTo k .expression nested) :
    CompleteTo (k + 1) .atom (atom stop nested) := by
  intro t ts rest hadm hlen hspans hends
  cases t with
  | name text =>
    obtain ⟨offset, rest, rfl, rfl⟩ := hspans
    -- the name ends here, so no arguments follow
    have hopen : accept? .openParen rest = none :=
      accept?_eq_none.2 fun h => hends (.mark .openParen) h (by decide)
    simp only [atom, named, hopen]
    rfl
  | generic base first more =>
    obtain ⟨offset, _, rfl, offset', mid, rfl, hspans⟩ := hspans
    obtain ⟨hbase, hfirst, hmore⟩ := hadm
    -- with arguments: they are read as a list, and then the closing parenthesis
    obtain ⟨next, hargs, hclose⟩ := spans_append.1 hspans
    obtain ⟨offset'', _, rfl, rfl⟩ := hclose
    have hlen' : (first.yield ++ more.yield).length ≤ k := by
      simp only [Tree.yield, List.length_cons, List.length_append] at hlen ⊢
      omega
    have hread := separated_complete hnested (by decide) hfirst hmore hlen' hargs
      (endsBefore_cons (by decide)) (by simp [nextLexeme?])
    have hnext : nextLexeme? mid ≠ some (.mark .closeParen) :=
      nextLexeme?_ne first hargs rfl
    simp only [atom, named, accept?, if_true, hbase, Bool.false_eq_true, if_false, hnext, hread,
      bind, Except.bind, expect]
    rw [List.map_cons, map_expr_parts]
    rfl
  | literals first more =>
    obtain ⟨offset, mid, rfl, hmore⟩ := hspans
    have hnodup : ([first] ++ more).Nodup := hadm
    have hread := moreLiterals_complete stop hnodup hmore
      fun h => hends .joiner h (by decide)
    simp only [atom, hread, bind, Except.bind, part_literals]
    rfl
  | group t =>
    obtain ⟨offset, mid, rfl, ht⟩ := hspans
    exact enclosed_complete hnested (by decide) id hadm hlen ht

/-- A sequence or a mapping is told from an atom by its first token. -/
theorem container_complete (stop : Nat) (hnested : CompleteTo k .expression nested) :
    CompleteTo (k + 1) .container (container stop nested) := by
  intro t ts rest hadm hlen hspans hends
  cases t with
  | sequence t =>
    obtain ⟨offset, mid, rfl, ht⟩ := hspans
    exact enclosed_complete hnested (by decide) .sequence hadm hlen ht
  | mapping t =>
    obtain ⟨offset, mid, rfl, ht⟩ := hspans
    exact enclosed_complete hnested (by decide) .mapping hadm hlen ht
  | atom t =>
    have hread := atom_complete stop hnested t ts rest hadm hlen hspans hends
    -- no atom starts with the brackets of a sequence or a mapping
    unfold container
    split
    · cases hread
    · cases hread
    · exact hread

/-- A question mark behind the container belongs to it; where the tree has none, none follows. -/
theorem modifier_complete (stop : Nat) (hnested : CompleteTo k .expression nested) :
    CompleteTo (k + 1) .modifier (modifier stop nested) := by
  intro t ts rest hadm hlen hspans hends
  have hsub : continuations .container ⊆ continuations .modifier := by decide
  cases t with
  | plain t =>
    have hread := container_complete stop hnested t ts rest hadm hlen hspans
      (hends.mono hsub)
    have hmark : accept? .question rest = none :=
      accept?_eq_none.2 fun h => hends (.mark .question) h (by decide)
    simp only [modifier, hread, hmark, bind, Except.bind]
    rfl
  | optional t =>
    obtain ⟨mid, ht, hmark⟩ := spans_append.1 hspans
    have hlen' : t.yield.length ≤ k + 1 := by
      simp only [Tree.yield, List.length_append] at hlen
      omega
    have hends' : EndsBefore .container mid := by
      obtain ⟨offset, _, rfl, rfl⟩ := hmark
      exact endsBefore_cons (by decide)
    have hread := container_complete stop hnested t ts mid hadm hlen' ht hends'
    simp only [modifier, hread, accept?_eq_some.2 hmark, bind, Except.bind]
    rfl

/-- **One layer is complete a step further than the reader it stands around.** -/
theorem layer_complete (stop : Nat) (hnested : CompleteTo k .expression nested) :
    CompleteTo (k + 1) .expression (layer stop nested) :=
  operation_complete stop
    (operation_complete stop (modifier_complete stop hnested) (by decide) (by decide) (by decide))
    (by decide) (by decide) (by decide)

/-- **Completeness.** Every admissible tree of at most so many tokens is read, by induction on the
depth: each nested phrase has fewer tokens than the phrase around it. -/
theorem expression_complete (stop depth : Nat) :
    CompleteTo depth .expression (expression stop depth) := by
  induction depth with
  | zero =>
    intro t ts rest hadm hlen
    obtain ⟨l, ls, hyield, -⟩ := t.exists_yield_cons
    rw [hyield] at hlen
    cases hlen
  | succ depth ih => exact layer_complete stop ih

/-! ## The whole text -/

/-- **A whole list of tokens is read exactly as its lexemes derive.** -/
theorem whole_eq_ok (stop : Nat) {e : TypeExpr} :
    whole stop ts = .ok e ↔ Derives (ts.map Token.lexeme) e := by
  constructor
  · intro h
    unfold whole at h
    split at h
    · cases h
    · simp only [bind_eq_ok] at h
      obtain ⟨⟨read, rest⟩, hread, h⟩ := h
      obtain ⟨t, ht, hadm, rfl⟩ := expression_sound ts.length ts read rest hread
      cases rest with
      | nil =>
        cases h
        exact ⟨t, (spans_nil_right.1 ht).symm, hadm, rfl⟩
      | cons next rest => cases h
  · rintro ⟨t, hyield, hadm, rfl⟩
    have hspans : Spans t.yield ts [] := spans_nil_right.2 hyield.symm
    have hlength : t.yield.length = ts.length := by rw [hyield, List.length_map]
    -- so many tokens are depth enough for a tree that is made of them
    have hread := expression_complete stop ts.length t ts [] hadm (Nat.le_of_eq hlength)
      hspans endsBefore_nil
    have hnonempty : ts.isEmpty = false := by
      obtain ⟨l, ls, hcons, -⟩ := t.exists_yield_cons
      rw [hcons] at hspans
      obtain ⟨offset, mid, rfl, -⟩ := hspans
      rfl
    simp only [whole, hnonempty, hread, bind, Except.bind, Bool.false_eq_true, if_false]
    rfl

end Parsing

/-- **No lexemes derive two expressions**: whichever they derive is the one that
tokens with these lexemes are read as. -/
theorem Grammar.Derives.unique {ls : List Lexeme} {e e' : TypeExpr} (h : Derives ls e)
    (h' : Derives ls e') : e = e' := by
  let ts : List Token := ls.map fun l => { lexeme := l, offset := 0 }
  have hlexemes : ts.map Token.lexeme = ls := by simp [ts, Function.comp_def]
  rw [← hlexemes, ← Parsing.whole_eq_ok 0] at h h'
  rw [h] at h'
  cases h'
  rfl

/-- A text is read as what its tokens derive. -/
theorem TypeExpr.parse_eq_ok {raw : String} {e : TypeExpr} :
    TypeExpr.parse raw = .ok e ↔
      ∃ ts, tokenize raw = .ok ts ∧ Derives (ts.map Token.lexeme) e := by
  unfold TypeExpr.parse
  simp only [bind_eq_ok, mapError_eq_ok, Parsing.whole_eq_ok]

/-- **The parser accepts exactly the grammar.** A text is parsed to an expression
exactly if it has tokens and they derive the expression, and no list of lexemes
derives two expressions. -/
theorem TypeExpr.parse_iff_derives :
    (∀ raw e, TypeExpr.parse raw = .ok e ↔
        ∃ ts, tokenize raw = .ok ts ∧ Derives (ts.map Token.lexeme) e) ∧
      ∀ ls e e', Derives ls e → Derives ls e' → e = e' :=
  ⟨fun _ _ => parse_eq_ok, fun _ _ _ => Derives.unique⟩

/-- The question mark binds tightest, then the plus, then the bar. -/
theorem TypeExpr.operators_by_strength :
    ∃ ts e, tokenize "A|B+C?" = .ok ts ∧ Derives (ts.map Token.lexeme) e ∧
      e = .union [.reference "A", .intersection [.reference "B", .optional (.reference "C")]] ∧
      ∀ e', Derives (ts.map Token.lexeme) e' → e' = e := by
  have hparse : TypeExpr.parse "A|B+C?" = .ok (.union
      [.reference "A", .intersection [.reference "B", .optional (.reference "C")]]) := rfl
  obtain ⟨ts, hts, hderives⟩ := (parse_iff_derives.1 _ _).1 hparse
  exact ⟨ts, _, hts, hderives, rfl, fun e' he' => parse_iff_derives.2 _ _ _ he' hderives⟩

end WidgetSchema
