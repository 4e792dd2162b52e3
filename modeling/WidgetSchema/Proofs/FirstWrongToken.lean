/-
The parser stops at the first wrong token.

A rule that fails has read some tokens and found the next one, or the end of the text,
where none of its phrases goes on. Three things are said of such a failure (`Stuck`):
the fault stands at that place, the tokens read begin a phrase of the rule, and their
lexemes lead to a standing that refuses what comes next, whatever is open around the
phrase. The rules of one layer pass this on from the reader of nested expressions, as
they pass on what is derived; what they need of a phrase that was read is that it did
not end before it had to (`Ended`).

The three side conditions of the grammar are looked at behind the tokens that break
them, so faults of these kinds are left out; they still stand at a token or at the end.
-/
import WidgetSchema.Proofs.LexemeSteps
import WidgetSchema.Proofs.LexemeTexts
import WidgetSchema.Proofs.ParserGrammar

set_option autoImplicit false

namespace WidgetSchema

open Grammar

/-! ## Faults -/

/-- The fault breaks a side condition of the grammar: a set of literals as an operand,
one literal twice in a set, or a scalar kind with arguments. -/
def SyntaxFault.IsSideCondition : SyntaxFault → Prop
  | ungroupedLiterals _ | duplicateLiteral _ | primitiveArguments _ => True
  | _ => False

namespace Parsing

variable {m : Mark} {p q : Phrase} {k stop : Nat} {ls ls' : List Lexeme} {l : Lexeme}
  {ts mid rest : List Token} {nested item : Rule Part} {read : Part} {f : LocatedFault}
  {s s' : Standing} {stage : Stage} {opened : List Opening} {L L' : List Lexeme → Prop}

/-- Where a fault can stand: at a token, or at the end of the text. -/
def places (stop : Nat) (ts : List Token) : List Nat := ts.map Token.offset ++ [stop]

/-- The places of the tokens that are left are among those of all tokens. -/
theorem Spans.places_subset (h : Spans ls ts rest) : places stop rest ⊆ places stop ts := by
  induction ls generalizing ts with
  | nil =>
    have heq : ts = rest := h
    rw [heq]
    exact List.Subset.refl _
  | cons l ls ih =>
    obtain ⟨offset, mid, rfl, hmid⟩ := h
    exact List.Subset.trans (ih hmid) (List.subset_cons_self ..)

/-- The tokens that were read stand in front of the ones that are left. -/
theorem Spans.exists_append (h : Spans ls ts rest) :
    ∃ before, ts = before ++ rest ∧ before.map Token.lexeme = ls := by
  induction ls generalizing ts with
  | nil => exact ⟨[], h, rfl⟩
  | cons l ls ih =>
    obtain ⟨offset, mid, rfl, hmid⟩ := h
    obtain ⟨before, rfl, rfl⟩ := ih hmid
    exact ⟨_ :: before, rfl, rfl⟩

/-- The place of the next token, or the end, is one of the places. -/
theorem nextOffset_mem_places : nextOffset stop ts ∈ places stop ts := by
  cases ts <;> simp [nextOffset, places]

/-- The lexemes can be completed to some of the given ones. -/
def Begins (L : List Lexeme → Prop) (ls : List Lexeme) : Prop :=
  ∃ more, L (ls ++ more) ∧ ∀ l ∈ more, l.IsProper

/-- Some tokens are read that begin what `L` says, and the next one is refused by the
standing they lead to from `s`; the offset is that of the next one. -/
def Stuck (L : List Lexeme → Prop) (s : Standing) (stop : Nat) (ts : List Token)
    (offset : Nat) : Prop :=
  ∃ before after s', Spans before ts after ∧ offset = nextOffset stop after ∧
    Begins L before ∧ s.follow before = some s' ∧ s'.Refuses (nextLexeme? after)

/-- A fault breaks a side condition at one of the tokens, or reading is stuck. -/
def Fails (L : List Lexeme → Prop) (s : Standing) (stop : Nat) (ts : List Token)
    (f : LocatedFault) : Prop :=
  f.fault.IsSideCondition ∧ f.offset ∈ places stop ts ∨ Stuck L s stop ts f.offset

/-- Reading stops behind some lexemes, which can be completed. -/
theorem Fails.stopped {more : List Lexeme} (hspans : Spans ls ts rest)
    (hfollow : s.follow ls = some s') (hrefuses : s'.Refuses (nextLexeme? rest))
    (hoffset : f.offset = nextOffset stop rest) (hL : L (ls ++ more))
    (hproper : ∀ l ∈ more, l.IsProper) : Fails L s stop ts f :=
  .inr ⟨ls, rest, s', hspans, hoffset, ⟨more, hL, hproper⟩, hfollow, hrefuses⟩

/-- Reading stops at once. -/
theorem Fails.here (hrefuses : s.Refuses (nextLexeme? ts))
    (hoffset : f.offset = nextOffset stop ts) (hL : Begins L []) : Fails L s stop ts f :=
  .inr ⟨[], ts, s, rfl, hoffset, hL, s.follow_nil, hrefuses⟩

/-- Reading that fails behind some lexemes fails. -/
theorem Fails.behind (ls : List Lexeme) (h : Fails L s' stop mid f) (hspans : Spans ls ts mid)
    (hfollow : s.follow ls = some s') (hL : ∀ whole, L whole → L' (ls ++ whole)) :
    Fails L' s stop ts f := by
  rcases h with ⟨hside, hplace⟩ | ⟨before, after, s'', hbefore, hoffset, hbegins, hlead, hrefuses⟩
  · exact .inl ⟨hside, hspans.places_subset hplace⟩
  · obtain ⟨more, hwhole, hproper⟩ := hbegins
    refine .inr ⟨ls ++ before, after, s'', spans_append.2 ⟨mid, hspans, hbefore⟩, hoffset,
      ⟨more, ?_, hproper⟩, ?_, hrefuses⟩
    · rw [List.append_assoc]
      exact hL _ hwhole
    · rw [Standing.follow_behind hfollow, hlead]

/-- Reading that fails before some lexemes fails. -/
theorem Fails.before (h : Fails L s stop ts f) (hproper : ∀ l ∈ ls, l.IsProper)
    (hL : ∀ whole, L whole → L' (whole ++ ls)) : Fails L' s stop ts f := by
  rcases h with hside | ⟨before, after, s', hspans, hoffset, hbegins, hlead⟩
  · exact .inl hside
  · obtain ⟨more, hwhole, hmore⟩ := hbegins
    refine .inr ⟨before, after, s', hspans, hoffset,
      ⟨more ++ ls, ?_, List.forall_mem_append.2 ⟨hmore, hproper⟩⟩, hlead⟩
    rw [← List.append_assoc]
    exact hL _ hwhole

/-- A fault stays where it is when more texts are allowed. -/
theorem Fails.imp (h : Fails L s stop ts f) (hL : ∀ whole, L whole → L' whole) :
    Fails L' s stop ts f :=
  h.behind [] rfl s.follow_nil hL

/-- A fault is reported at a token or at the end. -/
theorem Fails.mem_places (h : Fails L s stop ts f) : f.offset ∈ places stop ts := by
  rcases h with ⟨-, hplace⟩ | ⟨before, after, s', hspans, hoffset, -⟩
  · exact hplace
  · rw [hoffset]
    exact hspans.places_subset nextOffset_mem_places

/-! ## Phrases -/

/-- The lexemes are a phrase. -/
def IsPhrase (p : Phrase) (ls : List Lexeme) : Prop := ∃ t : Tree p, t.yield = ls

/-- The lexemes are phrases with marks between them. -/
def ArePhrases (m : Mark) (p : Phrase) (ls : List Lexeme) : Prop :=
  ∃ (first : Tree p) (more : Tail m p), first.yield ++ more.yield = ls

/-- The lexemes are further phrases, each behind a mark. -/
def AreFurther (m : Mark) (p : Phrase) (ls : List Lexeme) : Prop :=
  ∃ more : Tail m p, more.yield = ls

/-- The lexemes are arguments and the parenthesis that closes them. -/
def AreArguments (ls : List Lexeme) : Prop :=
  ∃ args, ArePhrases .comma .expression args ∧ args ++ [.mark .closeParen] = ls

/-- A name is a phrase of every kind. -/
theorem begins_phrase (p : Phrase) : Begins (IsPhrase p) [] := by
  let named : Tree .container := .atom (.name "T")
  let single : Tree (.operation .intersection) := .operation .intersection (.plain named) .nil
  refine ⟨[.name "T"], ?_, List.forall_mem_singleton.2 rfl⟩
  cases p with
  | operation operator =>
    cases operator with
    | union => exact ⟨.operation .union single .nil, rfl⟩
    | intersection => exact ⟨single, rfl⟩
  | modifier => exact ⟨.plain named, rfl⟩
  | container => exact ⟨named, rfl⟩
  | atom => exact ⟨.name "T", rfl⟩

/-- The marks that stand around a phrase and not in it. -/
def outer : Phrase → List Lexeme
  | .atom | .container => [.mark .question, .mark .plus, .mark .bar]
  | .modifier => [.mark .plus, .mark .bar]
  | .operation .intersection => [.mark .bar]
  | .operation .union => []

/-- A phrase that got to this stage does not go on into these tokens. -/
def Ended (p : Phrase) (stage : Stage) (rest : List Token) : Prop :=
  ∀ l, nextLexeme? rest = some l → stage.next? l = none ∨ l ∈ outer p

/-- A phrase in a larger one ends it, if what may stand around it does not come next. -/
theorem Ended.of_inner (h : Ended q stage rest) (hmark : nextLexeme? rest ≠ some l)
    (houter : outer q ⊆ l :: outer p) : Ended p stage rest := by
  intro l' hl'
  rcases h l' hl' with hnone | hmem
  · exact .inl hnone
  · rcases List.mem_cons.1 (houter hmem) with rfl | hmem
    · exact absurd hl' hmark
    · exact .inr hmem

/-- What is behind a closing mark does not belong to the container. -/
theorem ended_closed (rest : List Token) : Ended .container .closed rest := by
  intro l _
  cases l with
  | mark m => cases m <;> simp [Stage.next?, outer]
  | _ => exact .inl rfl

/-- An expression that has ended inside two marks has to be followed by the second. -/
theorem refuses_of_ended {opening : Opening} (h : Ended .expression stage rest)
    (hcomplete : stage.complete = true)
    (hclosing : nextLexeme? rest ≠ some (.mark opening.closing))
    (hcomma : opening = .arguments → nextLexeme? rest ≠ some (.mark .comma)) :
    Standing.Refuses ⟨stage, opening :: opened⟩ (nextLexeme? rest) := by
  cases hnext : nextLexeme? rest with
  | none => exact fun hfinal => List.cons_ne_nil _ _ hfinal.2
  | some l =>
    rw [hnext] at hclosing hcomma
    have hstage : stage.next? l = none := by
      rcases h l hnext with hnone | hmem
      · exact hnone
      · cases hmem
    show Standing.advance? _ l = none
    rw [Standing.advance?_of_complete hstage hcomplete]
    cases l with
    | mark m =>
      have hm : m ≠ opening.closing := fun h => hclosing (by rw [h])
      have hargument : ¬ (opening = .arguments ∧ m = .comma) :=
        fun h => hcomma h.1 (by rw [h.2])
      rw [Standing.leave?, if_neg hm, if_neg hargument]
    | _ => rfl

/-! ## Rules -/

/-- What the rule reads is a phrase that has ended, and where it fails on at most `k`
tokens it is stuck, whatever is open around the phrase. -/
structure Follows (stop k : Nat) (p : Phrase) (rule : Rule Part) : Prop where
  reads : ∀ ts read rest, rule ts = .ok (read, rest) →
    ∃ t : Tree p, Spans t.yield ts rest ∧ Ended p t.last rest
  fails : ∀ ts f opened, ts.length ≤ k → rule ts = .error f →
    Fails (IsPhrase p) ⟨.start, opened⟩ stop ts f

/-- A missing mark is reported at the token that stands in its place. -/
theorem expect_eq_error (h : expect stop m ts = .error f) :
    f.offset = nextOffset stop ts ∧ nextLexeme? ts ≠ some (.mark m) := by
  unfold expect at h
  cases hmark : accept? m ts with
  | some rest =>
    rw [hmark] at h
    cases h
  | none =>
    rw [hmark] at h
    cases h
    exact ⟨rfl, accept?_eq_none.1 hmark⟩

section Items

variable (hitem : Follows stop k p item)

include hitem

/-- What is read behind marks ends where the last item ends, and no mark follows. -/
theorem moreItems_reads {rounds : Nat} (hrounds : ts.length ≤ rounds) {as : List Part}
    (hended : Ended p stage ts) (h : moreItems item m rounds ts = .ok (as, rest)) :
    ∃ more : Tail m p, Spans more.yield ts rest ∧ Ended p (more.last stage) rest ∧
      nextLexeme? rest ≠ some (.mark m) := by
  induction rounds generalizing ts stage as with
  | zero =>
    -- there are as many rounds as tokens, so none is left
    have hnil : ts = [] := List.eq_nil_of_length_eq_zero (Nat.le_zero.1 hrounds)
    cases h
    exact ⟨.nil, rfl, hended, by simp [hnil, nextLexeme?]⟩
  | succ rounds ih =>
    rw [moreItems] at h
    cases hmark : accept? m ts with
    | none =>
      rw [hmark] at h
      cases h
      exact ⟨.nil, rfl, hended, accept?_eq_none.1 hmark⟩
    | some mid =>
      simp only [hmark, bind_eq_ok] at h
      obtain ⟨⟨a, next⟩, ha, ⟨others, next'⟩, hothers, h⟩ := h
      cases h
      obtain ⟨t, ht, hlast⟩ := hitem.reads _ _ _ ha
      obtain ⟨offset, mid, rfl, rfl⟩ := accept?_eq_some.1 hmark
      have hnext : next.length ≤ rounds := by
        have hlength := ht.length
        rw [List.length_cons] at hrounds
        omega
      obtain ⟨more, hmore, hend⟩ := ih hnext hlast hothers
      exact ⟨.cons t more, ⟨offset, _, rfl, spans_append.2 ⟨next, ht, hmore⟩⟩, hend⟩

/-- The items before the failing one are tails already read, so the fault of the item is one of the
tail. The induction is on the rounds. -/
theorem moreItems_fails {rounds : Nat} (hk : ts.length ≤ k) (hcomplete : stage.complete = true)
    (hm : Standing.Separates m opened) (h : moreItems item m rounds ts = .error f) :
    Fails (AreFurther m p) ⟨stage, opened⟩ stop ts f := by
  induction rounds generalizing ts stage with
  | zero => cases h
  | succ rounds ih =>
    rw [moreItems] at h
    cases hmark : accept? m ts with
    | none =>
      rw [hmark] at h
      cases h
    | some mid =>
      obtain ⟨offset, mid, rfl, rfl⟩ := accept?_eq_some.1 hmark
      rw [List.length_cons] at hk
      simp only [hmark, bind_eq_error] at h
      rcases h with hfirst | ⟨⟨a, next⟩, ha, hothers⟩
      · -- the item behind the mark fails
        refine (hitem.fails _ f opened (by omega) hfirst).behind [.mark m]
          ⟨offset, mid, rfl, rfl⟩ ?_ ?_
        · rw [Standing.follow_cons, hm stage hcomplete]
          rfl
        · rintro whole ⟨t, rfl⟩
          exact ⟨.cons t .nil, by rw [Tail.yield, Tail.yield, List.append_nil]; rfl⟩
      · rcases hothers with hothers | ⟨others, -, hnone⟩
        · -- that item is read, and a later one fails
          obtain ⟨t, ht, -⟩ := hitem.reads _ _ _ ha
          have hnext : next.length ≤ k := by
            have hlength := ht.length
            omega
          refine (ih hnext t.complete_last hothers).behind (.mark m :: t.yield)
            ⟨offset, mid, rfl, ht⟩ ?_ ?_
          · rw [Standing.follow_cons, hm stage hcomplete]
            exact t.follow_yield opened
          · rintro whole ⟨more, rfl⟩
            exact ⟨.cons t more, rfl⟩
        · cases hnone

/-- A first item and a tail end where the last item of the tail ends. -/
theorem separated_reads {as : List Part} (h : separated item m ts = .ok (as, rest)) :
    ∃ (first : Tree p) (more : Tail m p), Spans (first.yield ++ more.yield) ts rest ∧
      Ended p (more.last first.last) rest ∧ nextLexeme? rest ≠ some (.mark m) := by
  simp only [separated, bind_eq_ok] at h
  obtain ⟨⟨a, mid⟩, ha, ⟨others, next⟩, hothers, h⟩ := h
  cases h
  obtain ⟨first, hfirst, hlast⟩ := hitem.reads _ _ _ ha
  obtain ⟨more, hmore, hend⟩ := moreItems_reads hitem (Nat.le_refl _) hlast hothers
  exact ⟨first, more, spans_append.2 ⟨mid, hfirst, hmore⟩, hend⟩

/-- Either the first item fails, or it was read and a later one fails behind it. -/
theorem separated_fails (hk : ts.length ≤ k) (hm : Standing.Separates m opened)
    (h : separated item m ts = .error f) :
    Fails (ArePhrases m p) ⟨.start, opened⟩ stop ts f := by
  simp only [separated, bind_eq_error] at h
  rcases h with hfirst | ⟨⟨a, mid⟩, ha, hothers | ⟨others, -, hnone⟩⟩
  · refine (hitem.fails _ f opened hk hfirst).imp ?_
    rintro whole ⟨t, rfl⟩
    exact ⟨t, .nil, List.append_nil _⟩
  · obtain ⟨first, hfirst, -⟩ := hitem.reads _ _ _ ha
    have hmid : mid.length ≤ k := by
      have hlength := hfirst.length
      omega
    refine (moreItems_fails hitem hmid first.complete_last hm hothers).behind first.yield hfirst
      (first.follow_yield opened) ?_
    rintro whole ⟨more, rfl⟩
    exact ⟨first, more, rfl⟩
  · cases hnone

end Items

/-- Operands that do not go together break a condition beside the grammar, and the fault names
the start. -/
theorem join_eq_error {operator : Operator} {start : Nat} {operands : List Part}
    (h : join operator start operands = .error f) :
    f.fault.IsSideCondition ∧ f.offset = start := by
  unfold join at h
  split at h
  · cases h
  · split at h
    · cases h
      exact ⟨trivial, rfl⟩
    · cases h

/-- An operation reads and fails as its operands do; the mark of its operator may follow
an operand. -/
theorem operation_follows {operator : Operator} (hitem : Follows stop k (operand operator) item)
    (houter : outer (operand operator) ⊆ .mark operator.mark :: outer (.operation operator)) :
    Follows stop k (.operation operator) (operation stop operator item) where
  reads := by
    intro ts read rest h
    simp only [operation, bind_eq_ok] at h
    obtain ⟨⟨operands, mid⟩, hoperands, joined, -, h⟩ := h
    cases h
    obtain ⟨first, more, hspans, hended, hmark⟩ := separated_reads hitem hoperands
    exact ⟨.operation operator first more, hspans, hended.of_inner hmark houter⟩
  fails := by
    intro ts f opened hk h
    simp only [operation, bind_eq_error] at h
    rcases h with hoperands | ⟨⟨operands, mid⟩, -, hjoin | ⟨joined, -, hnone⟩⟩
    · refine (separated_fails hitem hk (Standing.separates_operator operator opened)
        hoperands).imp ?_
      rintro whole ⟨first, more, rfl⟩
      exact ⟨.operation operator first more, rfl⟩
    · obtain ⟨hside, hoffset⟩ := join_eq_error hjoin
      exact .inl ⟨hside, hoffset ▸ nextOffset_mem_places⟩
    · cases hnone

section Enclosed

variable (hnested : Follows stop k .expression nested)

include hnested

/-- What stands between brackets was read to its end, and the closing bracket with it. -/
theorem enclosed_reads {closing : Mark} {wrap : TypeExpr → TypeExpr}
    (h : enclosed stop nested closing wrap ts = .ok (read, rest)) :
    ∃ t : Tree .expression, Spans (t.yield ++ [.mark closing]) ts rest := by
  simp only [enclosed, bind_eq_ok] at h
  obtain ⟨⟨inner, mid⟩, hinner, next, hclosing, h⟩ := h
  cases h
  obtain ⟨t, ht, -⟩ := hnested.reads _ _ _ hinner
  exact ⟨t, spans_append.2 ⟨mid, ht, expect_eq_ok.1 hclosing⟩⟩

/-- Between a pair of marks, reading fails where the expression does, or where the second
mark does not come next. -/
theorem enclosed_fails (opening : Opening) (hopening : opening ≠ .arguments)
    (enclose : Tree .expression → Tree p) {wrap : TypeExpr → TypeExpr} {offset : Nat}
    (hm : Standing.advance? ⟨.start, opened⟩ (.mark m) = some ⟨.start, opening :: opened⟩)
    (hyield : ∀ t, (enclose t).yield = .mark m :: (t.yield ++ [.mark opening.closing]))
    (hk : ts.length ≤ k) (h : enclosed stop nested opening.closing wrap ts = .error f) :
    Fails (IsPhrase p) ⟨.start, opened⟩ stop (⟨.mark m, offset⟩ :: ts) f := by
  have hproper : ∀ l ∈ [Lexeme.mark opening.closing], l.IsProper :=
    List.forall_mem_singleton.2 trivial
  have hinside : Fails (fun ls => ∃ t : Tree .expression, t.yield ++ [.mark opening.closing] = ls)
      ⟨.start, opening :: opened⟩ stop ts f := by
    simp only [enclosed, bind_eq_error] at h
    rcases h with hinner | ⟨⟨inner, mid⟩, hinner, hclosing | ⟨next, -, hnone⟩⟩
    · refine (hnested.fails _ f _ hk hinner).before hproper ?_
      rintro whole ⟨t, rfl⟩
      exact ⟨t, rfl⟩
    · obtain ⟨t, ht, hended⟩ := hnested.reads _ _ _ hinner
      obtain ⟨hoffset, hmark⟩ := expect_eq_error hclosing
      have hrefuses : Standing.Refuses ⟨t.last, opening :: opened⟩ (nextLexeme? mid) :=
        refuses_of_ended hended t.complete_last hmark fun h => absurd h hopening
      exact .stopped ht (t.follow_yield _) hrefuses hoffset ⟨t, rfl⟩ hproper
    · cases hnone
  refine hinside.behind [.mark m] ⟨offset, ts, rfl, rfl⟩ ?_ ?_
  · rw [Standing.follow_cons, hm]
    rfl
  · rintro whole ⟨t, rfl⟩
    exact ⟨enclose t, hyield t⟩

end Enclosed

/-- Literals are read up to where no joiner follows. -/
theorem moreLiterals_reads {seen contents : List String}
    (h : moreLiterals stop seen ts = .ok (contents, rest)) :
    ∃ more, Spans (literalTail more) ts rest ∧ nextLexeme? rest ≠ some .joiner := by
  induction seen, ts using moreLiterals.induct with
  | case1 seen offset content offset' next hmem =>
    rw [moreLiterals, if_pos hmem] at h
    cases h
  | case2 seen offset content offset' next hmem ih =>
    rw [moreLiterals, if_neg hmem] at h
    obtain ⟨more, hmore, hnext⟩ := ih h
    exact ⟨content :: more, ⟨offset, _, rfl, offset', next, rfl, hmore⟩, hnext⟩
  | case3 seen offset next hnext =>
    rw [moreLiterals] at h
    · cases h
    · exact hnext
  | case4 seen ts hquoted hjoiner =>
    rw [moreLiterals] at h
    · cases h
      refine ⟨[], rfl, fun hnext => ?_⟩
      cases rest with
      | nil => cases hnext
      | cons t rest =>
        obtain ⟨lexeme, offset⟩ := t
        cases hnext
        exact hjoiner offset rest rfl
    · exact hquoted
    · exact hjoiner

/-- Literals fail at a joiner with no literal behind it, or at one that comes twice, which breaks a
condition beside the grammar. -/
theorem moreLiterals_fails {seen : List String} (h : moreLiterals stop seen ts = .error f) :
    Fails (fun ls => ∃ more, literalTail more = ls) ⟨.literal, opened⟩ stop ts f := by
  induction seen, ts using moreLiterals.induct with
  | case1 seen offset content offset' next hmem =>
    rw [moreLiterals, if_pos hmem] at h
    cases h
    -- the literal is in the set already, which breaks a side condition
    exact .inl ⟨trivial, by simp [places]⟩
  | case2 seen offset content offset' next hmem ih =>
    rw [moreLiterals, if_neg hmem] at h
    refine (ih h).behind [.joiner, .quoted content]
      ⟨offset, _, rfl, offset', next, rfl, rfl⟩ rfl ?_
    rintro whole ⟨more, rfl⟩
    exact ⟨content :: more, rfl⟩
  | case3 seen offset next hnext =>
    rw [moreLiterals] at h
    · -- behind a joiner a literal has to come next
      have hrefuses : Standing.Refuses ⟨.joiner, opened⟩ (nextLexeme? next) := by
        cases next with
        | nil => exact fun hfinal => absurd hfinal.1 Bool.false_ne_true
        | cons t next =>
          obtain ⟨lexeme, offset'⟩ := t
          cases lexeme with
          | quoted content => exact absurd rfl (hnext content offset' next)
          | _ => rfl
      have hproper : ∀ l ∈ [Lexeme.quoted ""], l.IsProper := by
        rw [List.forall_mem_singleton]
        exact List.not_mem_nil
      have hjoiner : Spans [.joiner] (⟨.joiner, offset⟩ :: next) next := ⟨offset, next, rfl, rfl⟩
      cases h
      exact .stopped hjoiner rfl hrefuses rfl ⟨[""], rfl⟩ hproper
    · exact hnext
  | case4 seen ts hquoted hjoiner =>
    rw [moreLiterals] at h
    · cases h
    · exact hquoted
    · exact hjoiner

/-- A name without a parenthesis behind it has ended. -/
theorem ended_name (h : nextLexeme? rest ≠ some (.mark .openParen)) : Ended .atom .name rest := by
  intro l hl
  cases l with
  | mark m =>
    by_cases hm : m = .openParen
    · rw [hm] at hl
      exact absurd hl h
    · cases m <;> simp [Stage.next?, outer] at hm ⊢
  | _ => exact .inl rfl

/-- A literal without a joiner behind it has ended. -/
theorem ended_literal (h : nextLexeme? rest ≠ some .joiner) : Ended .atom .literal rest := by
  intro l hl
  cases l with
  | mark m => cases m <;> simp [Stage.next?, outer]
  | joiner => exact absurd hl h
  | _ => exact .inl rfl

/-- Behind the parenthesis an argument has to come next. -/
theorem empty_arguments_fail (hempty : nextLexeme? ts = some (.mark .closeParen))
    (hoffset : f.offset = nextOffset stop ts) :
    Fails AreArguments ⟨.start, .arguments :: opened⟩ stop ts f := by
  obtain ⟨more, ⟨t, ht⟩, hproper⟩ := begins_phrase .expression
  have hargs : ArePhrases .comma .expression more := ⟨t, .nil, (List.append_nil _).trans ht⟩
  have hrefuses : Standing.Refuses ⟨.start, .arguments :: opened⟩ (nextLexeme? ts) := by
    rw [hempty]
    rfl
  exact .here hrefuses hoffset ⟨_, ⟨more, hargs, rfl⟩,
    List.forall_mem_append.2 ⟨hproper, List.forall_mem_singleton.2 trivial⟩⟩

section Atoms

variable (hnested : Follows stop k .expression nested)

include hnested

/-- A name was read alone, or with its arguments up to the closing parenthesis. -/
theorem named_reads {name : String} {offset : Nat}
    (h : named stop nested name offset ts = .ok (read, rest)) :
    ∃ t : Tree .atom, Spans t.yield (⟨.name name, offset⟩ :: ts) rest ∧
      Ended .atom t.last rest := by
  unfold named at h
  cases hopen : accept? .openParen ts with
  | none =>
    rw [hopen] at h
    cases h
    exact ⟨.name name, ⟨offset, _, rfl, rfl⟩, ended_name (accept?_eq_none.1 hopen)⟩
  | some mid =>
    obtain ⟨offset', mid, rfl, rfl⟩ := accept?_eq_some.1 hopen
    simp only [hopen] at h
    split at h
    · cases h
    · split at h
      · cases h
      · simp only [bind_eq_ok] at h
        obtain ⟨⟨args, next⟩, hargs, last, hclose, h⟩ := h
        cases h
        obtain ⟨first, more, hspans, -⟩ := separated_reads hnested hargs
        refine ⟨.generic name first more, ⟨offset, _, rfl, offset', mid, rfl, ?_⟩, ended_closed _⟩
        exact spans_append.2 ⟨next, hspans, expect_eq_ok.1 hclose⟩

/-- Arguments fail at one of them or where neither a comma nor a parenthesis follows. -/
theorem arguments_fail (hk : ts.length ≤ k)
    (h : separated nested .comma ts = .error f ∨
      ∃ args, separated nested .comma ts = .ok args ∧ expect stop .closeParen args.2 = .error f) :
    Fails AreArguments ⟨.start, .arguments :: opened⟩ stop ts f := by
  have hproper : ∀ l ∈ [Lexeme.mark .closeParen], l.IsProper := List.forall_mem_singleton.2 trivial
  have hcomma := Standing.separates_comma opened
  rcases h with hargs | ⟨⟨args, next⟩, hargs, hclose⟩
  · refine (separated_fails hnested hk hcomma hargs).before hproper ?_
    exact fun whole hwhole => ⟨whole, hwhole, rfl⟩
  · obtain ⟨first, more, hspans, hended, hmark⟩ := separated_reads hnested hargs
    obtain ⟨hoffset, hclose⟩ := expect_eq_error hclose
    have hfollow : Standing.follow ⟨.start, .arguments :: opened⟩ (first.yield ++ more.yield) =
        some ⟨more.last first.last, .arguments :: opened⟩ := by
      rw [Standing.follow_behind (first.follow_yield _)]
      exact more.follow_yield first.complete_last hcomma
    have hrefuses : Standing.Refuses ⟨more.last first.last, .arguments :: opened⟩
        (nextLexeme? next) :=
      refuses_of_ended hended (more.complete_last first.complete_last) hclose fun _ => hmark
    exact .stopped hspans hfollow hrefuses hoffset ⟨_, ⟨first, more, rfl⟩, rfl⟩ hproper

/-- A name fails in its arguments only, or for having any, if it is the name of a primitive type. -/
theorem named_fails {name : String} {offset : Nat} (hk : ts.length ≤ k)
    (h : named stop nested name offset ts = .error f) :
    Fails (IsPhrase .atom) ⟨.start, opened⟩ stop (⟨.name name, offset⟩ :: ts) f := by
  unfold named at h
  cases hopen : accept? .openParen ts with
  | none =>
    rw [hopen] at h
    cases h
  | some mid =>
    obtain ⟨offset', mid, rfl, rfl⟩ := accept?_eq_some.1 hopen
    have hmid : mid.length ≤ k := Nat.le_of_succ_le hk
    simp only [hopen] at h
    split at h
    · cases h
      exact .inl ⟨trivial, by simp [places]⟩
    · -- everything else fails behind the name and the parenthesis
      have hargs : Fails AreArguments ⟨.start, .arguments :: opened⟩ stop mid f := by
        split at h
        · next hempty =>
          cases h
          exact empty_arguments_fail hempty rfl
        · simp only [bind_eq_error] at h
          rcases h with hargs | ⟨args, hargs, hclose | ⟨last, -, hnone⟩⟩
          · exact arguments_fail hnested hmid (.inl hargs)
          · exact arguments_fail hnested hmid (.inr ⟨args, hargs, hclose⟩)
          · cases hnone
      refine hargs.behind [.name name, .mark .openParen]
        ⟨offset, _, rfl, offset', mid, rfl, rfl⟩ rfl ?_
      rintro whole ⟨args, ⟨first, more, rfl⟩, rfl⟩
      exact ⟨.generic name first more, rfl⟩

/-- Each kind of first token is a case of its own. -/
theorem atom_reads (h : atom stop nested ts = .ok (read, rest)) :
    ∃ t : Tree .atom, Spans t.yield ts rest ∧ Ended .atom t.last rest := by
  unfold atom at h
  split at h
  · exact named_reads hnested h
  · next content offset next =>
    simp only [bind_eq_ok] at h
    obtain ⟨⟨contents, mid⟩, hcontents, h⟩ := h
    cases h
    obtain ⟨more, hmore, hnext⟩ := moreLiterals_reads hcontents
    exact ⟨.literals content more, ⟨offset, next, rfl, hmore⟩, ended_literal hnext⟩
  · next offset next =>
    obtain ⟨t, ht⟩ := enclosed_reads hnested h
    exact ⟨.group t, ⟨offset, next, rfl, ht⟩, ended_closed _⟩
  · cases h

/-- An atom fails at its first token or behind it; brackets are excluded since a container takes
them first. -/
theorem atom_fails (hk : ts.length ≤ k + 1)
    (hbracket : nextLexeme? ts ≠ some (.mark .openBracket))
    (hangle : nextLexeme? ts ≠ some (.mark .openAngle))
    (h : atom stop nested ts = .error f) :
    Fails (IsPhrase .atom) ⟨.start, opened⟩ stop ts f := by
  unfold atom at h
  split at h
  · exact named_fails hnested (Nat.le_of_succ_le_succ hk) h
  · next content offset next =>
    simp only [bind_eq_error] at h
    rcases h with hcontents | ⟨contents, -, hnone⟩
    · refine (moreLiterals_fails hcontents).behind [.quoted content]
        ⟨offset, next, rfl, rfl⟩ rfl ?_
      rintro whole ⟨more, rfl⟩
      exact ⟨.literals content more, rfl⟩
    · cases hnone
  · exact enclosed_fails hnested .group (by decide) .group rfl (fun _ => rfl)
      (Nat.le_of_succ_le_succ hk) h
  · next hname hquoted hparen =>
    cases h
    -- what comes next starts no atom, and brackets have been looked at before
    refine .here ?_ rfl (begins_phrase .atom)
    cases ts with
    | nil => exact fun hfinal => absurd hfinal.1 Bool.false_ne_true
    | cons t rest =>
      obtain ⟨lexeme, offset⟩ := t
      cases lexeme with
      | name text => exact absurd rfl (hname text offset rest)
      | quoted content => exact absurd rfl (hquoted content offset rest)
      | joiner => rfl
      | mark m =>
        cases m with
        | openBracket => exact absurd rfl hbracket
        | openAngle => exact absurd rfl hangle
        | openParen => exact absurd rfl (hparen offset rest)
        | _ => rfl

/-- A container ends with its bracket, or where the atom ends. -/
theorem container_reads (h : container stop nested ts = .ok (read, rest)) :
    ∃ t : Tree .container, Spans t.yield ts rest ∧ Ended .container t.last rest := by
  unfold container at h
  split at h
  · next offset next =>
    obtain ⟨t, ht⟩ := enclosed_reads hnested h
    exact ⟨.sequence t, ⟨offset, next, rfl, ht⟩, ended_closed _⟩
  · next offset next =>
    obtain ⟨t, ht⟩ := enclosed_reads hnested h
    exact ⟨.mapping t, ⟨offset, next, rfl, ht⟩, ended_closed _⟩
  · obtain ⟨t, ht, hended⟩ := atom_reads hnested h
    exact ⟨.atom t, ht, hended⟩

/-- A container fails inside its brackets, or where the atom fails. -/
theorem container_fails (hk : ts.length ≤ k + 1) (h : container stop nested ts = .error f) :
    Fails (IsPhrase .container) ⟨.start, opened⟩ stop ts f := by
  unfold container at h
  split at h
  · exact enclosed_fails hnested .bracket (by decide) .sequence rfl (fun _ => rfl)
      (Nat.le_of_succ_le_succ hk) h
  · exact enclosed_fails hnested .angle (by decide) .mapping rfl (fun _ => rfl)
      (Nat.le_of_succ_le_succ hk) h
  · next hbracket hangle =>
    have hnext {m : Mark} (hm : ∀ offset rest, ts ≠ ⟨.mark m, offset⟩ :: rest) :
        nextLexeme? ts ≠ some (.mark m) := by
      intro hnext
      cases ts with
      | nil => cases hnext
      | cons t rest =>
        obtain ⟨lexeme, offset⟩ := t
        cases hnext
        exact hm offset rest rfl
    refine (atom_fails hnested hk (hnext hbracket) (hnext hangle) h).imp ?_
    rintro whole ⟨t, rfl⟩
    exact ⟨.atom t, rfl⟩

/-- A question mark belongs to the container before it, so the modifier ends behind it. -/
theorem modifier_follows : Follows stop (k + 1) .modifier (modifier stop nested) where
  reads := by
    intro ts read rest h
    simp only [modifier, bind_eq_ok] at h
    obtain ⟨⟨inner, mid⟩, hinner, h⟩ := h
    obtain ⟨t, ht, hended⟩ := container_reads hnested hinner
    cases hmark : accept? .question mid with
    | none =>
      rw [hmark] at h
      cases h
      exact ⟨.plain t, ht, hended.of_inner (accept?_eq_none.1 hmark) (List.Subset.refl _)⟩
    | some next =>
      rw [hmark] at h
      cases h
      refine ⟨.optional t, spans_append.2 ⟨mid, ht, accept?_eq_some.1 hmark⟩, ?_⟩
      -- there is at most one question mark
      intro l _
      cases l with
      | mark m => cases m <;> simp [Tree.last, Stage.next?, outer]
      | _ => exact .inl rfl
  fails := by
    intro ts f opened hk h
    simp only [modifier, bind_eq_error] at h
    rcases h with hinner | ⟨⟨inner, mid⟩, -, h⟩
    · refine (container_fails hnested hk hinner).imp ?_
      rintro whole ⟨t, rfl⟩
      exact ⟨.plain t, rfl⟩
    · split at h <;> cases h

/-- **One layer fails where the reader it stands around does, or where it has to.** -/
theorem layer_follows : Follows stop (k + 1) .expression (layer stop nested) :=
  operation_follows (operation_follows (modifier_follows hnested) (List.Subset.refl _))
    (List.Subset.refl _)

end Atoms

/-- Expressions may nest as deep as there are tokens. -/
theorem expression_follows (stop depth : Nat) :
    Follows stop depth .expression (expression stop depth) := by
  induction depth with
  | zero =>
    refine ⟨fun ts read rest h => (nomatch h), fun ts f opened hk h => ?_⟩
    have hnil : ts = [] := List.eq_nil_of_length_eq_zero (Nat.le_zero.1 hk)
    cases h
    rw [hnil]
    exact .here (fun hfinal => absurd hfinal.1 Bool.false_ne_true) rfl (begins_phrase _)
  | succ depth ih => exact layer_follows ih

/-- **A list of tokens that is no expression fails at the first wrong token.** -/
theorem whole_fails (h : whole stop ts = .error f) :
    Fails (IsPhrase .expression) .initial stop ts f := by
  unfold whole at h
  split at h
  · next hempty =>
    have hnil : ts = [] := List.isEmpty_iff.1 hempty
    cases h
    rw [hnil]
    exact .here (fun hfinal => absurd hfinal.1 Bool.false_ne_true) rfl (begins_phrase _)
  · have hreader := expression_follows stop ts.length
    simp only [bind_eq_error] at h
    rcases h with hread | ⟨⟨read, rest⟩, hread, h⟩
    · exact hreader.fails _ f [] (Nat.le_refl _) hread
    · obtain ⟨t, ht, hended⟩ := hreader.reads _ _ _ hread
      cases rest with
      | nil => cases h
      | cons wrong rest =>
        cases h
        -- nothing is open around the expression that a further token could close
        have hstage : t.last.next? wrong.lexeme = none := by
          rcases hended wrong.lexeme rfl with hnone | hmem
          · exact hnone
          · cases hmem
        have hrefuses : Standing.Refuses ⟨t.last, []⟩ (nextLexeme? (wrong :: rest)) := by
          show Standing.advance? _ wrong.lexeme = none
          rw [Standing.advance?_of_complete hstage t.complete_last]
          rfl
        have hwhole : t.yield ++ [] = t.yield := List.append_nil _
        exact .stopped ht (t.follow_yield []) hrefuses rfl ⟨t, hwhole.symm⟩ (by simp)

end Parsing

end WidgetSchema
