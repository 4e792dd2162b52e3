/-
The tokens of a text and the blanks around them are the text.

The lexer goes over a text from left to right. Wherever it stands, what lies behind it is laid out:
blanks, then a first lexeme, then blanks again, up to the place it has come to (`Token.Laid`). One
step passes over a blank or over a first lexeme, or the lexer is stuck, because the character there
is no blank and no pattern matches (`exists_laid`, by induction on what is left of the text).

A layout says all about positions that there is to say (`Laid.covers`): tokens do not overlap,
each stands in the text where its offset says, and what belongs to no token is blank. Nothing is
lost, whether the text is read to its end or up to a character that starts no token
(`tokenize_loses_nothing`).
-/
import WidgetSchema.Proofs.Patterns
import WidgetSchema.Proofs.TagBoundary

set_option autoImplicit false

namespace WidgetSchema

open Character

namespace Token

open Lexeme

variable {l : Lexeme} {t : Token} {ts : List Token} {cs gap body next rest : List Char}
  {offset start stop : Nat}

/-! ## Layouts -/

/-- The position behind a token. -/
def finish (t : Token) : Nat := t.offset + t.lexeme.width

/-- The text whose first character stands at `offset` is these tokens with blanks before and
between them, up to some blanks and the rest. -/
inductive Laid : (offset : Nat) → List Char → List Token → (rest : List Char) → Prop
  | done {offset : Nat} {gap rest : List Char} : (∀ c ∈ gap, isBlank c = true) →
      Laid offset (gap ++ rest) [] rest
  | token {offset : Nat} {gap next rest : List Char} {l : Lexeme} {ts : List Token} :
      (∀ c ∈ gap, isBlank c = true) → l.IsFirst next →
      Laid (offset + gap.length + l.width) next ts rest →
      Laid offset (gap ++ (l.text.toList ++ next)) (⟨l, offset + gap.length⟩ :: ts) rest

/-- A blank in front belongs to the first gap. -/
theorem Laid.blank {c : Char} (hc : isBlank c = true) (h : Laid (offset + 1) cs ts rest) :
    Laid offset (c :: cs) ts rest := by
  cases h with
  | done hgap => exact Laid.done (List.forall_mem_cons.2 ⟨hc, hgap⟩)
  | @token _ gap next _ l ts hgap hfirst hlater =>
    have hplace : offset + 1 + gap.length = offset + (c :: gap).length := by
      rw [List.length_cons]
      omega
    rw [hplace] at hlater ⊢
    exact Laid.token (List.forall_mem_cons.2 ⟨hc, hgap⟩) hfirst hlater

/-- Text that nothing is taken from yet. -/
theorem Laid.nothing (offset : Nat) (cs : List Char) : Laid offset cs [] cs :=
  Laid.done (List.forall_mem_nil _)

/-- A first lexeme starts with a character that is no blank. -/
theorem exists_cons_of_isFirst (h : l.IsFirst next) :
    ∃ c tail, l.text.toList = c :: tail ∧ isBlank c = false := by
  obtain ⟨⟨c, hc, hblank, -⟩, -⟩ := ends_of_proper h.fits.isProper
  obtain ⟨tail, htail⟩ := List.head?_eq_some_iff.1 hc
  exact ⟨c, tail, htail, hblank⟩

theorem width_pos (h : l.IsFirst next) : 0 < l.width := by
  obtain ⟨c, tail, htext, -⟩ := exists_cons_of_isFirst h
  rw [width, ← String.length_toList, htext]
  exact Nat.succ_pos _

/-- What is left stands at the end of the text. -/
theorem Laid.isSuffix (h : Laid offset cs ts rest) : rest <:+ cs := by
  induction h with
  | done => exact List.suffix_append _ _
  | token _ _ _ ih =>
    rw [← List.append_assoc]
    exact ih.trans (List.suffix_append _ _)

/-! ## The steps of the lexer -/

/-- One step over a first lexeme. -/
theorem scan_first (h : l.IsFirst next) (offset : Nat) :
    scan 0 offset (l.text.toList ++ next) =
      (scan 0 (offset + l.width) next).map ({ lexeme := l, offset } :: ·) := by
  obtain ⟨c, tail, htext, hblank⟩ := exists_cons_of_isFirst h
  have hread := readLexeme?_eq_some.2 h
  rw [htext, List.cons_append] at hread
  exact scan_chunk htext hblank hread offset

/-- Steps over blanks. -/
theorem scan_gap (h : ∀ c ∈ gap, isBlank c = true) (offset : Nat) (cs : List Char) :
    scan 0 offset (gap ++ cs) = scan 0 (offset + gap.length) cs := by
  induction gap generalizing offset with
  | nil => rfl
  | cons c gap ih =>
    obtain ⟨hc, hgap⟩ := List.forall_mem_cons.1 h
    rw [List.cons_append, scan, if_pos hc, ih hgap, List.length_cons]
    congr 1
    omega

/-- The lexer is stuck in front of this text: at a character that is no blank and where no
lexeme starts. -/
def StuckBefore (rest : List Char) : Prop :=
  (∀ c ∈ rest.head?, isBlank c = false) ∧
    ∀ (l : Lexeme) (behind : List Char), rest = l.text.toList ++ behind → ¬ l.Matches behind

/-- **The lexer lays a text out**, to its end or to where it is stuck. The induction is on the
text that is left, of which each step takes at least one character away. -/
theorem exists_laid (offset : Nat) (cs : List Char) : ∃ ts rest, Laid offset cs ts rest ∧
    (rest = [] ∧ scan 0 offset cs = .ok ts ∨
      ∃ c more p, rest = c :: more ∧ p + rest.length = offset + cs.length ∧ StuckBefore rest ∧
        scan 0 offset cs = .error { fault := stuckAt c, offset := p }) := by
  induction hlength : cs.length using Nat.strongRecOn generalizing offset cs with
  | ind n ih =>
    subst hlength
    cases cs with
    | nil => exact ⟨[], [], .nothing offset [], .inl ⟨rfl, rfl⟩⟩
    | cons c cs =>
      cases hc : isBlank c with
      | true =>
        obtain ⟨ts, rest, hlaid, hends⟩ := ih cs.length (Nat.lt_succ_self _) (offset + 1) cs rfl
        refine ⟨ts, rest, hlaid.blank hc, ?_⟩
        rw [scan, if_pos hc]
        rcases hends with hok | ⟨d, more, p, hrest, hp, hstuck, herror⟩
        · exact .inl hok
        · refine .inr ⟨d, more, p, hrest, ?_, hstuck, herror⟩
          rw [List.length_cons]
          omega
      | false =>
        cases hread : readLexeme? (c :: cs) with
        | none =>
          -- neither a blank nor the start of a lexeme: stuck here
          have hnone := readLexeme?_eq_none.1 hread
          refine ⟨[], c :: cs, .nothing offset _,
            .inr ⟨c, cs, offset, rfl, rfl, ⟨fun d hd => ?_, hnone⟩, ?_⟩⟩
          · cases hd
            exact hc
          · simp only [scan, hc, hread, Bool.false_eq_true, if_false]
        | some l =>
          -- a lexeme: go on behind it
          obtain ⟨next, hsplit, -⟩ := exists_behind_of_readLexeme? hread
          have hfirst : l.IsFirst next := readLexeme?_eq_some.1 (hsplit ▸ hread)
          have hwidth := width_pos hfirst
          have hall : (c :: cs).length = l.width + next.length := by
            rw [hsplit, List.length_append, String.length_toList, width]
          obtain ⟨ts, rest, hlaid, hends⟩ := ih next.length (by omega) (offset + l.width) next rfl
          refine ⟨⟨l, offset⟩ :: ts, rest, ?_, ?_⟩
          · rw [hsplit]
            exact Laid.token (List.forall_mem_nil _) hfirst hlaid
          · rw [hall, hsplit, scan_first hfirst]
            rcases hends with ⟨hrest, hok⟩ | ⟨d, more, p, hrest, hp, hstuck, herror⟩
            · exact .inl ⟨hrest, by rw [hok]; rfl⟩
            · exact .inr ⟨d, more, p, hrest, by omega, hstuck, by rw [herror]; rfl⟩

/-- **What is laid out to its end is read**, as the tokens of the layout. -/
theorem scan_eq_ok : scan 0 offset cs = .ok ts ↔ Laid offset cs ts [] := by
  constructor
  · intro h
    obtain ⟨ts', rest, hlaid, ⟨rfl, hok⟩ | ⟨c, more, p, -, -, -, herror⟩⟩ := exists_laid offset cs
    · rw [hok] at h
      cases h
      exact hlaid
    · rw [herror] at h
      cases h
  · intro h
    generalize hrest : ([] : List Char) = rest at h
    induction h with
    | done hgap =>
      subst hrest
      rw [scan_gap hgap]
      rfl
    | token hgap hfirst _ ih =>
      rw [scan_gap hgap, scan_first hfirst, ih hrest]
      rfl

/-! ## What a layout covers -/

/-- The tokens are what the text has between two positions. -/
structure Covers (cs : List Char) (start stop : Nat) (ts : List Token) : Prop where
  ascending : ts.Pairwise fun t t' => t.finish ≤ t'.offset
  within : ∀ t ∈ ts, start ≤ t.offset ∧ t.offset < t.finish ∧ t.finish ≤ stop
  slice : ∀ t ∈ ts, (cs.drop t.offset).take t.lexeme.width = t.lexeme.text.toList
  first : ∀ t ∈ ts, t.lexeme.IsFirst (cs.drop t.finish)
  blank : ∀ p c, start ≤ p → p < stop → cs[p]? = some c →
    (∀ t ∈ ts, p < t.offset ∨ t.finish ≤ p) → isBlank c = true

/-- A token stands before others, with nothing but blanks in front of it. -/
theorem Covers.cons (h : Covers cs t.finish stop ts) (hstart : start ≤ t.offset)
    (hstop : t.finish ≤ stop) (hfirst : t.lexeme.IsFirst (cs.drop t.finish))
    (hslice : (cs.drop t.offset).take t.lexeme.width = t.lexeme.text.toList)
    (hblank : ∀ p c, start ≤ p → p < t.offset → cs[p]? = some c → isBlank c = true) :
    Covers cs start stop (t :: ts) where
  ascending := List.pairwise_cons.2 ⟨fun t' ht' => (h.within t' ht').1, h.ascending⟩
  within := by
    have hwidth := width_pos hfirst
    refine List.forall_mem_cons.2 ⟨⟨hstart, ?_, hstop⟩, fun t' ht' => ?_⟩
    · unfold finish
      omega
    · obtain ⟨hbehind, hinside⟩ := h.within t' ht'
      unfold finish at hbehind
      exact ⟨by omega, hinside⟩
  slice := List.forall_mem_cons.2 ⟨hslice, h.slice⟩
  first := List.forall_mem_cons.2 ⟨hfirst, h.first⟩
  blank p c hp hstop hc houtside := by
    obtain ⟨hbefore | hbehind, hothers⟩ := List.forall_mem_cons.1 houtside
    · exact hblank p c hp hbefore hc
    · exact h.blank p c hbehind hstop hc hothers

/-- A character of a gap is blank. -/
theorem blank_of_gap {before : List Char} (hgap : ∀ c ∈ gap, isBlank c = true) {p : Nat} {c : Char}
    (hp : before.length ≤ p) (hstop : p < before.length + gap.length)
    (hc : (before ++ (gap ++ body))[p]? = some c) : isBlank c = true := by
  rw [List.getElem?_append_right hp, List.getElem?_append_left (by omega)] at hc
  exact hgap c (List.mem_of_getElem? hc)

/-- **A layout covers its text**, by induction on its tokens. -/
theorem Laid.covers {before : List Char} (h : Laid offset cs ts rest)
    (hoffset : before.length = offset) (hstop : stop + rest.length = offset + cs.length) :
    Covers (before ++ cs) offset stop ts := by
  induction h generalizing before with
  | @done offset gap rest hgap =>
    rw [List.length_append] at hstop
    refine ⟨.nil, List.forall_mem_nil _, List.forall_mem_nil _, List.forall_mem_nil _,
      fun p c hp hlast hc _ => ?_⟩
    exact blank_of_gap hgap (by omega) (by omega) hc
  | @token offset gap next rest l ts hgap hfirst hlater ih =>
    have hwidth : l.text.toList.length = l.width := String.length_toList
    have hlength := hlater.isSuffix.length_le
    rw [List.length_append, List.length_append, hwidth] at hstop
    have hwhole : before ++ (gap ++ (l.text.toList ++ next)) =
        before ++ gap ++ l.text.toList ++ next := by simp only [List.append_assoc]
    have hbehind : (before ++ gap ++ l.text.toList).length = offset + gap.length + l.width := by
      simp only [List.length_append, hwidth]
      omega
    have hdrop : (before ++ (gap ++ (l.text.toList ++ next))).drop (offset + gap.length) =
        l.text.toList ++ next := by
      rw [← List.append_assoc]
      exact List.drop_left' (by rw [List.length_append, hoffset])
    have hcovers := ih hbehind (by omega)
    rw [← hwhole] at hcovers
    refine hcovers.cons (Nat.le_add_right _ _) ?_ ?_ ?_
      fun p c hp hbefore hc => blank_of_gap hgap (by omega) (hoffset ▸ hbefore) hc
    · show offset + gap.length + l.width ≤ stop
      omega
    · show l.IsFirst ((before ++ (gap ++ (l.text.toList ++ next))).drop _)
      rw [hwhole, finish, List.drop_left' hbehind]
      exact hfirst
    · rw [hdrop]
      exact List.take_left' hwidth

/-- A layout from the start of a text on covers it. -/
theorem Laid.covers_all (h : Laid 0 cs ts rest) (hstop : stop + rest.length = 0 + cs.length) :
    Covers cs 0 stop ts :=
  @covers ts cs rest 0 stop [] h rfl hstop

/-! ## Joiners -/

/-- Blanks do not matter to the question whether a quoted text follows. -/
theorem quotedFollows_gap (hgap : ∀ c ∈ gap, isBlank c = true) :
    quotedFollows (gap ++ body) = quotedFollows body := by
  rw [quotedFollows, quotedFollows, Text.trimStart, Text.trimStart,
    List.dropWhile_append_of_pos hgap]

/-- What starts with a quote is a quoted text. -/
theorem exists_quoted (h : l.Matches next)
    (hfollows : quotedFollows (l.text.toList ++ next) = true) :
    ∃ content, l = quoted content := by
  cases l with
  | quoted content => exact ⟨content, rfl⟩
  | joiner => cases hfollows
  | mark m =>
    have htext : (mark m).text.toList = [m.toChar] := by simp [text]
    rw [htext] at hfollows
    exact absurd hfollows (not_quotedFollows fun c hc => Option.some.inj hc ▸ (mark_toChar m).2.2)
  | name t =>
    obtain ⟨c, tail, hchars, hstart, -⟩ := Name.IsDotted.exists_cons h
    have htext : (name t).text.toList = c :: tail := hchars
    rw [htext] at hfollows
    refine absurd hfollows (not_quotedFollows fun d hd => ?_)
    cases hd
    refine ⟨Name.isBlank_of_isPart (Name.isPart_of_isStart hstart), ?_⟩
    rintro rfl
    cases hstart

/-- **A joiner is followed by a quoted text**, at once among the tokens. -/
theorem Laid.joined (h : Laid offset cs ts []) (i p : Nat) (hi : ts[i]? = some ⟨.joiner, p⟩) :
    ∃ content p', ts[i + 1]? = some ⟨.quoted content, p'⟩ := by
  generalize hrest : ([] : List Char) = rest at h
  induction h generalizing i with
  | done => cases hi
  | @token offset gap next rest l ts hgap hfirst hlater ih =>
    cases i with
    | succ i => exact ih i hi hrest
    | zero =>
      cases hi
      have hfollows : quotedFollows next = true := quotedFollows_iff.2 hfirst.fits
      cases hlater with
      | done hblank =>
        subst hrest
        rw [quotedFollows_gap hblank] at hfollows
        cases hfollows
      | token hblank hnext _ =>
        rw [quotedFollows_gap hblank] at hfollows
        obtain ⟨content, rfl⟩ := exists_quoted hnext.fits hfollows
        exact ⟨content, _, rfl⟩

end Token

open Token in
/-- **Tokenizing loses nothing.** A text has tokens, which ascend without overlapping, stand in
the text as their offsets say, are each the first lexeme of what stands there, and leave nothing
but blanks between and around them, and behind each joiner comes a quoted text. Or reading stops
at a character of the text, with tokens that are all this for the text in front of it; the
character is no blank, and no lexeme that starts with it fits its pattern. -/
theorem tokenize_loses_nothing (raw : String) :
    (∃ ts, tokenize raw = .ok ts ∧ Covers raw.toList 0 raw.length ts ∧
      ∀ i p, ts[i]? = some ⟨.joiner, p⟩ → ∃ content p', ts[i + 1]? = some ⟨.quoted content, p'⟩) ∨
    ∃ found c behind p, tokenize raw = .error ⟨stuckAt c, raw, p⟩ ∧ p < raw.length ∧
      raw.toList.drop p = c :: behind ∧ Covers raw.toList 0 p found ∧ isBlank c = false ∧
      ∀ (l : Lexeme) (next : List Char),
        c :: behind = l.text.toList ++ next → ¬ l.Matches next := by
  obtain ⟨ts, rest, hlaid, ⟨rfl, hok⟩ | ⟨c, behind, p, rfl, hp, hstuck, herror⟩⟩ :=
    exists_laid 0 raw.toList
  · refine .inl ⟨ts, mapError_eq_ok.2 hok, hlaid.covers_all ?_, hlaid.joined⟩
    rw [List.length_nil, String.length_toList]
    omega
  · have hcovers : Covers raw.toList 0 p ts := hlaid.covers_all hp
    refine .inr ⟨ts, c, behind, p, mapError_eq_error.2 ⟨_, herror, rfl⟩, ?_, ?_, hcovers,
      hstuck.1 c rfl, hstuck.2⟩
    · rw [List.length_cons, String.length_toList] at hp
      omega
    · have hplace : raw.toList.length - (c :: behind).length = p := by omega
      have hdrop := List.suffix_iff_eq_drop.1 hlaid.isSuffix
      rw [hplace] at hdrop
      exact hdrop.symm

/-- The underscore is a joiner, although the quoted text behind it does not end. -/
example : tokenize "a|_ \"b" = .error ⟨.unterminatedLiteral, "a|_ \"b", 4⟩ := rfl

end WidgetSchema
