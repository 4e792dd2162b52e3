/-
Blanks between tokens.

A text is its lexemes with gaps before, between and behind them (`weave`), and the gaps are what
the tokens leave of it (`gaps`). A gap may get other blanks as long as it does not get empty, and
where there is none there may be one (`Respaces`). Behind a lexeme the lexer looks at the
characters that continue a name and at the first one that is no blank, and neither changes with the
blanks (`isFirst_respaced`). So the text with the new gaps is laid out like the text itself, by
induction on the layout (`Laid.respaced`), and it is read like it (`read_alike_respaced`).
-/
import WidgetSchema.Proofs.ErrorPlaces
import WidgetSchema.Proofs.TokenCover
import WidgetSchema.Proofs.TokenPlaces

set_option autoImplicit false

namespace WidgetSchema

open Character

/-! ## Gaps -/

/-- What the tokens leave of a text that starts at `offset`: the characters in front of the first
token, between each two, and behind the last one. -/
def Token.gaps : (offset : Nat) → List Char → List Token → List (List Char)
  | _, cs, [] => [cs]
  | offset, cs, t :: ts =>
    cs.take (t.offset - offset) :: gaps t.finish (cs.drop (t.finish - offset)) ts

/-- Lexemes with gaps before, between and behind them. -/
def weave : List (List Char) → List Lexeme → List Char
  | gap :: gaps, l :: ls => gap ++ (l.text.toList ++ weave gaps ls)
  | gap :: _, [] => gap
  | [], _ => []

/-- The second gap may stand for the first one: it is blank, and not empty in place of a gap
that is not. -/
def Respaces (gap gap' : List Char) : Prop :=
  (∀ c ∈ gap', isBlank c = true) ∧ (gap ≠ [] → gap' ≠ [])

instance (gap gap' : List Char) : Decidable (Respaces gap gap') :=
  decidable_of_iff (gap'.all isBlank = true ∧ (gap ≠ [] → gap' ≠ [])) (by simp [Respaces])

namespace Name

variable {cs : List Char}

/-- A name does not go on where another character follows. -/
theorem nameTail_nil (h : ∀ c ∈ cs.head?, isPart c = false ∧ c ≠ '.') : (nameTail cs).1 = [] := by
  have hnone : nameTail ([] ++ cs) = ([], cs) := nameTail_append rfl h
  exact congrArg Prod.fst hnone

theorem not_isPart_of_nameTail {c : Char} (h : (nameTail (c :: cs)).1 = []) : isPart c = false := by
  rw [← Bool.not_eq_true]
  intro hpart
  rw [nameTail_of_isPart _ hpart] at h
  cases h

end Name

namespace Token

open Lexeme Text

variable {l : Lexeme} {ts : List Token}
  {cs gap gap' body body' next behind behind' rest : List Char} {gaps' : List (List Char)} {offset : Nat}

theorem gaps_token (gap next : List Char) (l : Lexeme) (offset : Nat) (ts : List Token) :
    gaps offset (gap ++ (l.text.toList ++ next)) (⟨l, offset + gap.length⟩ :: ts) =
      gap :: gaps (offset + gap.length + l.width) next ts := by
  have hwidth : l.text.toList.length = l.width := String.length_toList
  have hdrop : offset + gap.length + l.width - offset = (gap ++ l.text.toList).length := by
    rw [List.length_append, hwidth]
    omega
  rw [gaps, finish, Nat.add_sub_cancel_left, List.take_left', hdrop, ← List.append_assoc,
    List.drop_left']
  · rfl
  · rfl

/-- **A text is its lexemes and its gaps**, and the gaps are blank. -/
theorem Laid.woven (h : Laid offset cs ts []) :
    cs = weave (gaps offset cs ts) (ts.map Token.lexeme) ∧
      ∀ gap ∈ gaps offset cs ts, ∀ c ∈ gap, isBlank c = true := by
  generalize hrest : ([] : List Char) = rest at h
  induction h with
  | @done offset gap rest hgap =>
    subst hrest
    rw [List.append_nil]
    exact ⟨rfl, List.forall_mem_singleton.2 hgap⟩
  | @token offset gap next rest l ts hgap hfirst hlater ih =>
    obtain ⟨hweave, hblank⟩ := ih hrest
    rw [gaps_token]
    refine ⟨?_, List.forall_mem_cons.2 ⟨hgap, hblank⟩⟩
    rw [List.map_cons, weave, ← hweave]

/-! ## What stands behind a lexeme -/

/-- A quote behind the rest of a name is behind the whole name, or the name is one character. -/
theorem quotedFollows_tail {tail : List Char} (htail : (Name.nameTail tail).2 = [])
    (h : quotedFollows behind' = quotedFollows behind) :
    quotedFollows (tail ++ behind') = quotedFollows (tail ++ behind) := by
  cases tail with
  | nil => exact h
  | cons d tail =>
    have hd : isBlank d = false ∧ d ≠ '"' := by
      rcases Name.isPart_or_dot htail with hpart | rfl
      · refine ⟨Name.isBlank_of_isPart hpart, ?_⟩
        rintro rfl
        cases hpart
      · decide
    have hnone (cs : List Char) : quotedFollows (d :: tail ++ cs) = false := by
      refine Bool.eq_false_iff.2 (not_quotedFollows fun c hc => ?_)
      cases hc
      exact hd
    rw [hnone, hnone]

/-- **A first lexeme stays one** if what stands behind it changes neither where a name ends nor
whether a quoted text follows. -/
theorem IsFirst.congr (h : l.IsFirst behind)
    (hquoted : quotedFollows behind' = quotedFollows behind)
    (hname : (Name.nameTail behind).1 = [] → (Name.nameTail behind').1 = []) :
    l.IsFirst behind' := by
  have hfits := h.fits
  rw [← readLexeme?_eq_some] at h ⊢
  cases l with
  | quoted content => simpa [text] using readLexeme?_quoted hfits behind'
  | mark m => simpa [text] using readLexeme?_mark m behind'
  | joiner =>
    have hfollows : quotedFollows behind = true := quotedFollows_iff.2 hfits
    exact readLexeme?_underscore (hquoted.trans hfollows)
  | name t =>
    obtain ⟨c, tail, hchars, hstart, htail⟩ := Name.IsDotted.exists_cons hfits
    have htext : (name t).text.toList = c :: tail := hchars
    rw [htext, List.cons_append, readLexeme?_start hstart htail] at h ⊢
    rw [quotedFollows_tail htail hquoted]
    split at h
    · cases h
    · next hjoiner =>
      -- nothing behind the name belongs to it
      have hends : (Name.nameTail behind).1 = [] := by
        have hlong := congrArg String.toList (name.inj (Option.some.inj h))
        rw [String.toList_ofList, hchars] at hlong
        simpa using hlong
      rw [if_neg hjoiner, hname hends, List.append_nil, ← hchars, String.ofList_toList]

/-- No lexeme starts with a blank or with a dot. -/
theorem head_of_isFirst (h : l.IsFirst next) :
    ∀ c ∈ (l.text.toList ++ next).head?, isBlank c = false ∧ c ≠ '.' := by
  obtain ⟨c, tail, htext, hblank⟩ := exists_cons_of_isFirst h
  rw [htext]
  rintro d hd
  cases hd
  refine ⟨hblank, ?_⟩
  rintro rfl
  have hread := readLexeme?_eq_some.2 h
  rw [htext] at hread
  cases hread

/-- **A first lexeme stays one when the gap behind it changes.** -/
theorem isFirst_respaced (h : l.IsFirst (gap ++ body)) (hgap : ∀ c ∈ gap, isBlank c = true)
    (hspace : Respaces gap gap') (hhead : body'.head? = body.head?)
    (hbody : ∀ c ∈ body.head?, isBlank c = false ∧ c ≠ '.') : l.IsFirst (gap' ++ body') := by
  have hstart (cs : List Char) (hcs : cs.head? = body.head?) : trimStart cs = cs := by
    cases cs with
    | nil => rfl
    | cons c cs => exact trimStart_of_head ⟨c, rfl, (hbody c hcs.symm).1⟩
  refine IsFirst.congr h ?_ fun hends => Name.nameTail_nil ?_
  · rw [quotedFollows_gap hspace.1, quotedFollows_gap hgap, quotedFollows, quotedFollows,
      hstart body' hhead, hstart body rfl, hhead]
  · cases gap' with
    | cons b gap' =>
      -- a blank ends a name
      intro c hc
      cases hc
      have hblank := hspace.1 b List.mem_cons_self
      constructor
      · cases hpart : Name.isPart b with
        | false => rfl
        | true =>
          rw [Name.isBlank_of_isPart hpart] at hblank
          cases hblank
      · rintro rfl
        cases hblank
    | nil =>
      -- there was no gap, so the name ended at the next lexeme
      have hnone : gap = [] := Decidable.byContradiction fun hne => hspace.2 hne rfl
      subst hnone
      intro c hc
      rw [List.nil_append, hhead] at hc
      obtain ⟨tail, rfl⟩ := List.head?_eq_some_iff.1 hc
      exact ⟨Name.not_isPart_of_nameTail hends, (hbody c rfl).2⟩

/-! ## Other gaps -/

/-- A first lexeme stays one when all gaps behind it change. -/
theorem Laid.isFirst_respaced (h : Laid offset next ts []) (hfirst : l.IsFirst next)
    (hgaps : List.Forall₂ Respaces (gaps offset next ts) gaps') :
    l.IsFirst (weave gaps' (ts.map Token.lexeme)) := by
  generalize hrest : ([] : List Char) = rest at h
  cases h with
  | done hgap =>
    subst hrest
    rw [List.append_nil] at hgaps
    cases hgaps with
    | cons hspace hnone =>
      cases hnone
      have hend : ∀ c ∈ ([] : List Char).head?, isBlank c = false ∧ c ≠ '.' := by simp
      have hsame := Token.isFirst_respaced hfirst hgap hspace rfl hend
      rwa [List.append_nil] at hsame
  | token hgap hnext hlater =>
    rw [gaps_token] at hgaps
    cases hgaps with
    | cons hspace hothers =>
      -- what follows the gap is the next lexeme, before and after
      refine Token.isFirst_respaced hfirst hgap hspace ?_ (head_of_isFirst hnext)
      obtain ⟨c, tail, htext, -⟩ := exists_cons_of_isFirst hnext
      rw [htext]
      rfl

/-- **A text with other gaps is laid out alike.** -/
theorem Laid.respaced (h : Laid offset cs ts []) (place : Nat)
    (hgaps : List.Forall₂ Respaces (gaps offset cs ts) gaps') :
    ∃ ts', Laid place (weave gaps' (ts.map Token.lexeme)) ts' [] ∧
      ts'.map Token.lexeme = ts.map Token.lexeme := by
  generalize hrest : ([] : List Char) = rest at h
  induction h generalizing place gaps' with
  | done hgap =>
    subst hrest
    rw [List.append_nil] at hgaps
    cases hgaps with
    | @cons _ gap' _ _ hspace hnone =>
      cases hnone
      have hlaid := @Laid.done place gap' [] hspace.1
      rw [List.append_nil] at hlaid
      exact ⟨[], hlaid, rfl⟩
  | @token offset gap next rest l ts hgap hfirst hlater ih =>
    subst hrest
    rw [gaps_token] at hgaps
    cases hgaps with
    | @cons _ gap' _ _ hspace hothers =>
      -- the lexemes behind start later or earlier by as much as the gaps have changed
      obtain ⟨ts', hlaid, hsame⟩ := ih (place + gap'.length + l.width) hothers rfl
      refine ⟨⟨l, place + gap'.length⟩ :: ts', ?_, congrArg (l :: ·) hsame⟩
      exact Laid.token hspace.1 (hlater.isFirst_respaced hfirst hothers) hlaid

/-- Tokens with the same lexemes are the tokens moved, and the end with them. -/
theorem exists_moved {ts' : List Token} {stop : Nat} (stop' : Nat)
    (hsame : ts'.map Token.lexeme = ts.map Token.lexeme)
    (hascending : ts.Pairwise fun t t' => t.offset < t'.offset)
    (hstop : ∀ t ∈ ts, t.offset < stop) :
    ∃ f : Nat → Nat, ts' = ts.map (Token.moved f) ∧ f stop = stop' := by
  induction ts generalizing ts' with
  | nil =>
    rw [List.map_nil, List.map_eq_nil_iff] at hsame
    exact ⟨fun _ => stop', hsame, rfl⟩
  | cons t ts ih =>
    obtain ⟨t', ts', rfl, hlexeme, hsame⟩ := List.map_eq_cons_iff.1 hsame
    rw [List.forall_mem_cons] at hstop
    obtain ⟨hbehind, hascending⟩ := List.pairwise_cons.1 hascending
    obtain ⟨f, rfl, hf⟩ := ih hsame hascending hstop.2
    -- the first token goes to its place, which no later token has
    refine ⟨Function.update f t.offset t'.offset, ?_, ?_⟩
    · refine List.cons_eq_cons.2 ⟨?_, List.map_congr_left fun s hs => ?_⟩
      · rw [moved, Function.update_self, ← hlexeme]
      · rw [moved, moved, Function.update_of_ne (Nat.ne_of_gt (hbehind s hs))]
    · rw [Function.update_of_ne (Nat.ne_of_gt hstop.1)]
      exact hf

end Token

open Token in
/-- **Blanks between tokens do not matter.** A text that has tokens is its lexemes with blank gaps
before, between and behind them. A text with blanks of any number in place of an empty gap, and of
any positive number in place of another one, has the same lexemes in the same order. Both denote
the same expression, or the parser rejects both, with the same fault at the same token. -/
theorem read_alike_respaced (raw raw' : String) (ts : List Token) (gaps' : List (List Char))
    (htokens : tokenize raw = .ok ts)
    (hgaps : List.Forall₂ Respaces (gaps 0 raw.toList ts) gaps')
    (hraw' : raw'.toList = weave gaps' (ts.map Token.lexeme)) :
    raw.toList = weave (gaps 0 raw.toList ts) (ts.map Token.lexeme) ∧
      (∀ gap ∈ gaps 0 raw.toList ts, ∀ c ∈ gap, isBlank c = true) ∧
      ∃ f : Nat → Nat, tokenize raw' = .ok (ts.map (Token.moved f)) ∧ f raw.length = raw'.length ∧
        TypeExpr.parse raw' =
          (TypeExpr.parse raw).mapError fun e => { e with raw := raw', offset := f e.offset } := by
  have hscan := TypeExpr.tokenize_eq_ok.1 htokens
  have hlaid := scan_eq_ok.1 hscan
  obtain ⟨hweave, hblank⟩ := hlaid.woven
  refine ⟨hweave, hblank, ?_⟩
  obtain ⟨ts', hlaid', hsame⟩ := hlaid.respaced 0 hgaps
  rw [← hraw', ← scan_eq_ok] at hlaid'
  obtain ⟨hascending, hinside⟩ := scan_offsets hscan
  have hstop : ∀ t ∈ ts, t.offset < raw.length := by
    intro t ht
    have hbelow := (hinside t ht).2
    rwa [String.length_toList, Nat.zero_add] at hbelow
  obtain ⟨f, rfl, hf⟩ := exists_moved raw'.length hsame hascending hstop
  have htokens' := TypeExpr.tokenize_eq_ok.2 hlaid'
  exact ⟨f, htokens', hf, TypeExpr.parse_moved htokens htokens' hf⟩

/-- Blanks around marks and around a joiner that had one blank behind it. -/
theorem spread_read_alike :
    ∃ f : Nat → Nat, tokenize " a_ |(\t\"b\"\n_  \"c\")" = .ok
        ([⟨.name "a_", 0⟩, ⟨.mark .bar, 2⟩, ⟨.mark .openParen, 3⟩, ⟨.quoted "b", 4⟩, ⟨.joiner, 7⟩,
          ⟨.quoted "c", 9⟩, ⟨.mark .closeParen, 12⟩].map (Token.moved f)) ∧
      TypeExpr.parse " a_ |(\t\"b\"\n_  \"c\")" =
        .ok (.union [.reference "a_", .enumSet (.ofList ["b", "c"])]) := by
  have hgaps : List.Forall₂ Respaces [[], [], [], [], [], [' '], [], []]
      [[' '], [' '], [], ['\t'], ['\n'], [' ', ' '], [], []] := by decide
  obtain ⟨-, -, f, htokens, -, hparse⟩ := read_alike_respaced "a_|(\"b\"_ \"c\")"
    " a_ |(\t\"b\"\n_  \"c\")" _ _ rfl hgaps rfl
  exact ⟨f, htokens, hparse⟩

end WidgetSchema
