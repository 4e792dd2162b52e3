/-
The patterns of tokens.

What a lexeme looks like is said here without the lexer: a name is one or more segments with
dots between them, a quoted text holds no quote, a joiner has a quote behind it with nothing but
blanks before that, and a mark is a character (`Lexeme.Matches`). A text may start with several
lexemes, such as `_`, `_a` and `_a.b`. The patterns are tried in a fixed order, the first one that
matches decides the kind, and it takes as much as it can: that is the first lexeme of the text
(`Lexeme.IsFirst`).

The lexer reads the first lexeme (`readLexeme?_eq_some`), and it reads none exactly where no
pattern matches (`readLexeme?_eq_none`).
-/
import WidgetSchema.Proofs.LexemeTexts

set_option autoImplicit false

namespace WidgetSchema

open Character

/-! ## Names -/

namespace Name

/-- A segment of a name. -/
def IsSegment : List Char → Prop
  | [] => False
  | c :: cs => isStart c = true ∧ ∀ d ∈ cs, isPart d = true

/-- One or more segments with a dot between each two. -/
inductive IsDotted : List Char → Prop
  | segment {cs : List Char} : IsSegment cs → IsDotted cs
  | dot {cs ds : List Char} : IsSegment cs → IsDotted ds → IsDotted (cs ++ '.' :: ds)

variable {c : Char} {tail cs : List Char}

/-- Behind what was taken as a whole a name goes on as if nothing stood before. -/
theorem nameTail_behind (htail : (nameTail tail).2 = []) (cs : List Char) :
    nameTail (tail ++ cs) = (tail ++ (nameTail cs).1, (nameTail cs).2) := by
  fun_induction nameTail tail with
  | case1 => rfl
  | case2 c tail hpart ih => rw [List.cons_append, nameTail_of_isPart _ hpart, ih htail]; rfl
  | case3 c d tail hpart hdot ih =>
    obtain ⟨rfl, hd⟩ := hdot
    rw [List.cons_append, List.cons_append, nameTail_dot _ hd, ← List.cons_append, ih htail]
    rfl
  | case4 => cases htail
  | case5 => cases htail

theorem nameTail_split (cs : List Char) : (nameTail cs).1 ++ (nameTail cs).2 = cs := by
  fun_induction nameTail cs with
  | case1 => rfl
  | case2 c cs hpart ih => rw [List.cons_append, ih]
  | case3 c d cs hpart hdot ih => rw [List.cons_append, ih]
  | case4 => rfl
  | case5 => rfl

theorem nameTail_of_forall (h : ∀ d ∈ cs, isPart d = true) : (nameTail cs).2 = [] := by
  induction cs with
  | nil => rfl
  | cons c cs ih =>
    rw [List.forall_mem_cons] at h
    rw [nameTail_of_isPart _ h.1]
    exact ih h.2

/-- The rest of a segment, and behind a dot a name again. -/
def IsTail (cs : List Char) : Prop :=
  ∃ rest more, cs = rest ++ more ∧ (∀ d ∈ rest, isPart d = true) ∧
    (more = [] ∨ ∃ ds, more = '.' :: ds ∧ IsDotted ds)

theorem IsTail.isDotted (h : IsTail tail) (hc : isStart c = true) : IsDotted (c :: tail) := by
  obtain ⟨rest, more, rfl, hrest, rfl | ⟨ds, rfl, hds⟩⟩ := h
  · rw [List.append_nil]
    exact .segment ⟨hc, hrest⟩
  · have hsegment : IsSegment (c :: rest) := ⟨hc, hrest⟩
    exact IsDotted.dot hsegment hds

theorem IsTail.cons (h : IsTail tail) (hc : isPart c = true) : IsTail (c :: tail) := by
  obtain ⟨rest, more, rfl, hrest, hmore⟩ := h
  exact ⟨c :: rest, more, rfl, List.forall_mem_cons.2 ⟨hc, hrest⟩, hmore⟩

/-- The first character of a name is no dot, so behind it there is the rest of a segment. -/
theorem IsTail.of_cons (h : IsTail (c :: tail)) (hc : isStart c = true) : IsTail tail := by
  obtain ⟨rest, more, hsplit, hrest, hmore⟩ := h
  cases rest with
  | nil =>
    rw [List.nil_append] at hsplit
    rcases hmore with rfl | ⟨ds, rfl, -⟩
    · cases hsplit
    · cases hsplit
      cases hc
  | cons d rest =>
    cases hsplit
    exact ⟨rest, more, rfl, (List.forall_mem_cons.1 hrest).2, hmore⟩

theorem isTail_of_nameTail (h : (nameTail tail).2 = []) : IsTail tail := by
  fun_induction nameTail tail with
  | case1 => exact ⟨[], [], rfl, List.forall_mem_nil _, .inl rfl⟩
  | case2 c tail hpart ih => exact (ih h).cons hpart
  | case3 c d tail hpart hdot ih =>
    obtain ⟨rfl, hd⟩ := hdot
    exact ⟨[], _, rfl, List.forall_mem_nil _, .inr ⟨_, rfl, ((ih h).of_cons hd).isDotted hd⟩⟩
  | case4 => cases h
  | case5 => cases h

theorem IsDotted.exists_cons (h : IsDotted cs) :
    ∃ c tail, cs = c :: tail ∧ isStart c = true ∧ (nameTail tail).2 = [] := by
  induction h with
  | @segment cs h =>
    cases cs with
    | nil => exact h.elim
    | cons c tail => exact ⟨c, tail, rfl, h.1, nameTail_of_forall h.2⟩
  | @dot cs ds h hds ih =>
    obtain ⟨d, more, rfl, hd, hmore⟩ := ih
    cases cs with
    | nil => exact h.elim
    | cons c tail =>
      refine ⟨c, tail ++ '.' :: d :: more, rfl, h.1, ?_⟩
      rw [nameTail_behind (nameTail_of_forall h.2), nameTail_dot _ hd,
        nameTail_of_isPart _ (isPart_of_isStart hd)]
      exact hmore

/-- **A qualified name is made of segments with dots between them.** -/
theorem isQualified_iff {s : String} : isQualified s = true ↔ IsDotted s.toList := by
  rw [isQualified]
  cases s.toList with
  | nil =>
    constructor
    · intro h
      cases h
    · intro h
      obtain ⟨c, tail, hnil, -⟩ := h.exists_cons
      cases hnil
  | cons c tail =>
    rw [Bool.and_eq_true, List.isEmpty_iff]
    constructor
    · rintro ⟨hc, htail⟩
      exact (isTail_of_nameTail htail).isDotted hc
    · intro h
      obtain ⟨c', tail', hcons, hc, htail⟩ := h.exists_cons
      cases hcons
      exact ⟨hc, htail⟩

end Name

/-! ## Patterns -/

namespace Lexeme

variable {l l' : Lexeme} {behind : List Char}

/-- The lexeme fits the pattern of its kind in front of the text behind it. -/
def Matches : Lexeme → (behind : List Char) → Prop
  | name text, _ => Name.IsDotted text.toList
  | quoted content, _ => '"' ∉ content.toList
  | joiner, behind =>
    ∃ blanks rest, behind = blanks ++ '"' :: rest ∧ ∀ c ∈ blanks, isBlank c = true
  | mark _, _ => True

/-- The order in which the patterns are tried. -/
def rank : Lexeme → Nat
  | quoted _ => 0
  | joiner => 1
  | name _ => 2
  | mark _ => 3

/-- The pattern of the first lexeme is tried before that of the second one, or it is the same
and the first lexeme is not shorter. -/
def Precedes (l l' : Lexeme) : Prop := l.rank < l'.rank ∨ l.rank = l'.rank ∧ l'.width ≤ l.width

/-- Of all lexemes that a text starts with, this one is taken: no pattern that is tried before
its own matches there, and its own pattern matches nothing longer. -/
structure IsFirst (l : Lexeme) (behind : List Char) : Prop where
  fits : l.Matches behind
  precedes : ∀ l' behind', l'.text.toList ++ behind' = l.text.toList ++ behind →
    l'.Matches behind' → l.Precedes l'

theorem quotedFollows_iff :
    Token.quotedFollows behind = true ↔
      ∃ blanks rest, behind = blanks ++ '"' :: rest ∧ ∀ c ∈ blanks, isBlank c = true := by
  rw [Token.quotedFollows, beq_iff_eq, Text.trimStart, List.head?_eq_some_iff]
  constructor
  · rintro ⟨rest, hrest⟩
    refine ⟨behind.takeWhile isBlank, rest, ?_, List.all_eq_true.1 List.all_takeWhile⟩
    rw [← hrest, List.takeWhile_append_dropWhile]
  · rintro ⟨blanks, rest, rfl, hblanks⟩
    refine ⟨rest, ?_⟩
    rw [List.dropWhile_append_of_pos hblanks, List.dropWhile_cons_of_neg (by decide)]

/-- A lexeme that fits its pattern can be written. -/
theorem Matches.isProper (h : l.Matches behind) : l.IsProper := by
  cases l with
  | name text => exact Name.isQualified_iff.2 h
  | quoted content => exact h
  | joiner | mark m => trivial

/-- Lexemes of one kind are told apart by their texts. -/
theorem eq_of_rank_of_text (hrank : l.rank = l'.rank) (htext : l.text = l'.text) : l = l' := by
  cases l <;> cases l' <;> cases hrank
  case name.name => exact congrArg name htext
  case joiner.joiner => rfl
  case quoted.quoted => simpa [text] using htext
  case mark.mark m m' =>
    have hchars : [m.toChar] = [m'.toChar] := by
      simpa [text] using congrArg String.toList htext
    have hread := congrArg Mark.ofChar? (List.singleton_inj.1 hchars)
    rw [Mark.ofChar?_toChar, Mark.ofChar?_toChar] at hread
    rw [Option.some.inj hread]

end Lexeme

/-! ## The lexer reads the first lexeme -/

namespace Token

open Lexeme Text

variable {l l' : Lexeme} {cs behind : List Char}

/-- A lexeme that is read stands at the start of the text and fits its pattern. -/
theorem exists_behind_of_readLexeme? (h : readLexeme? cs = some l) :
    ∃ behind, cs = l.text.toList ++ behind ∧ l.Matches behind := by
  have hproper := readLexeme?_proper h
  cases cs with
  | nil => cases h
  | cons c cs =>
    rw [readLexeme?] at h
    split at h
    · next hc =>
      split at h
      · -- a literal: what stands up to the next quotation mark
        next content rest hcut =>
        cases h
        refine ⟨rest, ?_, hproper⟩
        rw [hc, eq_append_of_cutAt hcut]
        simp [text]
      · cases h
    · split at h
      · -- a joiner
        next hjoiner =>
        cases h
        refine ⟨cs, ?_, quotedFollows_iff.1 hjoiner.2⟩
        rw [hjoiner.1]
        rfl
      · split at h
        · -- a name
          next hstart =>
          cases h
          refine ⟨(Name.nameTail cs).2, ?_, Name.isQualified_iff.1 hproper⟩
          simp [text, Name.nameTail_split]
        · -- and else a mark
          obtain ⟨m, hm, rfl⟩ := Option.map_eq_some_iff.1 h
          refine ⟨cs, ?_, trivial⟩
          have hchar : c = m.toChar := by
            unfold Mark.ofChar? at hm
            split at hm <;> cases hm <;> rfl
          simp [text, hchar]

theorem readLexeme?_underscore (h : quotedFollows behind = true) :
    readLexeme? ('_' :: behind) = some joiner := by
  rw [readLexeme?, if_neg (by decide), if_pos ⟨rfl, h⟩]

/-- In front of any text, what was taken as a name is read as a joiner or as the start of a name. -/
theorem readLexeme?_start {c : Char} {tail : List Char} (hstart : Name.isStart c = true)
    (htail : (Name.nameTail tail).2 = []) (behind : List Char) :
    readLexeme? (c :: (tail ++ behind)) =
      if c = '_' ∧ quotedFollows (tail ++ behind) = true then some joiner
      else some (name (String.ofList (c :: (tail ++ (Name.nameTail behind).1)))) := by
  have hquote : c ≠ '"' := by
    rintro rfl
    cases hstart
  rw [readLexeme?, if_neg hquote, if_pos hstart, Name.nameTail_behind htail]

/-- Where a lexeme fits its pattern, one is read that comes no later. -/
theorem exists_readLexeme? (h : l'.Matches behind) :
    ∃ l, readLexeme? (l'.text.toList ++ behind) = some l ∧ l.Precedes l' := by
  cases l' with
  | quoted content =>
    refine ⟨quoted content, ?_, .inr ⟨rfl, Nat.le_refl _⟩⟩
    simpa [text] using readLexeme?_quoted h behind
  | joiner =>
    refine ⟨joiner, ?_, .inr ⟨rfl, Nat.le_refl _⟩⟩
    exact readLexeme?_underscore (quotedFollows_iff.2 h)
  | mark m =>
    refine ⟨mark m, ?_, .inr ⟨rfl, Nat.le_refl _⟩⟩
    simpa [text] using readLexeme?_mark m behind
  | name t =>
    obtain ⟨c, tail, hchars, hstart, htail⟩ := Name.IsDotted.exists_cons h
    have htext : (name t).text.toList = c :: tail := hchars
    rw [htext, List.cons_append, readLexeme?_start hstart htail]
    split
    · exact ⟨joiner, rfl, .inl (Nat.lt_succ_self _)⟩
    · -- the name that is read goes on where this one ends
      refine ⟨_, rfl, .inr ⟨rfl, ?_⟩⟩
      rw [width, width, ← String.length_toList, ← String.length_toList, htext]
      simp [text]

theorem readLexeme?_eq_some :
    readLexeme? (l.text.toList ++ behind) = some l ↔ l.IsFirst behind := by
  constructor
  · intro h
    refine ⟨?_, fun l' behind' hsame hfits => ?_⟩
    · obtain ⟨behind', hsplit, hfits⟩ := exists_behind_of_readLexeme? h
      rwa [List.append_cancel_left hsplit]
    · obtain ⟨l₀, hread, hprecedes⟩ := exists_readLexeme? hfits
      rw [hsame, h] at hread
      cases hread
      exact hprecedes
  · intro h
    obtain ⟨l₀, hread, hprecedes⟩ := exists_readLexeme? h.fits
    obtain ⟨behind₀, hsplit, hfits₀⟩ := exists_behind_of_readLexeme? hread
    have hback := h.precedes l₀ behind₀ hsplit.symm hfits₀
    -- each comes no later than the other, so they are of one kind and equally long
    have hsame : l₀.rank = l.rank ∧ l₀.width = l.width := by
      simp only [Precedes] at hprecedes hback
      omega
    have htext : l₀.text.toList = l.text.toList := by
      refine (List.append_inj hsplit ?_).1.symm
      rw [String.length_toList, String.length_toList]
      exact hsame.2.symm
    rw [hread, eq_of_rank_of_text hsame.1 (String.toList_injective htext)]

/-- **The lexer reads the first lexeme of a text**, and nothing where no pattern matches. -/
theorem readLexeme?_eq_none :
    readLexeme? cs = none ↔
      ∀ (l : Lexeme) (behind : List Char), cs = l.text.toList ++ behind → ¬ l.Matches behind := by
  constructor
  · rintro h l behind rfl hfits
    obtain ⟨l₀, hread, -⟩ := exists_readLexeme? hfits
    rw [h] at hread
    cases hread
  · intro h
    cases hread : readLexeme? cs with
    | none => rfl
    | some l =>
      obtain ⟨behind, hsplit, hfits⟩ := exists_behind_of_readLexeme? hread
      exact absurd hfits (h l behind hsplit)

end Token

end WidgetSchema
