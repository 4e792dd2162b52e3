/-
Where the text of a field is cut.

A field is declared by its type, a blank and its tags. Reading cuts that text at the
first tag mark outside quotes, the tags at blanks, and each tag at its first equals
sign; the blanks around what is left of the type are dropped. A type may itself hold
tag marks, equals signs and blanks, but only between quotes, and it neither starts
nor ends with a blank. So what is written as a type and tags is cut into the same
type and the same tags (`extractTags_written`), and whatever was cut out of a text
can be written (`extractTags_valid`).
-/
import Mathlib.Tactic.SplitIfs
import WidgetSchema.Proofs.RenderParse
import WidgetSchema.Tag.Extraction

set_option autoImplicit false

namespace WidgetSchema

open Character

/-! ## Blanks and words -/

namespace Text

variable {cs w : List Char}

/-- The text is no run of blanks, and no blank stands at its ends. -/
def Tight (cs : List Char) : Prop :=
  (∃ c ∈ cs.head?, isBlank c = false) ∧ ∃ c ∈ cs.getLast?, isBlank c = false

/-- The text is a word: no blank, and something else. -/
def IsWord (cs : List Char) : Prop := cs ≠ [] ∧ ∀ c ∈ cs, isBlank c = false

/-- Nothing is trimmed behind a character that is no blank. -/
theorem trimEnd_of_last (h : ∃ c ∈ cs.getLast?, isBlank c = false) : trimEnd cs = cs := by
  induction cs with
  | nil => rfl
  | cons c cs ih =>
    rw [trimEnd]
    cases cs with
    | nil =>
      obtain ⟨d, hd, hblank⟩ := h
      rw [List.getLast?_singleton, Option.mem_some_iff] at hd
      rw [hd, trimEnd]
      simp [hblank]
    | cons d cs =>
      rw [List.getLast?_cons_cons] at h
      rw [ih h]

/-- A blank at the end is trimmed. -/
theorem trimEnd_append_blank {b : Char} (hb : isBlank b = true) (cs : List Char) :
    trimEnd (cs ++ [b]) = trimEnd cs := by
  induction cs with
  | nil => simp [trimEnd, hb]
  | cons c cs ih => rw [List.cons_append, trimEnd, ih, trimEnd]

/-- The same at the start. -/
theorem trimStart_of_head (h : ∃ c ∈ cs.head?, isBlank c = false) : trimStart cs = cs := by
  obtain ⟨c, hc, hblank⟩ := h
  obtain ⟨tail, rfl⟩ := List.head?_eq_some_iff.1 hc
  rw [trimStart, List.dropWhile_cons, if_neg (by simp [hblank])]

/-- A text without blanks at its ends is left as it is. -/
theorem Tight.trim_eq (h : Tight cs) : trim cs = cs := by
  rw [trim, trimStart_of_head h.1, trimEnd_of_last h.2]

/-- A blank behind a text is dropped. -/
theorem Tight.trim_append_blank {b : Char} (h : Tight cs) (hb : isBlank b = true) :
    trim (cs ++ [b]) = cs := by
  obtain ⟨c, hc, hblank⟩ := h.1
  obtain ⟨tail, htail⟩ := List.head?_eq_some_iff.1 hc
  have hhead : ∃ d ∈ (cs ++ [b]).head?, isBlank d = false := ⟨c, by simp [htail], hblank⟩
  rw [trim, trimStart_of_head hhead, trimEnd_append_blank hb, trimEnd_of_last h.2]

/-- No blank stands around a word. -/
theorem IsWord.tight (h : IsWord cs) : Tight cs :=
  ⟨⟨_, List.head?_eq_some_head h.1, h.2 _ (List.head_mem h.1)⟩,
    ⟨_, List.getLast?_eq_some_getLast h.1, h.2 _ (List.getLast_mem h.1)⟩⟩

/-- A blank is passed over, and the words behind it start one place later. -/
theorem words_blank {b : Char} (hb : isBlank b = true) (start : Nat) (cs : List Char) :
    words start (b :: cs) = words (start + 1) cs := by
  rw [words.eq_def]
  simp only [hb, if_true]

/-- Before a blank, or at the end, a character is a word of its own. -/
theorem words_single {c : Char} (hc : isBlank c = false) (hcs : ∀ d ∈ cs.head?, isBlank d = true)
    (start : Nat) : words start (c :: cs) = (start, [c]) :: words (start + 1) cs := by
  rw [words.eq_def]
  simp only [hc, Bool.false_eq_true, if_false]
  cases cs with
  | nil => rfl
  | cons d cs =>
    have hd : isBlank d = true := hcs d rfl
    cases words (start + 1) (d :: cs) with
    | nil => rfl
    | cons p rest => simp only [hd, if_true]

/-- Before another character of a word, a character belongs to that word. -/
theorem words_longer {c d : Char} (hc : isBlank c = false) (hd : isBlank d = false)
    {start place : Nat} {rest : List (Nat × List Char)}
    (h : words (start + 1) (d :: cs) = (place, w) :: rest) :
    words start (c :: d :: cs) = (start, c :: w) :: rest := by
  rw [words.eq_def]
  simp only [hc, h, hd, Bool.false_eq_true, if_false]

/-- **A word that ends before a blank, or at the end, is read as one.** -/
theorem words_word (hw : IsWord w) (hcs : ∀ d ∈ cs.head?, isBlank d = true) (start : Nat) :
    words start (w ++ cs) = (start, w) :: words (start + w.length) cs := by
  obtain ⟨hne, hplain⟩ := hw
  induction w generalizing start with
  | nil => exact absurd rfl hne
  | cons c w ih =>
    rw [List.forall_mem_cons] at hplain
    cases w with
    | nil => exact words_single hplain.1 hcs start
    | cons d w =>
      have hd : isBlank d = false := hplain.2 d List.mem_cons_self
      have hrest := ih (start + 1) (List.cons_ne_nil d w) hplain.2
      rw [List.cons_append] at hrest
      rw [List.cons_append, List.cons_append, words_longer hplain.1 hd hrest]
      rw [List.length_cons, List.length_cons, List.length_cons, Nat.add_assoc start,
        Nat.add_comm 1]

/-- The words of a text are words. -/
theorem isWord_of_mem_words {start : Nat} {p : Nat × List Char} (h : p ∈ words start cs) :
    IsWord p.2 := by
  -- a word is taken as a whole, so the induction is on the length of what is left
  induction hn : cs.length using Nat.strongRecOn generalizing cs start with
  | ind n ih =>
    cases cs with
    | nil => cases h
    | cons c cs =>
      cases hc : isBlank c with
      | true =>
        rw [words_blank hc] at h
        exact ih cs.length (by rw [← hn, List.length_cons]; omega) h rfl
      | false =>
        have hsplit : (c :: cs) =
            (c :: cs).takeWhile (!isBlank ·) ++ (c :: cs).dropWhile (!isBlank ·) :=
          List.takeWhile_append_dropWhile.symm
        have hword : IsWord ((c :: cs).takeWhile (!isBlank ·)) := by
          refine ⟨by simp [hc], fun d hd => ?_⟩
          have htaken := List.all_eq_true.1 List.all_takeWhile d hd
          simpa using htaken
        have hends : ∀ d ∈ ((c :: cs).dropWhile (!isBlank ·)).head?, isBlank d = true := by
          intro d hd
          have hstop := List.head?_dropWhile_not (!isBlank ·) (c :: cs)
          rw [Option.mem_def.1 hd] at hstop
          simpa using hstop
        rw [hsplit, words_word hword hends start, List.mem_cons] at h
        rcases h with rfl | hrest
        · exact hword
        · refine ih _ ?_ hrest rfl
          have hlength := congrArg List.length hsplit
          rw [List.length_append, hn] at hlength
          have hpos := List.length_pos_iff.2 hword.1
          omega

/-- Words between blanks are read back. -/
theorem words_joined (start : Nat) {ws : List (List Char)} (h : ∀ w ∈ ws, IsWord w) :
    (words start ([' '].intercalate ws)).map Prod.snd = ws := by
  induction ws generalizing start with
  | nil => rfl
  | cons w ws ih =>
    rw [List.forall_mem_cons] at h
    cases ws with
    | nil =>
      rw [List.intercalate_singleton]
      have hread := @words_word [] w h.1 (by simp) start
      rw [List.append_nil] at hread
      rw [hread]
      rfl
    | cons v ws =>
      have hblank : isBlank ' ' = true := by decide
      rw [List.intercalate_cons_cons, List.append_assoc, List.singleton_append,
        words_word h.1 (by simpa using hblank) start, words_blank hblank,
        List.map_cons, ih _ h.2]

/-- Without a separator nothing is cut off. -/
theorem cutAt_of_not_mem {separator : Char} (h : separator ∉ cs) :
    cutAt separator cs = (cs, none) := by
  induction cs with
  | nil => rfl
  | cons c cs ih =>
    rw [List.mem_cons, not_or] at h
    rw [cutAt, if_neg (Ne.symm h.1), ih h.2]

end Text

/-! ## Characters of names and lexemes -/

namespace Name

theorem isPart_or_dot_of_tail {cs : List Char} (h : (nameTail cs).2 = []) :
    ∀ c ∈ cs, isPart c = true ∨ c = '.' := by
  induction cs with
  | nil => simp
  | cons c cs ih =>
    have hfirst := isPart_or_dot h
    refine List.forall_mem_cons.2 ⟨hfirst, ih ?_⟩
    rcases hfirst with hpart | rfl
    · rw [nameTail_of_isPart cs hpart] at h
      exact h
    · -- a dot is taken only before another character of the name
      cases cs with
      | nil => rfl
      | cons d cs =>
        cases hd : isStart d with
        | true =>
          rw [nameTail_dot cs hd] at h
          exact h
        | false => simp [nameTail, hd, show isPart '.' = false by decide] at h

end Name

namespace Lexeme

/-- Written outside quotes, the character is neither a blank nor a quote, a tag mark
or a brace. -/
def Bare (c : Char) : Prop := isBlank c = false ∧ c ≠ '"' ∧ c ≠ '@' ∧ c ≠ '\x7b'

theorem bare_of_isPart {c : Char} (h : Name.isPart c = true) : Bare c := by
  refine ⟨Name.isBlank_of_isPart h, ?_, ?_, ?_⟩ <;> rintro rfl <;> revert h <;> decide

/-- **A lexeme is bare characters, or a text between quotes.** -/
theorem text_of_proper {l : Lexeme} (h : l.IsProper) :
    (l.text.toList ≠ [] ∧ ∀ c ∈ l.text.toList, Bare c) ∨
      ∃ content : List Char, '"' ∉ content ∧ l.text.toList = '"' :: content ++ ['"'] := by
  cases l with
  | name t =>
    left
    have hname : Name.isQualified t = true := h
    show t.toList ≠ [] ∧ ∀ c ∈ t.toList, Bare c
    rw [Name.isQualified] at hname
    cases ht : t.toList with
    | nil =>
      rw [ht] at hname
      cases hname
    | cons c cs =>
      rw [ht, Bool.and_eq_true, List.isEmpty_iff] at hname
      -- a name is characters of names and dots, and none of them is a blank or a mark of a tag
      refine ⟨List.cons_ne_nil c cs, List.forall_mem_cons.2 ⟨?_, fun d hd => ?_⟩⟩
      · exact bare_of_isPart (Name.isPart_of_isStart hname.1)
      · rcases Name.isPart_or_dot_of_tail hname.2 d hd with hpart | rfl
        · exact bare_of_isPart hpart
        · unfold Bare; decide
  | quoted content =>
    right
    refine ⟨content.toList, h, ?_⟩
    show ("\"" ++ content ++ "\"").toList = _
    rw [String.toList_append, String.toList_append]
    rfl
  | joiner =>
    left
    show ['_'] ≠ [] ∧ ∀ c ∈ ['_'], Bare c
    rw [List.forall_mem_singleton]
    unfold Bare
    decide
  | mark m =>
    left
    have htext : (Lexeme.mark m).text.toList = [m.toChar] := by
      simp [Lexeme.text, Char.toString]
    rw [htext, List.forall_mem_singleton]
    unfold Bare
    cases m <;> decide

/-- The text of a lexeme starts and ends with a character that is no blank, and
does not start with a brace. -/
theorem ends_of_proper {l : Lexeme} (h : l.IsProper) :
    (∃ c ∈ l.text.toList.head?, isBlank c = false ∧ c ≠ '\x7b') ∧
      ∃ c ∈ l.text.toList.getLast?, isBlank c = false := by
  rcases text_of_proper h with ⟨hne, hbare⟩ | ⟨content, -, htext⟩
  · have hfirst := hbare _ (List.head_mem hne)
    have hlast := hbare _ (List.getLast_mem hne)
    exact ⟨⟨_, List.head?_eq_some_head hne, hfirst.1, hfirst.2.2.2⟩,
      ⟨_, List.getLast?_eq_some_getLast hne, hlast.1⟩⟩
  · rw [htext]
    refine ⟨⟨'"', rfl, by decide⟩, ⟨'"', ?_, by decide⟩⟩
    rw [List.getLast?_append]
    rfl

/-- Lexemes side by side start and end with a character that is no blank, and do not
start with a brace. -/
theorem ends_of_spell {ls : List Lexeme} (hne : ls ≠ []) (h : ∀ l ∈ ls, l.IsProper) :
    (∃ c ∈ (spell ls).head?, isBlank c = false ∧ c ≠ '\x7b') ∧
      ∃ c ∈ (spell ls).getLast?, isBlank c = false := by
  induction ls with
  | nil => exact absurd rfl hne
  | cons l ls ih =>
    rw [List.forall_mem_cons] at h
    have hspell : spell (l :: ls) = l.text.toList ++ spell ls := rfl
    obtain ⟨⟨c, hc, hfirst⟩, d, hd, hlast⟩ := ends_of_proper h.1
    rw [hspell, List.head?_append, List.getLast?_append]
    refine ⟨⟨c, by simp [Option.mem_def.1 hc], hfirst⟩, ?_⟩
    cases ls with
    | nil => exact ⟨d, by simpa [spell] using hd, hlast⟩
    | cons m ls =>
      obtain ⟨-, e, he, hend⟩ := ih (List.cons_ne_nil m ls) h.2
      exact ⟨e, by simp [Option.mem_def.1 he], hend⟩

end Lexeme

namespace TypeExpr

variable {e : TypeExpr}

theorem toList_render (e : TypeExpr) : e.render.toList = Lexeme.spell e.lexemes := by
  rw [render, String.toList_join, Lexeme.spell, List.flatMap_map]

/-- Something is written for a well-formed expression. -/
theorem lexemes_ne_nil (h : e.WellFormed) : e.lexemes ≠ [] := by
  intro hnil
  have hread := parse_render h
  have hempty : e.render = "" := by
    rw [render, hnil]
    rfl
  rw [hempty] at hread
  cases hread

/-- **A type is written without blanks around it.** -/
theorem tight_render (h : e.WellFormed) : Text.Tight e.render.toList := by
  rw [toList_render]
  obtain ⟨⟨c, hc, hfirst⟩, hlast⟩ := Lexeme.ends_of_spell (lexemes_ne_nil h) (proper_lexemes h)
  exact ⟨⟨c, hc, hfirst.1⟩, hlast⟩

/-- No type is written as a pair of braces. -/
theorem render_ne_braces (h : e.WellFormed) (tail : List Char) :
    e.render.toList ≠ '\x7b' :: tail := by
  intro hbrace
  obtain ⟨⟨c, hc, -, hne⟩, -⟩ := Lexeme.ends_of_spell (lexemes_ne_nil h) (proper_lexemes h)
  rw [← toList_render, hbrace] at hc
  cases hc
  exact hne rfl

end TypeExpr

/-! ## The first tag mark -/

namespace Tagging

variable {cs rest : List Char}

/-- Inside quotes a tag mark is passed over, outside them it is not. -/
theorem split_append {quoted : Bool} (h : ∀ c ∈ cs, c ≠ '"' ∧ (quoted = false → c ≠ '@')) :
    split quoted (cs ++ rest) = (cs ++ (split quoted rest).1, (split quoted rest).2) := by
  induction cs with
  | nil => rfl
  | cons c cs ih =>
    rw [List.forall_mem_cons] at h
    obtain ⟨⟨hquote, hmark⟩, hcs⟩ := h
    rw [List.cons_append, split, if_neg fun hc => hmark hc.2 hc.1, if_neg hquote, ih hcs]
    rfl

/-- A quotation mark opens or closes a literal, inside which no mark of a tag counts. -/
theorem split_quote (quoted : Bool) (cs : List Char) :
    split quoted ('"' :: cs) = ('"' :: (split (!quoted) cs).1, (split (!quoted) cs).2) := by
  rw [split, if_neg (by simp), if_pos rfl]

/-- No lexeme is cut, whatever its quoted text holds. -/
theorem split_lexeme {l : Lexeme} (h : l.IsProper) :
    split false (l.text.toList ++ rest) =
      (l.text.toList ++ (split false rest).1, (split false rest).2) := by
  rcases Lexeme.text_of_proper h with ⟨-, hbare⟩ | ⟨content, hcontent, htext⟩
  · exact split_append fun c hc => ⟨(hbare c hc).2.1, fun _ => (hbare c hc).2.2.1⟩
  · have hinside : ∀ c ∈ content, c ≠ '"' ∧ (true = false → c ≠ '@') :=
      fun c hc => ⟨fun he => hcontent (he ▸ hc), fun he => nomatch he⟩
    have hsplit : split false ('"' :: (content ++ '"' :: rest)) =
        ('"' :: (content ++ '"' :: (split false rest).1), (split false rest).2) := by
      rw [split_quote, Bool.not_false, split_append hinside, split_quote, Bool.not_true]
    rw [htext]
    simpa using hsplit

/-- **No written type is cut.** -/
theorem split_render {e : TypeExpr} (h : e.WellFormed) (rest : List Char) :
    split false (e.render.toList ++ rest) =
      (e.render.toList ++ (split false rest).1, (split false rest).2) := by
  have hproper := TypeExpr.proper_lexemes h
  rw [TypeExpr.toList_render]
  generalize e.lexemes = ls at hproper
  induction ls with
  | nil => rfl
  | cons l ls ih =>
    rw [List.forall_mem_cons] at hproper
    have hspell : Lexeme.spell (l :: ls) = l.text.toList ++ Lexeme.spell ls := rfl
    rw [hspell, List.append_assoc, split_lexeme hproper.1, ih hproper.2, List.append_assoc]

/-! ## Tags -/

/-- What can stand behind a tag mark: a key, an equals sign and a value, and in
strict reading a value that the key allows. -/
structure IsTag (strict : Bool) (tag : String × String) : Prop where
  key : Name.isTagKey tag.1 = true
  value : Text.IsWord tag.2.toList
  unmarked : '@' ∉ tag.2.toList ∧ '=' ∉ tag.2.toList
  allowed : strict = true → unknownValue? tag.1 tag.2 = none

variable {strict : Bool} {tag : String × String}

/-- The characters of a tag's key end before an equals sign and before a blank. -/
theorem key_chars (h : Name.isTagKey tag.1 = true) :
    tag.1.toList ≠ [] ∧ ∀ c ∈ tag.1.toList, isBlank c = false ∧ c ≠ '=' := by
  rw [Name.isTagKey] at h
  cases hkey : tag.1.toList with
  | nil =>
    rw [hkey] at h
    cases h
  | cons c cs =>
    rw [hkey, Bool.and_eq_true, List.all_eq_true] at h
    have hpart {d : Char} (hd : Name.isPart d = true) : isBlank d = false ∧ d ≠ '=' := by
      refine ⟨Name.isBlank_of_isPart hd, ?_⟩
      rintro rfl
      revert hd
      decide
    refine ⟨List.cons_ne_nil c cs, List.forall_mem_cons.2 ⟨hpart ?_, fun d hd => ?_⟩⟩
    · apply Name.isPart_of_isStart
      rw [Name.isStart, h.1, Bool.true_or]
    · have hrest := h.2 d hd
      rw [Bool.or_eq_true, Bool.or_eq_true, beq_iff_eq, beq_iff_eq] at hrest
      rcases hrest with (hword | rfl) | rfl
      · exact hpart (by rw [Name.isPart, hword, Bool.true_or])
      · decide
      · decide

theorem toList_tagText (tag : String × String) :
    (TagSet.tagText tag).toList = '@' :: tag.1.toList ++ '=' :: tag.2.toList := by
  simp [TagSet.tagText]

/-- A written tag is one word. -/
theorem isWord_tagText (h : IsTag strict tag) : Text.IsWord (TagSet.tagText tag).toList := by
  rw [toList_tagText]
  refine ⟨by simp, fun c hc => ?_⟩
  rw [List.mem_append, List.mem_cons, List.mem_cons] at hc
  rcases hc with (rfl | hkey) | rfl | hvalue
  · decide
  · exact ((key_chars h.key).2 c hkey).1
  · decide
  · exact h.value.2 c hvalue

/-- **A written tag is read back.** -/
theorem readTag_tagText (h : IsTag strict tag) (offset : Nat) :
    readTag (TagSet.tagText tag).toList offset = .ok tag := by
  obtain ⟨hne, hchars⟩ := key_chars h.key
  have hcut : Text.cutAt '=' (tag.1.toList ++ '=' :: tag.2.toList) =
      (tag.1.toList, some tag.2.toList) :=
    Token.cutAt_append (fun hmem => (hchars _ hmem).2 rfl) _
  rw [toList_tagText, List.cons_append, readTag]
  simp only [hcut, String.ofList_toList, h.key]
  simp [h.value.1, h.unmarked, hne]

/-- A word that is read as a tag can be written as one, but for its value being allowed. -/
theorem readTag_eq_ok {word : List Char} {offset : Nat} (hword : Text.IsWord word)
    (h : readTag word offset = .ok tag)
    (hallowed : strict = true → unknownValue? tag.1 tag.2 = none) : IsTag strict tag := by
  unfold readTag at h
  dsimp only at h
  split at h
  · next body =>
    have hbody : ∀ c ∈ body, isBlank c = false := fun c hc => hword.2 c (List.mem_cons_of_mem _ hc)
    split at h
    · cases h
    · next key value hcut =>
      split_ifs at h with hempty hkey hvalue
      cases h
      rw [Bool.or_eq_true, Bool.or_eq_true, not_or, not_or] at hvalue
      obtain ⟨⟨hne, hmark⟩, hequals⟩ := hvalue
      refine ⟨by simpa using hkey, ⟨by simpa using hne, fun c hc => hbody c ?_⟩,
        by simpa using And.intro hmark hequals, hallowed⟩
      -- the value is what stands behind the equals sign
      rw [String.toList_ofList] at hc
      rw [Token.eq_append_of_cutAt hcut]
      exact List.mem_append_right _ (List.mem_cons_of_mem _ hc)
  · cases h

/-- How the tags of words are read: the first word is a tag under a new key with an
allowed value, and the others follow. -/
theorem readTags_cons_eq_ok {soFar tags : TagSet} {offset : Nat} {word : List Char}
    {words : List (Nat × List Char)} :
    (readTags strict soFar ((offset, word) :: words)).outcome = .ok tags ↔
      ∃ tag, readTag word offset = .ok tag ∧ tag.1 ∉ soFar.keys ∧
        (strict = true → unknownValue? tag.1 tag.2 = none) ∧
        (readTags strict (soFar.insert tag.1 tag.2) words).outcome = .ok tags := by
  rw [readTags]
  cases readTag word offset with
  | error e => simp [Noted.fail]
  | ok tag =>
    obtain ⟨key, value⟩ := tag
    simp only [Except.ok.injEq, exists_eq_left']
    rw [← OrderedMap.contains_iff, Bool.not_eq_true]
    cases soFar.contains key with
    | true => simp [Noted.fail]
    | false =>
      rw [if_neg Bool.false_ne_true, checkValue]
      cases unknownValue? key value <;> cases strict <;>
        simp [Noted.andThen, Noted.done, Noted.fail, Noted.note]

/-- **All tags that are read can be written.** -/
theorem isTag_of_readTags {words : List (Nat × List Char)} {soFar tags : TagSet}
    (hwords : ∀ p ∈ words, Text.IsWord p.2) (hsoFar : ∀ t ∈ soFar.entries, IsTag strict t)
    (h : (readTags strict soFar words).outcome = .ok tags) :
    ∀ t ∈ tags.entries, IsTag strict t := by
  induction words generalizing soFar with
  | nil =>
    cases h
    exact hsoFar
  | cons p words ih =>
    obtain ⟨offset, word⟩ := p
    rw [List.forall_mem_cons] at hwords
    obtain ⟨tag, hread, hnew, hallowed, hrest⟩ := readTags_cons_eq_ok.1 h
    refine ih hwords.2 ?_ hrest
    rw [OrderedMap.entries_insert_of_new hnew, List.forall_mem_append]
    exact ⟨hsoFar, by simpa using readTag_eq_ok hwords.1 hread hallowed⟩

/-- **Written tags are read back**, behind those read so far. -/
theorem readTags_written {tags : List (String × String)} {words : List (Nat × List Char)}
    {soFar : TagSet} (htags : ∀ t ∈ tags, IsTag strict t)
    (hkeys : (soFar.keys ++ tags.map Prod.fst).Nodup)
    (hwords : words.map Prod.snd = tags.map fun t => (TagSet.tagText t).toList) :
    (readTags strict soFar words).outcome =
      .ok (tags.foldl (fun m t => m.insert t.1 t.2) soFar) := by
  induction tags generalizing words soFar with
  | nil =>
    rw [List.map_nil, List.map_eq_nil_iff] at hwords
    rw [hwords]
    rfl
  | cons tag tags ih =>
    obtain ⟨⟨offset, word⟩, words, rfl, rfl, hrest⟩ := List.map_eq_cons_iff.1 hwords
    rw [List.forall_mem_cons] at htags
    have hnew : tag.1 ∉ soFar.keys := by
      intro hmem
      exact (List.nodup_append.1 hkeys).2.2 tag.1 hmem tag.1 List.mem_cons_self rfl
    refine readTags_cons_eq_ok.2 ⟨tag, readTag_tagText htags.1 offset, hnew, htags.1.allowed, ?_⟩
    refine ih htags.2 ?_ hrest
    rw [OrderedMap.keys_insert, if_neg hnew, List.append_assoc]
    exact hkeys

end Tagging

/-! ## Fields -/

variable {strict : Bool}

/-- Tags that can be written. -/
def TagSet.Valid (strict : Bool) (tags : TagSet) : Prop :=
  ∀ t ∈ tags.entries, Tagging.IsTag strict t

/-- What is read of a field text: the words behind the first mark as tags, and what stands before
it, trimmed. -/
theorem extractTags_eq_ok {raw text : String} {tags : TagSet} :
    (extractTags strict raw).outcome = .ok (text, tags) ↔
      (Tagging.readTags strict .empty (Text.words (Tagging.split false raw.toList).1.length
        (Tagging.split false raw.toList).2)).outcome = .ok tags ∧
      String.ofList (Text.trim (Tagging.split false raw.toList).1) = text := by
  rw [extractTags]
  unfold Noted.andThen
  dsimp only
  rw [Noted.outcome_mapError]
  cases (Tagging.readTags strict .empty (Text.words (Tagging.split false raw.toList).1.length
      (Tagging.split false raw.toList).2)).outcome with
  | error e => simp [Except.mapError]
  | ok found => simp [Except.mapError, Noted.done, and_comm]

/-- **The tags of a field can be written.** -/
theorem valid_of_extractTags {raw text : String} {tags : TagSet}
    (h : (extractTags strict raw).outcome = .ok (text, tags)) : tags.Valid strict := by
  have hnone : ∀ t ∈ (OrderedMap.empty : TagSet).entries, Tagging.IsTag strict t :=
    fun t ht => nomatch ht
  exact Tagging.isTag_of_readTags (fun p hp => Text.isWord_of_mem_words hp) hnone
    (extractTags_eq_ok.1 h).1

/-- Tags are written one behind the other, with a blank between each two. -/
theorem toList_renderTags (tags : TagSet) : tags.render.toList =
    [' '].intercalate (tags.entries.map fun t => (TagSet.tagText t).toList) := by
  rw [TagSet.render, String.toList_intercalate, List.map_map]
  rfl

/-- Written tags start with a tag mark, if there are any. -/
theorem split_tags (tags : TagSet) :
    Tagging.split false tags.render.toList = ([], tags.render.toList) := by
  rw [toList_renderTags]
  cases tags.entries with
  | nil => rfl
  | cons tag rest =>
    obtain ⟨cs, hcs⟩ : ∃ cs, [' '].intercalate
        ((tag :: rest).map fun t => (TagSet.tagText t).toList) = '@' :: cs := by
      cases rest <;> simp [Tagging.toList_tagText]
    rw [hcs, Tagging.split, if_pos ⟨rfl, rfl⟩]

/-- A text and the tags written behind it are cut apart again, if the text is cut before
the tags and has no blanks around it. -/
theorem extractTags_joined {text : String} {tags : TagSet}
    (hcut : Tagging.split false (text ++ " " ++ tags.render).toList =
      (text.toList ++ [' '], tags.render.toList))
    (htrim : Text.trim (text.toList ++ [' ']) = text.toList) (htags : tags.Valid strict) :
    (extractTags strict (text ++ " " ++ tags.render)).outcome = .ok (text, tags) := by
  refine extractTags_eq_ok.2 ⟨?_, ?_⟩
  · have hwords : (Text.words (text.toList ++ [' ']).length tags.render.toList).map Prod.snd =
        tags.entries.map fun t => (TagSet.tagText t).toList := by
      rw [toList_renderTags]
      refine Text.words_joined _ fun w hw => ?_
      obtain ⟨t, ht, rfl⟩ := List.mem_map.1 hw
      exact Tagging.isWord_tagText (htags t ht)
    have hkeys : ((OrderedMap.empty : TagSet).keys ++ tags.entries.map Prod.fst).Nodup :=
      tags.nodup_keys
    rw [hcut, Tagging.readTags_written htags hkeys hwords]
    exact congrArg Except.ok tags.ofList_entries
  · rw [hcut, htrim, String.ofList_toList]

/-- **A type and the tags written behind it are cut apart again.** -/
theorem extractTags_written {e : TypeExpr} {tags : TagSet} (he : e.WellFormed)
    (htags : tags.Valid strict) :
    (extractTags strict (e.render ++ " " ++ tags.render)).outcome = .ok (e.render, tags) := by
  have hcut : Tagging.split false (e.render ++ " " ++ tags.render).toList =
      (e.render.toList ++ [' '], tags.render.toList) := by
    have hblank : ∀ c ∈ [' '], c ≠ '"' ∧ (false = false → c ≠ '@') :=
      List.forall_mem_singleton.2 (by decide)
    rw [String.toList_append, String.toList_append, List.append_assoc, Tagging.split_render he,
      show " ".toList = [' '] from rfl, Tagging.split_append hblank, split_tags, List.append_nil]
  exact extractTags_joined hcut ((TypeExpr.tight_render he).trim_append_blank (by decide)) htags

end WidgetSchema
