/-
Lexemes side by side are read back.

The lexer looks ahead in two places: a name goes on as long as it can, and an
underscore is a joiner only before a quoted text. So written lexemes are the
tokens of their text if each of them can be written at all, if a name stands
before a mark or at the end, and a joiner before a quoted text (`Separable`).
Then each is read as one chunk, whatever stands behind it (`scan_lexeme`).

The other way round, whatever the lexer reads can be written: its names are
qualified, and its quoted texts hold no quote (`tokenize_proper`).
-/
import WidgetSchema.Expr.Lexer
import WidgetSchema.Proofs.Actions

set_option autoImplicit false

namespace WidgetSchema

/-! ## Blanks and names -/

namespace Character

/-- The code points of all blanks. -/
def blankCodes : List Nat :=
  List.range' 0x09 5 ++ List.range' 0x1C 5 ++ [0x85, 0xA0, 0x1680] ++ List.range' 0x2000 11 ++
    [0x2028, 0x2029, 0x202F, 0x205F, 0x3000]

theorem mem_blankCodes {c : Char} (h : isBlank c = true) : c.toNat ∈ blankCodes := by
  simp only [isBlank, blankBorders, inClass] at h
  simp only [blankCodes, List.mem_append, List.mem_range'_1, List.mem_cons, List.not_mem_nil,
    or_false]
  generalize c.toNat = n at h ⊢
  simp at h
  omega

end Character

namespace Name

open Character

/-- What can begin a name can go on in it. -/
theorem isPart_of_isStart {c : Char} (h : isStart c = true) : isPart c = true := by
  have hz : ∀ d : Char, c ≤ d → c.toNat ≤ d.toNat := fun d hd => hd
  simp only [isStart, isPart, isWord, Bool.or_eq_true, beq_iff_eq] at h ⊢
  rcases h with (hletter | rfl) | rfl
  · have hascii : c.toNat < 0x80 := by
      simp only [isAsciiLetter, Bool.or_eq_true, Bool.and_eq_true, decide_eq_true_eq] at hletter
      rcases hletter with ⟨-, hc⟩ | ⟨-, hc⟩
      · exact Nat.lt_of_le_of_lt (hz _ hc) (by decide)
      · exact Nat.lt_of_le_of_lt (hz _ hc) (by decide)
    simp [hascii, hletter]
  · decide
  · decide

/-- No character of a name is a blank. -/
theorem isBlank_of_isPart {c : Char} (h : isPart c = true) : isBlank c = false := by
  have hcodes : ∀ n ∈ blankCodes, isPart (Char.ofNat n) = false := by decide +kernel
  cases hblank : isBlank c with
  | false => rfl
  | true =>
    have hpart := hcodes c.toNat (mem_blankCodes hblank)
    rw [Char.ofNat_toNat, h] at hpart
    cases hpart

/-- A name goes on with each character that can be part of one. -/
theorem nameTail_of_isPart {c : Char} (cs : List Char) (h : isPart c = true) :
    nameTail (c :: cs) = (c :: (nameTail cs).1, (nameTail cs).2) := by
  cases cs <;> simp only [nameTail, h, if_true]

/-- It goes on behind a dot if a name could begin there. -/
theorem nameTail_dot {d : Char} (cs : List Char) (h : isStart d = true) :
    nameTail ('.' :: d :: cs) = ('.' :: (nameTail (d :: cs)).1, (nameTail (d :: cs)).2) := by
  rw [nameTail, if_neg (by decide)]
  simp only [h, and_self, if_true]

/-- What was taken for a name is taken as a whole. -/
theorem nameTail_taken (cs : List Char) : nameTail (nameTail cs).1 = ((nameTail cs).1, []) := by
  fun_induction nameTail cs with
  | case1 => rfl
  | case2 c cs hpart ih => rw [nameTail_of_isPart _ hpart, ih]
  | case3 c d cs hpart hdot ih =>
    obtain ⟨rfl, hd⟩ := hdot
    rw [nameTail_of_isPart _ (isPart_of_isStart hd)] at ih ⊢
    rw [nameTail_dot _ hd, ih]
  | case4 => rfl
  | case5 => rfl

/-- A name that is all of a text begins with a character of names or with a dot. -/
theorem isPart_or_dot {c : Char} {cs : List Char} (h : (nameTail (c :: cs)).2 = []) :
    isPart c = true ∨ c = '.' := by
  by_cases hpart : isPart c = true
  · exact .inl hpart
  · refine .inr (Decidable.byContradiction fun hdot => ?_)
    cases cs <;> simp [nameTail, hpart, hdot] at h

/-- A name ends before a character that neither is part of a name nor a dot. -/
theorem nameTail_append {tail cs : List Char} (htail : (nameTail tail).2 = [])
    (hcs : ∀ c ∈ cs.head?, isPart c = false ∧ c ≠ '.') : nameTail (tail ++ cs) = (tail, cs) := by
  fun_induction nameTail tail with
  | case1 =>
    cases cs with
    | nil => rfl
    | cons c cs =>
      obtain ⟨hpart, hdot⟩ := hcs c rfl
      cases cs <;> simp [nameTail, hpart, hdot]
  | case2 c tail hpart ih => rw [List.cons_append, nameTail_of_isPart _ hpart, ih htail]
  | case3 c d tail hpart hdot ih =>
    obtain ⟨rfl, hd⟩ := hdot
    rw [List.cons_append, List.cons_append, nameTail_dot _ hd, ← List.cons_append, ih htail]
  | case4 => cases htail
  | case5 => cases htail

end Name

/-! ## Which lexemes can be written -/

namespace Lexeme

/-- The lexeme can be written. -/
def IsProper : Lexeme → Prop
  | name text => Name.isQualified text = true
  | quoted content => '"' ∉ content.toList
  | joiner | mark _ => True

/-- A mark comes next, or nothing. -/
def MarkFollows (next : List Lexeme) : Prop := ∀ l ∈ next.head?, ∃ m, l = mark m

/-- The lexeme is read as itself before what follows it. -/
def EndsBefore : Lexeme → List Lexeme → Prop
  | name _, next => MarkFollows next
  | joiner, next => ∃ content, next.head? = some (quoted content)
  | quoted _, _ | mark _, _ => True

/-- Each of the lexemes is read as itself before those behind it. -/
def Separable : List Lexeme → Prop
  | [] => True
  | l :: next => l.EndsBefore next ∧ Separable next

/-- The characters of lexemes side by side. -/
def spell (ls : List Lexeme) : List Char := ls.flatMap fun l => l.text.toList

end Lexeme

namespace Token

open Lexeme Text

variable {l : Lexeme} {ls next : List Lexeme} {cs : List Char}

/-! ## What is read can be written -/

/-- What stands before the first separator has none in it. -/
theorem not_mem_cutAt (separator : Char) (cs : List Char) :
    separator ∉ (cutAt separator cs).1 := by
  fun_induction cutAt separator cs with
  | case1 => simp
  | case2 cs => simp
  | case3 c cs hne ih => simp [ih, Ne.symm hne]

/-- **What is read can be written.** Names are cut at the first character that cannot go on, and
literals at the first quotation mark. -/
theorem readLexeme?_proper (h : readLexeme? cs = some l) : l.IsProper := by
  cases cs with
  | nil => cases h
  | cons c cs =>
    rw [readLexeme?] at h
    split at h
    · split at h
      · next content _ hcut =>
        cases h
        have hcontent : content = (cutAt '"' cs).1 := by rw [hcut]
        show '"' ∉ (String.ofList content).toList
        rw [String.toList_ofList, hcontent]
        exact not_mem_cutAt _ _
      · cases h
    · split at h
      · cases h
        trivial
      · split at h
        · next hstart =>
          cases h
          show Name.isQualified _ = true
          simp [Name.isQualified, Name.nameTail_taken, hstart]
        · obtain ⟨m, -, rfl⟩ := Option.map_eq_some_iff.1 h
          trivial

/-- A scan passes over the first character, reads a lexeme there, or finds none. -/
theorem scan_cons (skip offset : Nat) (c : Char) (cs : List Char) : ∃ skip',
    scan skip offset (c :: cs) = scan skip' (offset + 1) cs ∨
      (∃ lexeme, readLexeme? (c :: cs) = some lexeme ∧
        scan skip offset (c :: cs) = (scan skip' (offset + 1) cs).map ({ lexeme, offset } :: ·)) ∨
      scan skip offset (c :: cs) = .error { fault := stuckAt c, offset } := by
  cases skip with
  | succ skip => exact ⟨skip, .inl rfl⟩
  | zero =>
    rw [scan]
    split
    · exact ⟨0, .inl rfl⟩
    · cases hread : readLexeme? (c :: cs) with
      | some lexeme => exact ⟨lexeme.width - 1, .inr (.inl ⟨lexeme, rfl, rfl⟩)⟩
      | none => exact ⟨0, .inr (.inr rfl)⟩

/-- The same of all tokens of a text. -/
theorem scan_proper {skip offset : Nat} {ts : List Token} (h : scan skip offset cs = .ok ts) :
    ∀ t ∈ ts, t.lexeme.IsProper := by
  induction cs generalizing skip offset ts with
  | nil =>
    unfold scan at h
    cases h
    simp
  | cons c cs ih =>
    obtain ⟨skip', hpass | ⟨lexeme, hread, htoken⟩ | hstuck⟩ := scan_cons skip offset c cs
    · exact ih (hpass.symm.trans h)
    · obtain ⟨rest, hrest, rfl⟩ := map_eq_ok.1 (htoken.symm.trans h)
      exact List.forall_mem_cons.2 ⟨readLexeme?_proper hread, ih hrest⟩
    · cases hstuck.symm.trans h

end Token

/-- **The tokens of a text can be written.** -/
theorem tokenize_proper {raw : String} {ts : List Token} (h : tokenize raw = .ok ts) :
    ∀ l ∈ ts.map Token.lexeme, l.IsProper := by
  have hscan : Token.scan 0 0 raw.toList = .ok ts := mapError_eq_ok.1 h
  intro l hl
  obtain ⟨t, ht, rfl⟩ := List.mem_map.1 hl
  exact Token.scan_proper hscan t ht

namespace Token

open Lexeme Text

variable {l : Lexeme} {ls next : List Lexeme} {cs : List Char}

/-! ## What is written is read -/

/-- Each mark is a character of its own that begins nothing else. -/
theorem readLexeme?_mark (m : Mark) (cs : List Char) :
    readLexeme? (m.toChar :: cs) = some (.mark m) := by
  cases m <;> rfl

theorem readLexeme?_joiner (cs : List Char) : readLexeme? ('_' :: '"' :: cs) = some .joiner := rfl

/-- A text without the separator is cut off before it. -/
theorem cutAt_append {separator : Char} {content : List Char} (h : separator ∉ content)
    (cs : List Char) : cutAt separator (content ++ separator :: cs) = (content, some cs) := by
  induction content with
  | nil => simp [cutAt]
  | cons c content ih =>
    rw [List.mem_cons, not_or] at h
    simp [cutAt, Ne.symm h.1, ih h.2]

/-- A cut text is what stands before the separator, the separator, and the rest. -/
theorem eq_append_of_cutAt {separator : Char} {before after : List Char}
    (h : cutAt separator cs = (before, some after)) : cs = before ++ separator :: after := by
  induction cs generalizing before with
  | nil => cases h
  | cons c cs ih =>
    rw [cutAt] at h
    split at h
    · next hc =>
      cases h
      rw [hc]
      rfl
    · rw [Prod.mk.injEq] at h
      obtain ⟨rfl, hafter⟩ := h
      rw [List.cons_append, ← ih (Prod.ext rfl hafter)]

/-- A literal ends with the first quotation mark, and has none inside. -/
theorem readLexeme?_quoted {content : String} (h : '"' ∉ content.toList) (cs : List Char) :
    readLexeme? ('"' :: (content.toList ++ '"' :: cs)) = some (.quoted content) := by
  simp [readLexeme?, cutAt_append h]

/-- No mark continues a name, and none is taken for a blank or a quote. -/
theorem mark_toChar (m : Mark) : Name.isPart m.toChar = false ∧ m.toChar ≠ '.' ∧
    Character.isBlank m.toChar = false ∧ m.toChar ≠ '"' := by
  cases m <;> decide

theorem not_quotedFollows (h : ∀ c ∈ cs.head?, Character.isBlank c = false ∧ c ≠ '"') :
    ¬ quotedFollows cs = true := by
  cases cs with
  | nil => simp [quotedFollows, trimStart]
  | cons c cs =>
    obtain ⟨hblank, hquote⟩ := h c rfl
    simp [quotedFollows, trimStart, hblank, hquote]

/-- A name is read as a whole before a mark and at the end. If it starts with an
underscore, that is no joiner, because no blank and no quote comes next. -/
theorem readLexeme?_name {c : Char} {tail : List Char} (hstart : Name.isStart c = true)
    (htail : (Name.nameTail tail).2 = []) (hcs : ∀ d ∈ cs.head?, ∃ m : Mark, d = m.toChar) :
    readLexeme? (c :: (tail ++ cs)) = some (.name (String.ofList (c :: tail))) := by
  have hquote : c ≠ '"' := by
    rintro rfl
    cases hstart
  have hfollows : ¬ quotedFollows (tail ++ cs) = true := by
    apply not_quotedFollows
    intro d hd
    cases tail with
    | nil =>
      obtain ⟨m, rfl⟩ := hcs d hd
      exact (mark_toChar m).2.2
    | cons d' tail =>
      cases hd
      rcases Name.isPart_or_dot htail with hpart | rfl
      · refine ⟨Name.isBlank_of_isPart hpart, ?_⟩
        rintro rfl
        cases hpart
      · decide
  have hname : Name.nameTail (tail ++ cs) = (tail, cs) := by
    refine Name.nameTail_append htail fun d hd => ?_
    obtain ⟨m, rfl⟩ := hcs d hd
    exact ⟨(mark_toChar m).1, (mark_toChar m).2.1⟩
  rw [readLexeme?, if_neg hquote, if_neg fun h => hfollows h.2, if_pos hstart, hname]

/-- Characters of the lexeme just read are skipped, and the offsets go on being counted. -/
theorem scan_skip (skipped cs : List Char) (offset : Nat) :
    scan skipped.length offset (skipped ++ cs) = scan 0 (offset + skipped.length) cs := by
  induction skipped generalizing offset with
  | nil => rfl
  | cons c skipped ih =>
    rw [List.length_cons, List.cons_append, scan, ih]
    congr 1
    omega

/-- A lexeme that is read where a text starts is the first token of the text. -/
theorem scan_chunk {c : Char} {tail : List Char} (htext : l.text.toList = c :: tail)
    (hblank : Character.isBlank c = false) (hread : readLexeme? (c :: (tail ++ cs)) = some l)
    (offset : Nat) : scan 0 offset (l.text.toList ++ cs) =
      (scan 0 (offset + l.width) cs).map ({ lexeme := l, offset } :: ·) := by
  have hwidth : l.width = tail.length + 1 := by
    rw [Lexeme.width, ← String.length_toList, htext, List.length_cons]
  rw [htext, List.cons_append, scan]
  simp only [hblank, hread, Bool.false_eq_true, if_false]
  rw [hwidth, Nat.add_sub_cancel, scan_skip]
  congr 2
  omega

/-- **A written lexeme is read as one chunk**, wherever it can end. -/
theorem scan_lexeme (hproper : l.IsProper) (hends : l.EndsBefore next) (offset : Nat) :
    scan 0 offset (l.text.toList ++ spell next) =
      (scan 0 (offset + l.width) (spell next)).map ({ lexeme := l, offset } :: ·) := by
  cases l with
  | mark m =>
    have hblank := (mark_toChar m).2.2.1
    have htext : (mark m).text.toList = [m.toChar] := by simp [text]
    exact scan_chunk htext hblank (readLexeme?_mark m _) offset
  | joiner =>
    -- a joiner ends at the quotation mark behind it
    obtain ⟨content, hcontent⟩ := hends
    obtain ⟨rest, rfl⟩ := List.head?_eq_some_iff.1 hcontent
    have hspell : spell (quoted content :: rest) =
        '"' :: (content.toList ++ '"' :: spell rest) := by
      simp [spell, text]
    rw [hspell]
    exact scan_chunk rfl (by decide) (readLexeme?_joiner _) offset
  | quoted content =>
    have htext : (quoted content).text.toList = '"' :: (content.toList ++ ['"']) := by
      simp [text]
    have hread := readLexeme?_quoted hproper (spell next)
    exact scan_chunk htext (by decide) (by simpa using hread) offset
  | name t =>
    -- a name ends where a mark follows or nothing, and no mark goes on with a name
    have hnext : ∀ d ∈ (spell next).head?, ∃ m : Mark, d = m.toChar := by
      cases next with
      | nil => simp [spell]
      | cons l next =>
        obtain ⟨m, rfl⟩ := hends l rfl
        intro d hd
        exact ⟨m, by simpa [spell, text, eq_comm] using hd⟩
    have hqualified : Name.isQualified t = true := hproper
    unfold Name.isQualified at hqualified
    cases hchars : t.toList with
    | nil => simp [hchars] at hqualified
    | cons c tail =>
      simp only [hchars, Bool.and_eq_true, List.isEmpty_iff] at hqualified
      obtain ⟨hstart, htail⟩ := hqualified
      have hread := readLexeme?_name hstart htail hnext
      rw [← hchars, String.ofList_toList] at hread
      have hblank := Name.isBlank_of_isPart (Name.isPart_of_isStart hstart)
      have htext : (name t).text.toList = c :: tail := hchars
      exact scan_chunk htext hblank hread offset

/-- **Separable lexemes are the tokens of their text.** -/
theorem scan_spell (hproper : ∀ l ∈ ls, l.IsProper) (h : Separable ls) (offset : Nat) :
    ∃ ts, scan 0 offset (spell ls) = .ok ts ∧ ts.map Token.lexeme = ls := by
  induction ls generalizing offset with
  | nil => exact ⟨[], rfl, rfl⟩
  | cons l ls ih =>
    obtain ⟨hends, hrest⟩ := h
    rw [List.forall_mem_cons] at hproper
    obtain ⟨ts, hts, hlexemes⟩ := ih hproper.2 hrest (offset + l.width)
    refine ⟨{ lexeme := l, offset } :: ts, ?_, by rw [List.map_cons, hlexemes]⟩
    have hspell : spell (l :: ls) = l.text.toList ++ spell ls := rfl
    rw [hspell, scan_lexeme hproper.1 hends, hts]
    rfl

end Token

/-- **What is written is read**, for lexemes that can be written and that stand apart. -/
theorem tokenize_spelled {ls : List Lexeme} (hproper : ∀ l ∈ ls, l.IsProper)
    (h : Lexeme.Separable ls) : ∃ ts,
    tokenize (String.join (ls.map Lexeme.text)) = .ok ts ∧ ts.map Token.lexeme = ls := by
  obtain ⟨ts, hts, hlexemes⟩ := Token.scan_spell hproper h 0
  refine ⟨ts, ?_, hlexemes⟩
  have hchars : (String.join (ls.map Lexeme.text)).toList = Lexeme.spell ls := by
    rw [String.toList_join, Lexeme.spell, List.flatMap_map]
  rw [tokenize, hchars, hts]
  rfl

end WidgetSchema
