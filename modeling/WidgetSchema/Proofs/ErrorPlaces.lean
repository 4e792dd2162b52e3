/-
Where errors point.

The tokens of a text stand in it one behind the other, and every fault stands at a
token, at a character that starts none, or at the end. A text that is rejected for no
side condition of the grammar is rejected at its first wrong token
(`rejected_at_first_wrong_token`).

A field is read from a text of its own, of which the parser sees a trimmed part. Its
faults are moved by the blanks in front of that part, and the faults of its tags stand
at words of the declared text. So all of them point into the text as it was declared,
and what stands there is what was rejected (`field_errors_point_into_declaration`).
-/
import Mathlib.Data.List.Infix
import Mathlib.Data.List.Nodup
import WidgetSchema.Proofs.FirstWrongToken
import WidgetSchema.Proofs.Redeclaration
import WidgetSchema.Proofs.TagExtraction

set_option autoImplicit false

namespace WidgetSchema

open Grammar

/-! ## Where tokens stand -/

namespace Token

variable {skip offset : Nat} {cs : List Char}

/-- **Tokens stand in the text, one behind the other.** -/
theorem scan_offsets {ts : List Token} (h : scan skip offset cs = .ok ts) :
    ts.Pairwise (fun t t' => t.offset < t'.offset) ∧
      ∀ t ∈ ts, offset ≤ t.offset ∧ t.offset < offset + cs.length := by
  induction cs generalizing skip offset ts with
  | nil =>
    unfold scan at h
    cases h
    simp
  | cons c cs ih =>
    have hlater {skip' : Nat} {ts' : List Token} (h' : scan skip' (offset + 1) cs = .ok ts') :
        ∀ t ∈ ts', offset < t.offset ∧ t.offset < offset + (c :: cs).length := by
      intro t ht
      have hbounds := (ih h').2 t ht
      rw [List.length_cons]
      omega
    obtain ⟨skip', hpass | ⟨lexeme, -, htoken⟩ | hstuck⟩ := scan_cons skip offset c cs
    · rw [hpass] at h
      exact ⟨(ih h).1, fun t ht => ⟨Nat.le_of_lt (hlater h t ht).1, (hlater h t ht).2⟩⟩
    · obtain ⟨rest, hrest, rfl⟩ := map_eq_ok.1 (htoken.symm.trans h)
      refine ⟨List.pairwise_cons.2 ⟨fun t ht => (hlater hrest t ht).1, (ih hrest).1⟩,
        List.forall_mem_cons.2 ⟨⟨Nat.le_refl _, ?_⟩, fun t ht => ?_⟩⟩
      · exact Nat.lt_add_of_pos_right (Nat.succ_pos _)
      · exact ⟨Nat.le_of_lt (hlater hrest t ht).1, (hlater hrest t ht).2⟩
    · cases hstuck.symm.trans h

/-- A text without tokens is refused at the character that starts none. -/
theorem scan_stuck {f : LocatedFault} (h : scan skip offset cs = .error f) :
    f.offset < offset + cs.length := by
  induction cs generalizing skip offset with
  | nil =>
    unfold scan at h
    cases h
  | cons c cs ih =>
    have hlater {skip' : Nat} (h' : scan skip' (offset + 1) cs = .error f) :
        f.offset < offset + (c :: cs).length := by
      have hinside := ih h'
      rw [List.length_cons]
      omega
    obtain ⟨skip', hpass | ⟨lexeme, -, htoken⟩ | hstuck⟩ := scan_cons skip offset c cs
    · exact hlater (hpass.symm.trans h)
    · exact hlater (map_eq_error.1 (htoken.symm.trans h))
    · cases hstuck.symm.trans h
      exact Nat.lt_add_of_pos_right (Nat.succ_pos _)

end Token

namespace TypeExpr

variable {raw : String} {ts : List Token} {e : SyntaxError}

theorem tokenize_eq_ok : tokenize raw = .ok ts ↔ Token.scan 0 0 raw.toList = .ok ts :=
  mapError_eq_ok

/-- What is rejected has no tokens or fails among them. -/
theorem parse_eq_error : TypeExpr.parse raw = .error e ↔
    ∃ f : LocatedFault, e = f.toSyntaxError raw ∧ (Token.scan 0 0 raw.toList = .error f ∨
      ∃ ts, tokenize raw = .ok ts ∧ Parsing.whole raw.length ts = .error f) := by
  rw [TypeExpr.parse, bind_eq_error]
  simp only [tokenize, mapError_eq_error, mapError_eq_ok]
  constructor
  · rintro (⟨f, hf, rfl⟩ | ⟨ts, hts, f, hf, rfl⟩)
    · exact ⟨f, rfl, .inl hf⟩
    · exact ⟨f, rfl, .inr ⟨ts, hts, hf⟩⟩
  · rintro ⟨f, rfl, hf | ⟨ts, hts, hf⟩⟩
    · exact .inl ⟨f, hf, rfl⟩
    · exact .inr ⟨ts, hts, f, hf, rfl⟩

/-- **An error points into the text that was read**, or to its end. -/
theorem offset_le_of_parse (h : TypeExpr.parse raw = .error e) :
    e.raw = raw ∧ e.offset ≤ raw.length := by
  obtain ⟨f, rfl, hf⟩ := parse_eq_error.1 h
  refine ⟨rfl, ?_⟩
  show f.offset ≤ raw.length
  rcases hf with hscan | ⟨ts, hts, hwhole⟩
  · have hinside := Token.scan_stuck hscan
    rw [String.length_toList] at hinside
    omega
  · have hplace := (Parsing.whole_fails hwhole).mem_places
    rw [Parsing.places, List.mem_append, List.mem_singleton, List.mem_map] at hplace
    rcases hplace with ⟨t, ht, hoffset⟩ | hoffset
    · have hinside := (Token.scan_offsets (tokenize_eq_ok.1 hts)).2 t ht
      rw [String.length_toList] at hinside
      omega
    · exact Nat.le_of_eq hoffset

/-- **A text is rejected at its first wrong token**, unless it breaks a side condition.
The tokens before the offset of the error begin some expression; with the token at that
offset they begin none, and at the end of the text they are none. -/
theorem rejected_at_first_wrong_token (raw : String) (ts : List Token) (e : SyntaxError)
    (htokens : tokenize raw = .ok ts) (hrejected : TypeExpr.parse raw = .error e)
    (hreason : ¬ e.fault.IsSideCondition) :
    ∃ before after, ts = before ++ after ∧
      (∀ t ∈ before, t.offset < e.offset) ∧ (∀ t ∈ after, e.offset ≤ t.offset) ∧
      (∃ t : Tree .expression, before.map Token.lexeme <+: t.yield ∧ ∀ l ∈ t.yield, l.IsProper) ∧
      (after = [] ∧ e.offset = raw.length ∧
          (∀ t : Tree .expression, t.yield ≠ before.map Token.lexeme) ∨
        ∃ wrong rest, after = wrong :: rest ∧ e.offset = wrong.offset ∧
          ∀ t : Tree .expression, ¬ before.map Token.lexeme ++ [wrong.lexeme] <+: t.yield) := by
  obtain ⟨hascending, hinside⟩ := Token.scan_offsets (tokenize_eq_ok.1 htokens)
  obtain ⟨f, rfl, hscan | ⟨ts', hts', hwhole⟩⟩ := parse_eq_error.1 hrejected
  · rw [tokenize_eq_ok, hscan] at htokens
    cases htokens
  rw [htokens] at hts'
  cases hts'
  rcases Parsing.whole_fails hwhole with
    ⟨hside, -⟩ | ⟨ls, after, s, hspans, hoffset, hbegins, hfollow, hrefuses⟩
  · exact absurd hside hreason
  -- the tokens in front lead to a standing that refuses the next one
  obtain ⟨before, rfl, rfl⟩ := hspans.exists_append
  have hproper := tokenize_proper htokens
  rw [List.map_append, List.forall_mem_append] at hproper
  obtain ⟨more, ⟨t, ht⟩, hmore⟩ := hbegins
  have hbegin : ∃ t : Tree .expression, before.map Token.lexeme <+: t.yield ∧
      ∀ l ∈ t.yield, l.IsProper := by
    refine ⟨t, ⟨more, ht.symm⟩, ?_⟩
    rw [ht]
    exact List.forall_mem_append.2 ⟨hproper.1, hmore⟩
  have hplace : (f.toSyntaxError raw).offset = Parsing.nextOffset raw.length after := hoffset
  rw [List.pairwise_append] at hascending
  rw [hplace]
  cases after with
  | nil =>
    refine ⟨before, [], rfl, fun t ht => ?_, List.forall_mem_nil _, hbegin,
      .inl ⟨rfl, rfl, yield_ne hfollow hrefuses⟩⟩
    have hlast := (hinside t (List.mem_append_left _ ht)).2
    rw [String.length_toList] at hlast
    show t.offset < raw.length
    omega
  | cons wrong rest =>
    refine ⟨before, wrong :: rest, rfl, fun t ht => ?_, ?_, hbegin,
      .inr ⟨wrong, rest, rfl, rfl, not_prefix_yield hfollow hrefuses⟩⟩
    · exact hascending.2.2 t ht wrong List.mem_cons_self
    · have hrest := List.pairwise_cons.1 hascending.2.1
      exact List.forall_mem_cons.2 ⟨Nat.le_refl _, fun t ht => Nat.le_of_lt (hrest.1 t ht)⟩

/-- A list of arguments whose bracket is closed by an angle. -/
def mismatched : String := "Pair(A?,[B>)"

/-- The tokens in front of the angle. -/
def mismatchedStart : List Token :=
  [⟨.name "Pair", 0⟩, ⟨.mark .openParen, 4⟩, ⟨.name "A", 5⟩, ⟨.mark .question, 6⟩,
    ⟨.mark .comma, 7⟩, ⟨.mark .openBracket, 8⟩, ⟨.name "B", 9⟩]

/-- They begin an expression, and with the angle they begin none. -/
theorem mismatched_rejected :
    (∃ t : Tree .expression, mismatchedStart.map Token.lexeme <+: t.yield) ∧
      ∀ t : Tree .expression,
        ¬ mismatchedStart.map Token.lexeme ++ [.mark .closeAngle] <+: t.yield := by
  have htokens : tokenize mismatched =
      .ok (mismatchedStart ++ [⟨.mark .closeAngle, 10⟩, ⟨.mark .closeParen, 11⟩]) := rfl
  have hrejected : TypeExpr.parse mismatched =
      .error ⟨.expectedToken "]" (some (.mark .closeAngle)), mismatched, 10⟩ := rfl
  obtain ⟨before, after, hsplit, hbefore, hafter, ⟨t, hbegins, -⟩, hwrong⟩ :=
    rejected_at_first_wrong_token mismatched _ _ htokens hrejected fun hside => hside
  have hstart : (before ++ after).filter (fun t => t.offset < 10) = before := by
    rw [List.filter_append, List.filter_eq_self.2 (by simpa using hbefore),
      List.filter_eq_nil_iff.2 (by simpa using hafter), List.append_nil]
  have hbefore : mismatchedStart = before := by
    rw [← hstart, ← hsplit]
    rfl
  subst hbefore
  cases List.append_cancel_left hsplit
  refine ⟨⟨t, hbegins⟩, ?_⟩
  rcases hwrong with ⟨hnil, -⟩ | ⟨wrong, rest, hcons, -, hnone⟩
  · cases hnil
  · cases hcons
    exact hnone

end TypeExpr

/-! ## Trimmed texts in their place -/

namespace Text

variable {start : Nat} {cs ds : List Char}

theorem trimEnd_prefix (cs : List Char) : trimEnd cs <+: cs := by
  obtain ⟨after, hsplit, -⟩ := exists_trailing cs
  exact ⟨after, hsplit.symm⟩

/-- Trimming leaves what stands behind the leading blanks. -/
theorem trim_prefix_trimStart (cs ds : List Char) : trim cs <+: trimStart (cs ++ ds) := by
  have htrim : trim cs <+: trimStart cs := trimEnd_prefix _
  rw [trimStart, List.dropWhile_append]
  split
  · next hempty =>
    have hnil : trimStart cs = [] := List.isEmpty_iff.1 hempty
    rw [hnil, List.prefix_nil] at htrim
    rw [htrim]
    exact List.nil_prefix
  · exact htrim.trans (List.prefix_append _ _)

/-- The leading blanks are as many as the characters that trimming takes away. -/
theorem drop_leading (cs : List Char) :
    cs.drop (cs.length - (trimStart cs).length) = trimStart cs :=
  (List.suffix_iff_eq_drop.1 (List.dropWhile_suffix Character.isBlank)).symm

/-- Words stand in the text they are words of. -/
theorem words_inside {p : Nat × List Char} (h : p ∈ words start cs) :
    start ≤ p.1 ∧ p.1 + p.2.length ≤ start + cs.length := by
  induction cs generalizing start p with
  | nil => cases h
  | cons c cs ih =>
    -- words of the rest of the text start one place later
    have hlater {q : Nat × List Char} (hq : q ∈ words (start + 1) cs) :
        start + 1 ≤ q.1 ∧ q.1 + q.2.length ≤ start + (c :: cs).length := by
      have hinside := ih hq
      rw [List.length_cons]
      omega
    have hkept {q : Nat × List Char} (hq : q ∈ words (start + 1) cs) :
        start ≤ q.1 ∧ q.1 + q.2.length ≤ start + (c :: cs).length :=
      ⟨Nat.le_of_succ_le (hlater hq).1, (hlater hq).2⟩
    have hsingle : start ≤ start ∧ start + [c].length ≤ start + (c :: cs).length := by
      simp
    rw [words.eq_def] at h
    dsimp only at h
    split at h
    · exact hkept h
    · split at h
      · next d tail place w rest hwords =>
        have hfirst := hlater (q := (place, w)) (by rw [hwords]; exact List.mem_cons_self)
        split at h
        · rcases List.mem_cons.1 h with rfl | h
          · exact hsingle
          · rw [← hwords] at h
            exact hkept h
        · rcases List.mem_cons.1 h with rfl | h
          · -- the word got longer at its start
            have hlonger : (c :: w).length = w.length + 1 := List.length_cons
            dsimp only at hfirst ⊢
            omega
          · exact hkept (by rw [hwords]; exact List.mem_cons_of_mem _ h)
      · rcases List.mem_cons.1 h with rfl | h
        · exact hsingle
        · exact hkept h

end Text

/-! ## Faults of tags -/

namespace Tagging

variable {strict : Bool} {stop : Nat} {f : LocatedFault}

theorem split_append_eq (quoted : Bool) (cs : List Char) :
    (split quoted cs).1 ++ (split quoted cs).2 = cs := by
  induction cs generalizing quoted with
  | nil => rfl
  | cons c cs ih =>
    rw [split]
    split
    · rfl
    · exact congrArg (c :: ·) (ih _)

/-- The fault of a word stands at the word or in it. -/
theorem readTag_eq_error {word : List Char} {offset : Nat} (h : readTag word offset = .error f) :
    f.offset ≤ offset + word.length := by
  unfold readTag at h
  dsimp only at h
  split at h
  · next body =>
    split at h
    · cases h
      exact Nat.le_add_right ..
    · next key value hcut =>
      split_ifs at h with hempty hkey hvalue
      · cases h
        exact Nat.le_add_right ..
      · cases h
        exact Nat.le_add_right ..
      · cases h
        -- the value stands behind the mark, the key and the equals sign
        have hbody := congrArg List.length (Token.eq_append_of_cutAt hcut)
        rw [List.length_append, List.length_cons] at hbody
        rw [List.length_cons]
        dsimp only
        omega
  · cases h
    exact Nat.le_add_right ..

theorem checkValue_eq_error {key value : String} {offset : Nat}
    (h : (checkValue strict key value offset).outcome = .error f) : f.offset = offset := by
  unfold checkValue at h
  split at h
  · cases h
  · split at h
    · cases h
      rfl
    · cases h

/-- The faults of words stand where the words do. -/
theorem readTags_eq_error {words : List (Nat × List Char)} {soFar : TagSet}
    (hwords : ∀ p ∈ words, p.1 + p.2.length ≤ stop)
    (h : (readTags strict soFar words).outcome = .error f) : f.offset ≤ stop := by
  induction words generalizing soFar with
  | nil => cases h
  | cons p words ih =>
    obtain ⟨offset, word⟩ := p
    rw [List.forall_mem_cons] at hwords
    have hword : offset + word.length ≤ stop := hwords.1
    rw [readTags] at h
    split at h
    · next e hread =>
      cases h
      exact Nat.le_trans (readTag_eq_error hread) hword
    · next key value hread =>
      split at h
      · cases h
        exact Nat.le_of_add_right_le hword
      · have hseq : (checkValue strict key value offset >>=
            fun _ => readTags strict (soFar.insert key value) words).outcome = .error f := h
        rw [Noted.outcome_bind, bind_eq_error] at hseq
        rcases hseq with hvalue | ⟨-, -, hrest⟩
        · rw [checkValue_eq_error hvalue]
          exact Nat.le_of_add_right_le hword
        · exact ih hwords.2 hrest

end Tagging

/-! ## Faults of fields -/

section Fields

variable {strict : Bool} {raw place : String} {e : SyntaxError}

theorem extractTags_eq_error (h : (extractTags strict raw).outcome = .error e) :
    e.raw = raw ∧ e.offset ≤ raw.length := by
  have hseq : ((Tagging.readTags strict .empty (Text.words (Tagging.split false raw.toList).1.length
      (Tagging.split false raw.toList).2)).mapError (LocatedFault.toSyntaxError raw) >>=
        fun tags => .done (String.ofList (Text.trim (Tagging.split false raw.toList).1),
          tags)).outcome = .error e := h
  rw [Noted.outcome_bind, Noted.outcome_mapError, bind_eq_error] at hseq
  rcases hseq with htags | ⟨tags, -, hdone⟩
  · obtain ⟨f, hf, rfl⟩ := mapError_eq_error.1 htags
    -- the words of the tags stand behind the cut
    refine ⟨rfl, Tagging.readTags_eq_error (fun p hp => ?_) hf⟩
    have hlength := congrArg List.length (Tagging.split_append_eq false raw.toList)
    rw [List.length_append, String.length_toList] at hlength
    have hinside := (Text.words_inside hp).2
    omega
  · cases hdone

/-- An error in the type of a field is moved to where the type stands. -/
theorem inDeclaration_points {text : String} {tags : TagSet}
    (hcut : (extractTags strict raw).outcome = .ok (text, tags))
    (he : TypeExpr.parse text = .error e) :
    (e.inDeclaration raw).offset ≤ raw.length ∧
      text.toList.drop e.offset <+: raw.toList.drop (e.inDeclaration raw).offset := by
  have hoffset := (TypeExpr.offset_le_of_parse he).2
  have htext : text.toList = Text.trim (Tagging.split false raw.toList).1 := by
    rw [← (extractTags_eq_ok.1 hcut).2, String.toList_ofList]
  -- the type stands where the leading blanks end
  have hprefix : text.toList <+: Text.trimStart raw.toList := by
    have hwhole := Tagging.split_append_eq false raw.toList
    rw [htext]
    conv => rhs; rw [← hwhole]
    exact Text.trim_prefix_trimStart _ _
  have hleading : (Text.trimStart raw.toList).length ≤ raw.length := by
    rw [← String.length_toList]
    exact (List.dropWhile_sublist _).length_le
  constructor
  · have hlength := hprefix.length_le
    rw [String.length_toList] at hlength
    show e.offset + (raw.length - (Text.trimStart raw.toList).length) ≤ raw.length
    omega
  · show _ <+: raw.toList.drop (e.offset + (raw.length - (Text.trimStart raw.toList).length))
    rw [Nat.add_comm, ← List.drop_drop, ← String.length_toList, Text.drop_leading]
    exact hprefix.drop _

/-- Building a field fails with its tags or with its type. -/
theorem FieldDef.build_eq_error : (FieldDef.build strict place raw).outcome = .error e ↔
    (∃ e', (extractTags strict raw).outcome = .error e' ∧ e = e'.within place) ∨
      ∃ text tags e', (extractTags strict raw).outcome = .ok (text, tags) ∧
        TypeExpr.parse text = .error e' ∧ e = (e'.inDeclaration raw).within place := by
  simp only [FieldDef.build, Noted.outcome_bind, Noted.outcome_mapError, bind_eq_error,
    mapError_eq_error, mapError_eq_ok, Noted.outcome_pure, Noted.ofExcept]
  constructor
  · rintro (⟨e', hcut, rfl⟩ | ⟨⟨text, tags⟩, hcut, ⟨e', he, rfl⟩ | ⟨expression, -, hnone⟩⟩)
    · exact .inl ⟨e', hcut, rfl⟩
    · exact .inr ⟨text, tags, e', hcut, he, rfl⟩
    · cases hnone
  · rintro (⟨e', hcut, rfl⟩ | ⟨text, tags, e', hcut, he, rfl⟩)
    · exact .inl ⟨e', hcut, rfl⟩
    · exact .inr ⟨(text, tags), hcut, .inl ⟨e', he, rfl⟩⟩

/-- **An error of a field names the field and points into its declared text.** -/
theorem FieldDef.build_points (h : (FieldDef.build strict place raw).outcome = .error e) :
    (∃ cause, e.fault = .within place cause) ∧ e.raw = raw ∧ e.offset ≤ raw.length ∧
      ∀ text tags rejected, (extractTags strict raw).outcome = .ok (text, tags) →
        TypeExpr.parse text = .error rejected → e.fault = .within place rejected.fault ∧
          text.toList.drop rejected.offset <+: raw.toList.drop e.offset := by
  rcases FieldDef.build_eq_error.1 h with ⟨e', hcut, rfl⟩ | ⟨text, tags, e', hcut, he, rfl⟩
  · obtain ⟨hraw, hoffset⟩ := extractTags_eq_error hcut
    refine ⟨⟨e'.fault, rfl⟩, hraw, hoffset, fun text tags rejected hcut' => ?_⟩
    rw [hcut] at hcut'
    cases hcut'
  · obtain ⟨hoffset, hdrop⟩ := inDeclaration_points hcut he
    refine ⟨⟨e'.fault, rfl⟩, rfl, hoffset, fun text' tags' rejected hcut' hrejected => ?_⟩
    rw [hcut] at hcut'
    cases hcut'
    rw [he] at hrejected
    cases hrejected
    exact ⟨rfl, hdrop⟩

/-- Building fields fails with one of them. -/
theorem buildFields_eq_error {owner : String} {raws : List (String × String)}
    (h : (buildFields strict owner raws).outcome = .error e) :
    ∃ field ∈ raws,
      (FieldDef.build strict (owner ++ "." ++ field.1) field.2).outcome = .error e := by
  induction raws with
  | nil => cases h
  | cons field raws ih =>
    obtain ⟨name, raw⟩ := field
    simp only [buildFields, Noted.outcome_bind, bind_eq_error] at h
    rcases h with hfirst | ⟨f, -, hrest | ⟨fields, -, hnone⟩⟩
    · exact ⟨(name, raw), List.mem_cons_self, hfirst⟩
    · obtain ⟨field, hmem, hfield⟩ := ih hrest
      exact ⟨field, List.mem_cons_of_mem _ hmem, hfield⟩
    · cases hnone

end Fields

/-! ## Declared fields -/

/-- What the map of some entries holds is one of them. -/
theorem OrderedMap.mem_of_ofList {α : Type} {es : List (String × α)} {key : String} {value : α}
    (h : (key, value) ∈ (ofList es).entries) : (key, value) ∈ es := by
  have hfold (m : OrderedMap α)
      (hfound : (es.foldl (fun m e => m.insert e.1 e.2) m).get? key = some value) :
      m.get? key = some value ∨ (key, value) ∈ es := by
    clear h
    induction es generalizing m with
    | nil => exact .inl hfound
    | cons e es ih =>
      rcases ih _ hfound with hbefore | hmem
      · -- it is the value just given, or an earlier one
        rw [get?_insert] at hbefore
        split at hbefore
        · next hkey =>
          cases hbefore
          rw [hkey]
          exact .inr List.mem_cons_self
        · exact .inl hbefore
      · exact .inr (List.mem_cons_of_mem _ hmem)
  rcases hfold empty (get?_eq_some.2 h) with hnone | hmem
  · cases hnone
  · exact hmem

namespace StructEntry

variable {table : List (Atom × Entry)} {entry : StructEntry} {field declared : String}

theorem mem_of_readFields (h : (field, declared) ∈ (readFields table).1) :
    ∃ key type, (key, type) ∈ table ∧ (Entry.atom key).text? = some field ∧
      type.text? = some declared := by
  induction table with
  | nil => cases h
  | cons row table ih =>
    obtain ⟨key, type⟩ := row
    have hlater (hmem : (field, declared) ∈ (readFields table).1) :
        ∃ key' type', (key', type') ∈ (key, type) :: table ∧
          (Entry.atom key').text? = some field ∧ type'.text? = some declared := by
      obtain ⟨key', type', hmem', htexts⟩ := ih hmem
      exact ⟨key', type', List.mem_cons_of_mem _ hmem', htexts⟩
    rw [readFields] at h
    dsimp only at h
    split at h
    · next k s hkey htype =>
      rcases List.mem_cons.1 h with hfirst | hmem
      · cases hfirst
        exact ⟨key, type, List.mem_cons_self, hkey, htype⟩
      · exact hlater hmem
    all_goals exact hlater h

/-- The fields of a struct entry are rows of its table. -/
theorem declared_of_ofFields (h : ofFields table = .ok entry)
    (hfield : (field, declared) ∈ entry.fields) :
    ∃ key type, (key, type) ∈ table ∧ (Entry.atom key).text? = some field ∧
      type.text? = some declared := by
  unfold ofFields at h
  dsimp only at h
  split at h
  · cases h
    obtain ⟨key, type, hmem, htexts⟩ := mem_of_readFields (OrderedMap.mem_of_ofList hfield)
    exact ⟨key, type, List.mem_of_mem_filter hmem, htexts⟩
  · cases h

end StructEntry

/-! ## Faults of definitions -/

section Definitions

variable {strict : Bool} {owner raw : String} {cause fault : SyntaxFault} {offset : Int}

theorem toSchemaError_within_eq {e : SyntaxError}
    (h : (e.within owner).toSchemaError = .syntaxError fault raw offset) :
    fault = .within owner e.fault := by
  cases h
  rfl

/-- What is wrong with the parameters of a definition names the definition. -/
theorem buildParameters_eq_syntaxError {raws : List String}
    (h : buildParameters owner raws = .error (.syntaxError fault raw offset)) :
    ∃ cause, fault = .within owner cause := by
  rcases bind_eq_error.1 h with hread | ⟨ps, -, hrepeated⟩
  · obtain ⟨e, -, he⟩ := mapError_eq_error.1 hread
    exact ⟨e.fault, toSchemaError_within_eq he⟩
  · split at hrepeated <;> cases hrepeated

/-- What is wrong with the supertype of a definition names the definition. -/
theorem buildSupertype_eq_syntaxError {supertype : Option String}
    (h : buildSupertype owner supertype = .error (.syntaxError fault raw offset)) :
    ∃ cause, fault = .within owner cause := by
  unfold buildSupertype at h
  split at h
  · cases h
  · split at h
    · cases h
    · obtain ⟨e, -, he⟩ := mapError_eq_error.1 (map_eq_error.1 h)
      exact ⟨e.fault, toSchemaError_within_eq he⟩

/-- **A misread text in a struct entry is of the definition or of one of its fields.** -/
theorem StructDef.build_eq_syntaxError {entry : StructEntry}
    (h : (StructDef.build strict owner entry).outcome = .error (.syntaxError fault raw offset)) :
    (∃ cause, fault = .within owner cause) ∨
      ∃ field ∈ entry.fields, ∃ e,
        (FieldDef.build strict (owner ++ "." ++ field.1) field.2).outcome = .error e ∧
          e.toSchemaError = .syntaxError fault raw offset := by
  simp only [StructDef.build, Noted.outcome_bind, Noted.outcome_mapError, bind_eq_error,
    mapError_eq_error, Noted.ofExcept] at h
  rcases h with
    hparameters | ⟨parameters, -, hsupertype | ⟨supertype, -, hfields | ⟨fields, -, hnone⟩⟩⟩
  · exact .inl (buildParameters_eq_syntaxError hparameters)
  · exact .inl (buildSupertype_eq_syntaxError hsupertype)
  · obtain ⟨e, hbuild, he⟩ := hfields
    obtain ⟨field, hmem, hfield⟩ := buildFields_eq_error hbuild
    exact .inr ⟨field, hmem, e, hfield, he⟩
  · cases hnone

/-- A definition and one of its fields are different places, and so are two fields. -/
theorem place_of_field_ne (owner field : String) : owner ++ "." ++ field ≠ owner := by
  intro h
  have hlength := congrArg String.length h
  have hdot : ".".length = 1 := rfl
  rw [String.length_append, String.length_append] at hlength
  omega

/-- **The errors of a field point into its declared text.** If building a struct entry
fails with a misread text of a field, the text of the error is the one the field is
declared by, and the offset lies in it; and if the parser rejected the type in front of
the tags, then what it rejected stands at the offset. -/
theorem field_errors_point_into_declaration (strict : Bool) (owner : String)
    (table : List (Atom × Entry)) (entry : StructEntry) (field declared : String)
    (cause : SyntaxFault) (raw : String) (offset : Int)
    (hentry : StructEntry.ofFields table = .ok entry) (hfield : (field, declared) ∈ entry.fields)
    (hfails : (Definition.build strict owner (.table table)).outcome =
      .error (.syntaxError (.within (owner ++ "." ++ field) cause) raw offset)) :
    (∃ key type, (key, type) ∈ table ∧ (Entry.atom key).text? = some field ∧
        type.text? = some declared) ∧
      raw = declared ∧ 0 ≤ offset ∧ offset ≤ declared.length ∧
      ∀ text tags rejected, (extractTags strict declared).outcome = .ok (text, tags) →
        TypeExpr.parse text = .error rejected → rejected.fault = cause ∧
          text.toList.drop rejected.offset <+: declared.toList.drop offset.toNat := by
  refine ⟨StructEntry.declared_of_ofFields hentry hfield, ?_⟩
  have hstruct : (StructDef.build strict owner entry).outcome =
      .error (.syntaxError (.within (owner ++ "." ++ field) cause) raw offset) := by
    simp only [Definition.build, hentry, Noted.outcome_bind, bind_eq_error] at hfails
    rcases hfails with hbuild | ⟨d, -, hnone⟩
    · exact hbuild
    · cases hnone
  rcases StructDef.build_eq_syntaxError hstruct with
    ⟨cause', hcause⟩ | ⟨⟨name, text⟩, hmem, e, hbuild, he⟩
  · injection hcause with hplace
    exact absurd hplace (place_of_field_ne owner field)
  · obtain ⟨⟨cause', hcause⟩, hraw, hoffset, hrejected⟩ := FieldDef.build_points hbuild
    injection he with hfault hraw' hoffset'
    -- the names of the fields differ, so the error is about this one
    rw [hcause] at hfault
    injection hfault with hplace hcause'
    have hname : name = field := by simpa using hplace
    subst hname
    have hnodup := (StructEntry.fields_of_ofFields hentry).1
    cases List.inj_on_of_nodup_map hnodup hmem hfield rfl
    subst hraw' hoffset' hcause'
    refine ⟨hraw, Int.natCast_nonneg _, ?_, fun text tags rejected hcut hparse => ?_⟩
    · exact Int.ofNat_le.2 hoffset
    · obtain ⟨hsame, hdrop⟩ := hrejected text tags rejected hcut hparse
      rw [hcause] at hsame
      injection hsame with _ hsame
      exact ⟨hsame.symm, hdrop⟩

/-- A table with a field whose type has an operator without a right side. -/
def openEnded : List (Atom × Entry) :=
  [(.text "size", .atom (.text "number @data=both")),
    (.text "label", .atom (.text "  string| @event=client"))]

/-- The error stands behind the operator, in front of the tags. -/
theorem openEnded_points :
    ∃ rejected, TypeExpr.parse "string|" = .error rejected ∧
      rejected.fault = .expectedExpression none ∧
      "string|".toList.drop rejected.offset <+: "  string| @event=client".toList.drop 9 := by
  have hentry : StructEntry.ofFields openEnded = .ok
      ⟨[], none, [("size", "number @data=both"), ("label", "  string| @event=client")]⟩ := rfl
  have hfails : (Definition.build true "Input" (.table openEnded)).outcome =
      .error (.syntaxError (.within ("Input" ++ "." ++ "label") (.expectedExpression none))
        "  string| @event=client" 9) := rfl
  obtain ⟨-, -, -, -, hpoints⟩ := field_errors_point_into_declaration true "Input" openEnded _
    "label" _ _ _ _ hentry (List.mem_cons_of_mem _ List.mem_cons_self) hfails
  have hparse : TypeExpr.parse "string|" = .error ⟨.expectedExpression none, "string|", 7⟩ := rfl
  obtain ⟨hfault, hdrop⟩ := hpoints "string|" (.ofList [("event", "client")]) _ rfl hparse
  exact ⟨_, hparse, hfault, hdrop⟩

end Definitions

end WidgetSchema
