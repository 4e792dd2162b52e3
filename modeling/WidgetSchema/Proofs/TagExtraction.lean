/-
The tags of a field, read once more and read strictly.

What is cut off a field's text in front of its tags holds no tag mark outside quotes,
and trimming drops nothing but blanks, which neither open nor close a quote. So the
trimmed text can be given its tags again, or be read without them: the cut stands
where it stood (`cut_again`), whatever the quoted texts and the values hold.

The two readings of tags go through the same words and differ at a known key with a
value of its own making: lenient reading keeps it, strict reading stops there. Since a
tag once read is never dropped, strict reading ends well exactly if lenient reading
does and every known key in the result means something (`strict_reading_is_lenient`).
-/
import WidgetSchema.Proofs.TagBoundary

set_option autoImplicit false

namespace WidgetSchema

open Character

/-! ## Trimmed texts -/

namespace Text

variable {cs : List Char}

theorem exists_trailing (cs : List Char) :
    ∃ after, cs = trimEnd cs ++ after ∧ ∀ c ∈ after, isBlank c = true := by
  induction cs with
  | nil => exact ⟨[], rfl, by simp⟩
  | cons c cs ih =>
    obtain ⟨after, hsplit, hblank⟩ := ih
    rw [trimEnd]
    cases hkept : trimEnd cs with
    | nil =>
      rw [hkept, List.nil_append] at hsplit
      cases hc : isBlank c with
      | true => exact ⟨c :: cs, by simp, by simpa [hc, hsplit] using hblank⟩
      | false => exact ⟨cs, by simp, by rwa [hsplit]⟩
    | cons d kept =>
      rw [hkept] at hsplit
      exact ⟨after, by rw [List.cons_append, ← hsplit], hblank⟩

/-- **Trimming drops blanks at both ends, and nothing else.** -/
theorem exists_margins (cs : List Char) :
    ∃ before after, cs = before ++ (trim cs ++ after) ∧
      (∀ c ∈ before, isBlank c = true) ∧ ∀ c ∈ after, isBlank c = true := by
  obtain ⟨after, hsplit, hafter⟩ := exists_trailing (trimStart cs)
  refine ⟨cs.takeWhile isBlank, after, ?_, List.all_eq_true.1 List.all_takeWhile, hafter⟩
  rw [trim, ← hsplit]
  exact List.takeWhile_append_dropWhile.symm

theorem getLast?_trimEnd (cs : List Char) : ∀ c ∈ (trimEnd cs).getLast?, isBlank c = false := by
  induction cs with
  | nil => simp [trimEnd]
  | cons c cs ih =>
    rw [trimEnd]
    cases hkept : trimEnd cs with
    | nil => cases hc : isBlank c <;> simp [hc]
    | cons d kept =>
      rw [hkept] at ih
      simpa [List.getLast?_cons_cons] using ih

/-- No blank stands around a trimmed text, unless nothing is left of it. -/
theorem trim_eq_nil_or_tight (cs : List Char) : trim cs = [] ∨ Tight (trim cs) := by
  cases htrim : trim cs with
  | nil => exact .inl rfl
  | cons c kept =>
    have hne : trim cs ≠ [] := by simp [htrim]
    obtain ⟨after, hsplit, -⟩ := exists_trailing (trimStart cs)
    -- the first character left is the one at which the leading blanks ended
    have hhead : (cs.dropWhile isBlank).head? = some c := by
      have hfirst : trimStart cs = c :: (kept ++ after) := by
        rw [hsplit, ← trim, htrim, List.cons_append]
      rw [← trimStart, hfirst, List.head?_cons]
    have hstop := List.head?_dropWhile_not isBlank cs
    rw [hhead] at hstop
    have hlast := getLast?_trimEnd (trimStart cs)
    rw [← trim] at hlast
    rw [← htrim]
    refine .inr ⟨⟨c, by simp [htrim], by simpa using hstop⟩, ?_⟩
    exact ⟨_, List.getLast?_eq_some_getLast hne, hlast _ (List.getLast?_eq_some_getLast hne)⟩

/-- A trimmed text and a blank are trimmed to that text. -/
theorem trim_trim_append_blank {b : Char} (hb : isBlank b = true) (cs : List Char) :
    trim (trim cs ++ [b]) = trim cs := by
  rcases trim_eq_nil_or_tight cs with hnil | htight
  · rw [hnil]
    simp [trim, trimStart, trimEnd, hb]
  · exact htight.trim_append_blank hb

theorem trim_trim (cs : List Char) : trim (trim cs) = trim cs := by
  rcases trim_eq_nil_or_tight cs with hnil | htight
  · rw [hnil]
    rfl
  · exact htight.trim_eq

end Text

/-! ## Texts without a cut -/

namespace Tagging

variable {quoted : Bool} {cs ds : List Char}

/-- The text ends inside quotes; `quoted` says whether it starts there. -/
def endsQuoted (quoted : Bool) (cs : List Char) : Bool :=
  cs.foldl (fun inside c => if c = '"' then !inside else inside) quoted

/-- The text has no tag mark outside quotes. -/
def Uncut (quoted : Bool) (cs : List Char) : Prop := (split quoted cs).2 = []

theorem uncut_cons {c : Char} : Uncut quoted (c :: cs) ↔
    ¬ (c = '@' ∧ quoted = false) ∧ Uncut (if c = '"' then !quoted else quoted) cs := by
  unfold Uncut
  rw [split]
  split_ifs with hcut <;> simp [hcut]

theorem uncut_append :
    Uncut quoted (cs ++ ds) ↔ Uncut quoted cs ∧ Uncut (endsQuoted quoted cs) ds := by
  induction cs generalizing quoted with
  | nil => simp [Uncut, split, endsQuoted]
  | cons c cs ih =>
    rw [List.cons_append, uncut_cons, uncut_cons, ih, and_assoc]
    rfl

/-- Behind a text without a cut, the next text is cut as it is behind its last quote. -/
theorem Uncut.split_append (h : Uncut quoted cs) (rest : List Char) :
    split quoted (cs ++ rest) =
      (cs ++ (split (endsQuoted quoted cs) rest).1, (split (endsQuoted quoted cs) rest).2) := by
  induction cs generalizing quoted with
  | nil => rfl
  | cons c cs ih =>
    obtain ⟨hmark, hrest⟩ := uncut_cons.1 h
    rw [List.cons_append, split, if_neg hmark, ih hrest]
    rfl

theorem Uncut.split_eq (h : Uncut quoted cs) : split quoted cs = (cs, []) := by
  have hsplit := h.split_append []
  rwa [List.append_nil, split, List.append_nil] at hsplit

/-- **What stands in front of a cut has no cut itself**, and ends outside quotes. -/
theorem uncut_before (quoted : Bool) (cs : List Char) :
    Uncut quoted (split quoted cs).1 ∧
      ((split quoted cs).2 ≠ [] → endsQuoted quoted (split quoted cs).1 = false) := by
  induction cs generalizing quoted with
  | nil => simp [Uncut, split]
  | cons c cs ih =>
    by_cases hcut : c = '@' ∧ quoted = false
    · rw [split, if_pos hcut]
      exact ⟨rfl, fun _ => hcut.2⟩
    · obtain ⟨huncut, hends⟩ := ih (if c = '"' then !quoted else quoted)
      rw [split, if_neg hcut]
      exact ⟨uncut_cons.2 ⟨hcut, huncut⟩, hends⟩

theorem endsQuoted_append (quoted : Bool) (cs ds : List Char) :
    endsQuoted quoted (cs ++ ds) = endsQuoted (endsQuoted quoted cs) ds := List.foldl_append

/-- Blanks neither open nor close quotes. -/
theorem endsQuoted_blanks (quoted : Bool) (h : ∀ c ∈ cs, isBlank c = true) :
    endsQuoted quoted cs = quoted := by
  induction cs with
  | nil => rfl
  | cons c cs ih =>
    rw [List.forall_mem_cons] at h
    have hquote : c ≠ '"' := by
      rintro rfl
      exact absurd h.1 (by decide)
    rw [endsQuoted, List.foldl_cons, if_neg hquote]
    exact ih h.2

theorem endsQuoted_trim (quoted : Bool) (cs : List Char) :
    endsQuoted quoted (Text.trim cs) = endsQuoted quoted cs := by
  obtain ⟨before, after, hsplit, hbefore, hafter⟩ := Text.exists_margins cs
  have hwhole : endsQuoted quoted cs = endsQuoted quoted (before ++ (Text.trim cs ++ after)) :=
    congrArg _ hsplit
  rw [hwhole, endsQuoted_append, endsQuoted_append, endsQuoted_blanks _ hbefore,
    endsQuoted_blanks _ hafter]

/-- A text without a cut is trimmed to one. -/
theorem Uncut.trim (h : Uncut quoted cs) : Uncut quoted (Text.trim cs) := by
  obtain ⟨before, after, hsplit, hbefore, -⟩ := Text.exists_margins cs
  rw [hsplit, uncut_append, uncut_append, endsQuoted_blanks _ hbefore] at h
  exact h.2.1

theorem split_blank (quoted : Bool) (cs : List Char) :
    split quoted (' ' :: cs) = (' ' :: (split quoted cs).1, (split quoted cs).2) := by
  rw [split, if_neg (by simp), if_neg (by decide)]

end Tagging

/-! ## The same tags again -/

section Again

variable {strict : Bool} {raw text : String} {tags : TagSet}

/-- **The cut stands where it stood.** The text and the tags of a field, with a blank
between them, are cut at the first of these tags. -/
theorem cut_again (h : (extractTags strict raw).outcome = .ok (text, tags)) :
    Tagging.Uncut false text.toList ∧
      Tagging.split false (text ++ " " ++ tags.render).toList =
        (text.toList ++ [' '], tags.render.toList) := by
  obtain ⟨htags, rfl⟩ := extractTags_eq_ok.1 h
  obtain ⟨huncut, hends⟩ := Tagging.uncut_before false raw.toList
  have htrimmed := huncut.trim
  rw [← Tagging.endsQuoted_trim] at hends
  have hblank : " ".toList ++ tags.render.toList = ' ' :: tags.render.toList := rfl
  rw [String.toList_append, String.toList_append, String.toList_ofList, List.append_assoc, hblank,
    htrimmed.split_append, Tagging.split_blank]
  refine ⟨htrimmed, ?_⟩
  by_cases hcut : (Tagging.split false raw.toList).2 = []
  · -- without a cut there is no tag, and quotes may be left open
    rw [hcut] at htags
    have hnone : tags = .empty := by
      cases htags
      rfl
    have hrender : tags.render.toList = [] := by
      rw [hnone]
      rfl
    rw [hrender]
    rfl
  · rw [hends hcut, split_tags]

/-- **The tags of a field are read again.** Written behind the trimmed text they are
read as they were, in strict or lenient reading alike, and the cut is made in front of
them; without them the text is read as it is, with no tags. -/
theorem tags_read_again (strict : Bool) (raw text : String) (tags : TagSet)
    (h : (extractTags strict raw).outcome = .ok (text, tags)) :
    (extractTags strict (text ++ " " ++ tags.render)).outcome = .ok (text, tags) ∧
      (∀ strict', (extractTags strict' text).outcome = .ok (text, .empty)) ∧
      Tagging.split false (text ++ " " ++ tags.render).toList =
        (text.toList ++ [' '], tags.render.toList) := by
  obtain ⟨huncut, hcut⟩ := cut_again h
  have htext : text.toList = Text.trim (Tagging.split false raw.toList).1 := by
    rw [← (extractTags_eq_ok.1 h).2, String.toList_ofList]
  refine ⟨extractTags_joined hcut ?_ (valid_of_extractTags h), fun strict' => ?_, hcut⟩
  · rw [htext]
    exact Text.trim_trim_append_blank (by decide) _
  · refine extractTags_eq_ok.2 ⟨?_, ?_⟩
    · rw [huncut.split_eq]
      rfl
    · rw [huncut.split_eq, htext, Text.trim_trim, ← htext, String.ofList_toList]

/-- A type with a tag mark between quotes, and a tag whose value opens a quote. -/
def quotedMarks : String := " \"a@b\" | \"c @\"  @unit=\"px @event=client "

/-- Neither of them moves the cut. -/
theorem quotedMarks_read_again :
    ∃ text tags, (extractTags true quotedMarks).outcome = .ok (text, tags) ∧
      text = "\"a@b\" | \"c @\"" ∧ tags.entries = [("unit", "\"px"), ("event", "client")] ∧
      (extractTags true (text ++ " " ++ tags.render)).outcome = .ok (text, tags) ∧
      (extractTags false text).outcome = .ok (text, .empty) := by
  have hread : (extractTags true quotedMarks).outcome =
      .ok ("\"a@b\" | \"c @\"", .ofList [("unit", "\"px"), ("event", "client")]) := rfl
  obtain ⟨hagain, hbare, -⟩ := tags_read_again true quotedMarks _ _ hread
  exact ⟨_, _, hread, rfl, by decide, hagain, hbare false⟩

end Again

/-! ## Strict and lenient reading -/

/-- Every known key that is there has a value that means something. -/
structure TagSet.Recognised (tags : TagSet) : Prop where
  event : "event" ∈ tags.keys → tags.event ≠ none
  delay : "delay" ∈ tags.keys → tags.delay ≠ none
  data : "data" ∈ tags.keys → tags.data ≠ none

namespace Tagging

/-- A key has no meaning only if its value is none of those that have one. -/
theorem means_iff {α : Type} (all : List α) (text : α → String) (tags : TagSet) (key : String) :
    (key ∈ tags.keys → ((tags.get? key).bind fun v => all.find? (text · == v)) ≠ none) ↔
      ∀ value, (key, value) ∈ tags.entries → value ∈ all.map text := by
  have hfind (value : String) :
      all.find? (text · == value) ≠ none ↔ value ∈ all.map text := by
    rw [← Option.isSome_iff_ne_none, List.find?_isSome, List.mem_map]
    simp
  constructor
  · intro h value hvalue
    have hmeans := h (List.mem_map_of_mem hvalue)
    rwa [OrderedMap.get?_eq_some.2 hvalue, Option.bind_some, hfind] at hmeans
  · intro h hkey
    obtain ⟨tag, htag, rfl⟩ := List.mem_map.1 hkey
    rw [OrderedMap.get?_eq_some.2 htag, Option.bind_some, hfind]
    exact h tag.2 htag

theorem unknownValue?_eq_none {key value : String} : unknownValue? key value = none ↔
    (key = "event" → value ∈ EventDirection.all.map EventDirection.text) ∧
      (key = "delay" → value ∈ DelayPolicy.all.map DelayPolicy.text) ∧
      (key = "data" → value ∈ DataFlow.all.map DataFlow.text) := by
  unfold unknownValue? allowedValues?
  split
  · next allowed hallowed =>
    split at hallowed <;> cases hallowed <;> simp
  · next hnone =>
    split at hnone
    · cases hnone
    · cases hnone
    · cases hnone
    · next hevent hdelay hdata =>
      exact ⟨fun _ => ⟨fun h => absurd h hevent, fun h => absurd h hdelay, fun h => absurd h hdata⟩,
        fun _ => rfl⟩

/-- What strict reading accepts is what means something. -/
theorem recognised_iff {tags : TagSet} :
    tags.Recognised ↔ ∀ tag ∈ tags.entries, unknownValue? tag.1 tag.2 = none := by
  -- each of the three known keys has its own list of values
  have hevent := means_iff EventDirection.all EventDirection.text tags "event"
  have hdelay := means_iff DelayPolicy.all DelayPolicy.text tags "delay"
  have hdata := means_iff DataFlow.all DataFlow.text tags "data"
  constructor
  · rintro ⟨hevent', hdelay', hdata'⟩ ⟨key, value⟩ htag
    refine unknownValue?_eq_none.2 ⟨?_, ?_, ?_⟩
    · rintro rfl
      exact hevent.1 hevent' value htag
    · rintro rfl
      exact hdelay.1 hdelay' value htag
    · rintro rfl
      exact hdata.1 hdata' value htag
  · intro h
    refine ⟨hevent.2 fun value htag => ?_, hdelay.2 fun value htag => ?_,
      hdata.2 fun value htag => ?_⟩
    · exact (unknownValue?_eq_none.1 (h _ htag)).1 rfl
    · exact (unknownValue?_eq_none.1 (h _ htag)).2.1 rfl
    · exact (unknownValue?_eq_none.1 (h _ htag)).2.2 rfl

/-- A tag once read is kept. -/
theorem entries_subset_of_readTags {strict : Bool} {words : List (Nat × List Char)}
    {soFar tags : TagSet} (h : (readTags strict soFar words).outcome = .ok tags) :
    soFar.entries ⊆ tags.entries := by
  induction words generalizing soFar with
  | nil =>
    cases h
    exact List.Subset.refl _
  | cons p words ih =>
    obtain ⟨offset, word⟩ := p
    obtain ⟨tag, -, hnew, -, hrest⟩ := readTags_cons_eq_ok.1 h
    have hkept := ih hrest
    rw [OrderedMap.entries_insert_of_new hnew] at hkept
    exact List.Subset.trans (List.subset_append_left _ _) hkept

/-- **Words are read strictly as they are read leniently, if no value is refused.** -/
theorem readTags_strict_iff {words : List (Nat × List Char)} {soFar tags : TagSet}
    (hsoFar : ∀ tag ∈ soFar.entries, unknownValue? tag.1 tag.2 = none) :
    (readTags true soFar words).outcome = .ok tags ↔
      (readTags false soFar words).outcome = .ok tags ∧
        ∀ tag ∈ tags.entries, unknownValue? tag.1 tag.2 = none := by
  induction words generalizing soFar with
  | nil =>
    constructor
    · intro h
      cases h
      exact ⟨rfl, hsoFar⟩
    · rintro ⟨h, -⟩
      cases h
      rfl
  | cons p words ih =>
    obtain ⟨offset, word⟩ := p
    have hnext {tag : String × String} (hnew : tag.1 ∉ soFar.keys)
        (hallowed : unknownValue? tag.1 tag.2 = none) :
        ∀ t ∈ (soFar.insert tag.1 tag.2).entries, unknownValue? t.1 t.2 = none := by
      rw [OrderedMap.entries_insert_of_new hnew, List.forall_mem_append]
      exact ⟨hsoFar, by simpa using hallowed⟩
    rw [readTags_cons_eq_ok, readTags_cons_eq_ok]
    constructor
    · rintro ⟨tag, hread, hnew, hallowed, hrest⟩
      obtain ⟨hlenient, hall⟩ := (ih (hnext hnew (hallowed rfl))).1 hrest
      exact ⟨⟨tag, hread, hnew, fun h => absurd h Bool.false_ne_true, hlenient⟩, hall⟩
    · rintro ⟨⟨tag, hread, hnew, -, hlenient⟩, hall⟩
      -- the tag is among those read in the end, so its value is allowed
      have hmem : tag ∈ tags.entries := by
        apply entries_subset_of_readTags hlenient
        rw [OrderedMap.entries_insert_of_new hnew]
        exact List.mem_append_right _ (List.mem_singleton.2 rfl)
      have hallowed := hall tag hmem
      exact ⟨tag, hread, hnew, fun _ => hallowed, (ih (hnext hnew hallowed)).2 ⟨hlenient, hall⟩⟩

end Tagging

/-- **Strict reading is lenient reading in which every known key means something**:
a text has a type and tags in strict reading exactly if it has them in lenient reading
and the tags are recognised. -/
theorem strict_reading_is_lenient (raw text : String) (tags : TagSet) :
    (extractTags true raw).outcome = .ok (text, tags) ↔
      (extractTags false raw).outcome = .ok (text, tags) ∧ tags.Recognised := by
  have hnone : ∀ tag ∈ (OrderedMap.empty : TagSet).entries,
      Tagging.unknownValue? tag.1 tag.2 = none := fun tag htag => nomatch htag
  rw [extractTags_eq_ok, extractTags_eq_ok, Tagging.readTags_strict_iff hnone,
    Tagging.recognised_iff, and_right_comm]

end WidgetSchema
