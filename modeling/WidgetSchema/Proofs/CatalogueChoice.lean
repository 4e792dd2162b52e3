/-
Which catalogues a command line can name.

A word is read as an option only for a flag that there is, and an option keeps a value only if its
flag takes it. Both hold for each word, and consuming words keeps of the state what a single option
keeps, so the value of a line is one that some flag takes (`value_of_read`). The flags for
catalogues take the names of those there are. So a line that is read names such a catalogue or none
(`CommandLine.catalogue_of_parse`), which is not so for the environment.
-/
import Mathlib.Data.List.Basic
import WidgetSchema.Command.Line

set_option autoImplicit false

namespace WidgetSchema

namespace Options

variable {flags : Flags} {s s' : State} {slots slots' : List Slot} {ws rest : List Word}

/-! ## Flags that there are -/

/-- An option names one of the flags, if it names one. -/
def Word.Names (flags : Flags) (w : Word) : Prop :=
  ∀ text hit, w = .option text (some hit) → ∃ flag, (flag, hit.effect) ∈ flags

theorem names_operand (text : String) : (Word.operand text).Names flags :=
  fun _ _ h => by cases h

theorem names_terminator : Word.terminator.Names flags := fun _ _ h => by cases h

theorem names_nothing (text : String) : (Word.option text none).Names flags :=
  fun _ _ h => by cases h

theorem names_option {text flag : String} {hit : Hit} (h : (flag, hit.effect) ∈ flags) :
    (Word.option text (some hit)).Names flags := by
  intro text' hit' hword
  cases hword
  exact ⟨flag, h⟩

theorem mem_of_lookup {word : String} {effect : Effect} (h : flags.lookup word = some effect) :
    (word, effect) ∈ flags := by
  obtain ⟨before, after, hsplit, -⟩ := List.lookup_eq_some_iff.1 h
  rw [hsplit]
  exact List.mem_append_right _ List.mem_cons_self

/-- What a word is taken for is the effect of a flag. -/
theorem mem_of_candidates {word : String} {hit : Hit} (h : hit ∈ candidates flags word) :
    ∃ flag, (flag, hit.effect) ∈ flags := by
  unfold candidates at h
  split at h
  · obtain ⟨⟨flag, effect⟩, hmem, hhit⟩ := List.mem_filterMap.1 h
    dsimp only at hhit
    split at hhit
    · cases hhit
      exact ⟨flag, hmem⟩
    · split at hhit
      · cases hhit
        exact ⟨flag, hmem⟩
      · cases hhit
  · generalize cutAtEquals word = cut at h
    obtain ⟨start, value⟩ := cut
    obtain ⟨⟨flag, effect⟩, hmem, hhit⟩ := List.mem_filterMap.1 h
    dsimp only at hhit
    split at hhit
    · cases hhit
      exact ⟨flag, hmem⟩
    · cases hhit

theorem names_of_recognize {word : String} {w : Word} (h : recognize flags word = some w) :
    w.Names flags := by
  unfold recognize at h
  split at h
  · cases h
    exact names_terminator
  · split at h
    · cases h
      exact names_operand word
    · split at h
      · next effect hlookup =>
        cases h
        exact names_option (mem_of_lookup hlookup)
      · split at h
        · cases h
          exact names_operand word
        · dsimp only at h
          split at h
          · next hlookup =>
            cases h
            exact names_option (mem_of_lookup hlookup)
          · split at h
            · -- a word that abbreviates one option only
              next hit hcandidates =>
              cases h
              have hmem : hit ∈ candidates flags word := by
                rw [hcandidates]
                exact List.mem_cons_self
              obtain ⟨flag, hflag⟩ := mem_of_candidates hmem
              exact names_option hflag
            · split at h
              · cases h
                exact names_operand word
              · cases h
                exact names_nothing word
            · cases h

/-- All options of a line name flags. -/
theorem names_of_recognizeAll {words : List String} (h : recognizeAll flags words = some ws) :
    ∀ w ∈ ws, w.Names flags := by
  induction words generalizing ws with
  | nil =>
    cases h
    exact List.forall_mem_nil _
  | cons word words ih =>
    simp only [recognizeAll, bind, Option.bind_eq_some_iff] at h
    obtain ⟨w, hw, h⟩ := h
    split at h
    · cases h
      refine List.forall_mem_cons.2 ⟨names_terminator, fun w' hw' => ?_⟩
      obtain ⟨text, -, rfl⟩ := List.mem_map.1 hw'
      exact names_operand text
    · obtain ⟨more, hmore, h⟩ := Option.bind_eq_some_iff.1 h
      cases h
      exact List.forall_mem_cons.2 ⟨names_of_recognize hw, ih hmore⟩

/-! ## Values that are taken -/

/-- Some flag takes the value: it allows any value, or this one. -/
def Takes (flags : Flags) (v : String) : Prop :=
  ∃ flag allowed, (flag, Effect.store allowed) ∈ flags ∧ ∀ vs, allowed = some vs → v ∈ vs

theorem fill?_subset {slot : Slot} {mine : List Word} (h : fill? slot ws = some (mine, rest)) :
    rest ⊆ ws := by
  unfold fill? at h
  split at h
  · split at h
    · cases h
      exact List.subset_cons_of_subset _ (List.dropWhile_subset _)
    · cases h
      exact List.subset_cons_of_subset _ (List.subset_cons_self _ _)
    · cases h
  · cases h
    exact List.dropWhile_subset _
  · split at h
    · cases h
      exact List.nil_subset _
    · cases h
      exact List.nil_subset _
    · cases h

/-- Slots are filled with words of the line, and the others are left. -/
theorem fillSlots_subset {filled filled' : List (List String)}
    (h : fillSlots filled slots ws = some (filled', slots', rest)) : rest ⊆ ws := by
  induction slots generalizing filled ws with
  | nil =>
    cases h
    exact List.Subset.refl _
  | cons slot slots ih =>
    rw [fillSlots] at h
    split at h
    · cases h
      exact List.Subset.refl _
    · next mine more hfill =>
      obtain ⟨texts, -, h⟩ := Option.bind_eq_some_iff.1 h
      exact List.Subset.trans (ih h) (fill?_subset hfill)

/-- Consuming operands leaves the value alone. -/
theorem takeOperands_eq_read (h : takeOperands s ws = .read (s', rest)) :
    s'.value = s.value ∧ rest ⊆ ws := by
  unfold takeOperands at h
  split at h
  · cases h
  · next filled slots rest' hfill =>
    dsimp only at h
    split at h
    · cases h
      exact ⟨rfl, fillSlots_subset hfill⟩
    · cases h
      exact ⟨rfl, List.dropWhile_subset _⟩

theorem stored_subset {attached : Option String} {next : List Word} {v : String}
    (h : stored attached next = some (v, rest)) : rest ⊆ next := by
  unfold stored at h
  split at h
  · cases h
    exact List.Subset.refl _
  · cases h
    exact List.subset_cons_self _ _
  · cases h

/-- **An option keeps only a value that its flag takes.** -/
theorem takeOption_eq_read {text : String} {hit : Option Hit} {next : List Word}
    (hnames : (Word.option text hit).Names flags) (hs : ∀ v ∈ s.value, Takes flags v)
    (h : takeOption flags s hit next = .read (s', rest)) :
    (∀ v ∈ s'.value, Takes flags v) ∧ rest ⊆ next := by
  cases hit with
  | none =>
    cases h
    exact ⟨hs, List.Subset.refl _⟩
  | some hit =>
    obtain ⟨effect, short, attached⟩ := hit
    obtain ⟨flag, hflag⟩ := hnames text _ rfl
    cases effect with
    | help =>
      -- help and refusals end the reading
      cases attached with
      | none => cases h
      | some v =>
        simp only [takeOption] at h
        split at h
        · split at h <;> cases h
        · cases h
    | store allowed =>
      simp only [takeOption] at h
      split at h
      · cases h
      · next v next' hstored =>
        split at h
        · cases h
          exact ⟨fun v' hv' => (by cases hv'), stored_subset hstored⟩
        · split at h
          · next hallowed =>
            cases h
            refine ⟨fun v' hv' => ?_, stored_subset hstored⟩
            cases hv'
            refine ⟨flag, allowed, hflag, ?_⟩
            rintro vs rfl
            simpa using hallowed
          · cases h

/-- **Whatever is consumed, the value is one that a flag takes**, by induction on the rounds. -/
theorem value_of_consume {rounds : Nat} (hws : ∀ w ∈ ws, w.Names flags)
    (hs : ∀ v ∈ s.value, Takes flags v) (h : consume flags rounds s ws = .read s') :
    ∀ v ∈ s'.value, Takes flags v := by
  -- at the end nothing is taken any more
  have hfinish {s : State} {ws : List Word} (hs : ∀ v ∈ s.value, Takes flags v)
      (h : finish s ws = .read s') : ∀ v ∈ s'.value, Takes flags v := by
    unfold finish at h
    -- an option may set the value, and what it does not use up is looked at next
    split at h
    · cases h
    · cases h
      exact hs
    · cases h
  induction rounds generalizing s ws with
  | zero => exact hfinish hs h
  | succ rounds ih =>
    unfold consume at h
    split at h
    · cases ws with
      | nil => contradiction
      | cons w next =>
        cases w with
        | option text hit =>
          dsimp only at h
          split at h
          · cases h
          · cases h
          · next s₁ rest hstep =>
            rw [List.forall_mem_cons] at hws
            obtain ⟨hs₁, hrest⟩ := takeOption_eq_read hws.1 hs hstep
            exact ih (fun w hw => hws.2 w (hrest hw)) hs₁ h
        | operand | terminator =>
          dsimp only at h
          split at h
          · cases h
          · cases h
          · next s₁ rest hstep =>
            obtain ⟨hvalue, hrest⟩ := takeOperands_eq_read hstep
            rw [← hvalue] at hs
            exact ih (fun w hw => hws w (hrest hw)) hs h
    · exact hfinish hs h

/-- The value of a line that is read is one that a flag takes. -/
theorem value_of_read {words : List String} (h : read flags slots words = .read s) :
    ∀ v ∈ s.value, Takes flags v := by
  unfold read at h
  split at h
  · cases h
  · next ws hws =>
    exact value_of_consume (names_of_recognizeAll hws) (fun v hv => by cases hv) h

end Options

/-! ## Catalogues -/

open Options

/-- The catalogue option of a command, if the command works on a catalogue. -/
def Command.catalogue? : Command → Option (Option String)
  | .catalogues => none
  | .types given | .resolve given _ _ | .validate given _ _ => some given

namespace CommandLine

theorem mem_names_of_takes {v : String} (h : Takes catalogueFlags v) : v ∈ Catalogue.names := by
  obtain ⟨flag, allowed, hmem, hallowed⟩ := h
  simp only [catalogueFlags, plainFlags, List.cons_append, List.nil_append, List.mem_cons,
    List.not_mem_nil, or_false, Prod.mk.injEq, reduceCtorEq, and_false, false_or,
    Effect.store.injEq] at hmem
  rcases hmem with ⟨-, rfl⟩ | ⟨-, rfl⟩ <;> exact hallowed _ rfl

/-- A command gets its catalogue from the value of its option. -/
theorem catalogue_of_grammar {name : String} {flags : Flags} {slots : List Slot}
    {make : Option String → List (List String) → Option Command} {value : Option String}
    {filled : List (List String)} {command : Command} {given : String}
    (h : grammar? name = some (flags, slots, make)) (hmake : make value filled = some command)
    (hgiven : command.catalogue? = some (some given)) :
    flags = catalogueFlags ∧ value = some given := by
  unfold grammar? at h
  split at h
  · cases h
    cases hmake
    cases hgiven
  · cases h
    cases hmake
    cases hgiven
    exact ⟨rfl, rfl⟩
  · cases h
    dsimp only at hmake
    split at hmake
    · cases hmake
      cases hgiven
      exact ⟨rfl, rfl⟩
    · cases hmake
  · cases h
    dsimp only at hmake
    split at hmake
    · cases hmake
      cases hgiven
      exact ⟨rfl, rfl⟩
    · cases hmake
  · cases h

/-- **A line that is read names a catalogue there is, or none.** -/
theorem catalogue_of_parse {words : List String} {line : CommandLine} {given : String}
    (h : parse words = .run line) (hgiven : line.command.catalogue? = some (some given)) :
    given ∈ Catalogue.names := by
  unfold parse at h
  split at h
  · cases h
  · cases h
  · split at h
    · unfold readCommand at h
      split at h
      · cases h
      · next flags slots make hgrammar =>
        split at h
        · cases h
        · cases h
        · next s hread =>
          split at h
          · next command hmake =>
            split at h
            · cases h
            · cases h
              obtain ⟨rfl, hvalue⟩ := catalogue_of_grammar hgrammar hmake hgiven
              exact mem_names_of_takes (value_of_read hread given hvalue)
          · cases h
    · cases h

end CommandLine

end WidgetSchema
