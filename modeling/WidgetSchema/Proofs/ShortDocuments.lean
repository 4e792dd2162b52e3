/-
Documents hold short integers only.

An integer of a document is read digit by digit and may have as many digits as may be written, so
what was read can always be written again. The fault that a check ends with where an integer is too
long (`Value.HoldsLong`) therefore never comes from a document: there the same number of digits is
a fault of reading, before any check.

The reader is followed by what it reads: numbers and words, strings, then containers, for which the
induction is on the room for further containers inside one another. The graph of a written value
holds no other atoms and no other keys than the written value, so all of its containers are short.
-/
import Mathlib.Data.List.Induction
import Mathlib.Data.List.TakeWhile
import WidgetSchema.Json.Reader
import WidgetSchema.Proofs.Actions
import WidgetSchema.Proofs.LongNumbers

set_option autoImplicit false

namespace WidgetSchema

/-! ## Entries of a dictionary -/

section Entries

variable {α : Type} {key : Scalar} {value : α} {entries : List (Scalar × α)}
  {K : Scalar → Prop} {V : α → Prop}

/-- A key and a value that are assigned stand beside what stood there before. -/
theorem forall_assignKey (hkey : K key) (hvalue : V value)
    (h : ∀ entry ∈ entries, K entry.1 ∧ V entry.2) :
    ∀ entry ∈ assignKey key value entries, K entry.1 ∧ V entry.2 := by
  induction entries with
  | nil => exact List.forall_mem_singleton.2 ⟨hkey, hvalue⟩
  | cons entry rest ih =>
    obtain ⟨hentry, hrest⟩ := List.forall_mem_cons.1 h
    rw [assignKey]
    split
    · exact List.forall_mem_cons.2 ⟨⟨hentry.1, hvalue⟩, hrest⟩
    · exact List.forall_mem_cons.2 ⟨hentry, ih hrest⟩

/-- **A dictionary has no keys and no values but those it was written with.** A key that is
repeated gives its value to the key before it, so the two need not stem from one pair. -/
theorem forall_dictOfPairs {pairs : List (Scalar × α)} (h : ∀ pair ∈ pairs, K pair.1 ∧ V pair.2) :
    ∀ entry ∈ dictOfPairs pairs, K entry.1 ∧ V entry.2 := by
  have hfold (held : List (Scalar × α)) (hheld : ∀ entry ∈ held, K entry.1 ∧ V entry.2) :
      ∀ entry ∈ pairs.foldl (fun entries pair => assignKey pair.1 pair.2 entries) held,
        K entry.1 ∧ V entry.2 := by
    induction pairs generalizing held with
    | nil => exact hheld
    | cons pair rest ih =>
      obtain ⟨hpair, hrest⟩ := List.forall_mem_cons.1 h
      exact ih hrest _ (forall_assignKey hpair.1 hpair.2 hheld)
  exact hfold [] (List.forall_mem_nil _)

end Entries

/-! ## Written values -/

namespace Datum

mutual
/-- No integer in the written value has too many digits. -/
def Short : Datum → Prop
  | atom a => a.isWritable = true
  | list items | tuple items => ShortAll items
  | dict entries => ShortEntries entries
  | named _ value => Short value
  | again _ => True

/-- No integer in the written values of a list has too many digits. -/
def ShortAll : List Datum → Prop
  | [] => True
  | d :: ds => Short d ∧ ShortAll ds

/-- No integer among the entries of a written dictionary has too many digits. -/
def ShortEntries : List (Scalar × Datum) → Prop
  | [] => True
  | (key, d) :: ds => key.isWritable = true ∧ Short d ∧ ShortEntries ds
end

theorem shortAll_iff {ds : List Datum} : ShortAll ds ↔ ∀ d ∈ ds, d.Short := by
  induction ds with
  | nil => simp [ShortAll]
  | cons d ds ih => rw [ShortAll, ih, List.forall_mem_cons]

theorem shortEntries_iff {ds : List (Scalar × Datum)} :
    ShortEntries ds ↔ ∀ entry ∈ ds, entry.1.isWritable = true ∧ entry.2.Short := by
  induction ds with
  | nil => simp [ShortEntries]
  | cons entry ds ih => rw [ShortEntries, ih, List.forall_mem_cons, and_assoc]

end Datum

/-! ## Graphs of written values -/

namespace ValueGraph

variable {draft : Draft}

/-- All values that have a name, and all containers in place, are short. -/
structure Draft.Short (draft : Draft) : Prop where
  names : ∀ entry ∈ draft.names, entry.2.isShort = true
  placed : ∀ entry ∈ draft.placed, entry.2.isShort = true

/-- A short container takes its place. -/
theorem Draft.Short.place (h : draft.Short) {p : Nat} {held : Container Nat}
    (hheld : held.isShort = true) :
    Draft.Short { draft with placed := (p, held) :: draft.placed } :=
  ⟨h.names, List.forall_mem_cons.2 ⟨hheld, h.placed⟩⟩

/-- A short value gets a name. -/
theorem Draft.Short.name (h : draft.Short) {name : String} {v : Value Nat} (hv : v.isShort = true) :
    Draft.Short { draft with names := (name, v) :: draft.names } :=
  ⟨List.forall_mem_cons.2 ⟨hv, h.names⟩, h.placed⟩

/-- Taking an address changes nothing that is held. -/
theorem Draft.Short.next (h : draft.Short) (next : Nat) : Draft.Short { draft with next } :=
  ⟨h.names, h.placed⟩

mutual
/-- **What is built of a short written value is short**, and so is all that is in place then. -/
theorem build_short : (d : Datum) → (draft : Draft) → d.Short → draft.Short →
    (build d draft).1.isShort = true ∧ (build d draft).2.Short
  | .atom a, draft, hd, hdraft => ⟨by rwa [Datum.Short] at hd, hdraft⟩
  | .list items, draft, hd, hdraft => by
    rw [Datum.Short] at hd
    obtain ⟨hitems, hafter⟩ := buildAll_short items _ hd (hdraft.next (draft.next + 1))
    exact ⟨rfl, hafter.place (List.all_eq_true.2 hitems)⟩
  | .tuple items, draft, hd, hdraft => by
    rw [Datum.Short] at hd
    obtain ⟨hitems, hafter⟩ := buildAll_short items _ hd (hdraft.next (draft.next + 1))
    exact ⟨rfl, hafter.place (List.all_eq_true.2 hitems)⟩
  | .dict entries, draft, hd, hdraft => by
    rw [Datum.Short] at hd
    obtain ⟨hentries, hafter⟩ := buildEntries_short entries _ hd (hdraft.next (draft.next + 1))
    refine ⟨rfl, hafter.place (List.all_eq_true.2 fun entry hentry => ?_)⟩
    have hboth := forall_dictOfPairs (K := fun key => key.isWritable = true)
      (V := fun v => v.isShort = true) hentries entry hentry
    exact Bool.and_eq_true_iff.2 hboth
  | .named name value, draft, hd, hdraft => by
    rw [Datum.Short] at hd
    have hvalue (v : Value Nat) (hv : v.isShort = true) :=
      build_short value { draft with names := (name, v) :: draft.names } hd (hdraft.name hv)
    -- a container has its name before its parts are built, an atom is not built at all
    cases value with
    | atom a =>
      rw [Datum.Short] at hd
      exact ⟨hd, hdraft.name hd⟩
    | _ => exact hvalue (.container draft.next) rfl
  | .again name, draft, _, hdraft => by
    refine ⟨?_, hdraft⟩
    rw [build]
    cases hfound : draft.names.lookup name with
    | none => rfl
    | some v => exact hdraft.names _ (mem_of_lookup hfound)

theorem buildAll_short : (ds : List Datum) → (draft : Draft) → Datum.ShortAll ds → draft.Short →
    (∀ v ∈ (buildAll ds draft).1, v.isShort = true) ∧ (buildAll ds draft).2.Short
  | [], draft, _, hdraft => ⟨List.forall_mem_nil _, hdraft⟩
  | d :: ds, draft, hds, hdraft => by
    rw [Datum.ShortAll] at hds
    obtain ⟨hv, hnext⟩ := build_short d draft hds.1 hdraft
    obtain ⟨hvs, hafter⟩ := buildAll_short ds _ hds.2 hnext
    exact ⟨List.forall_mem_cons.2 ⟨hv, hvs⟩, hafter⟩

theorem buildEntries_short : (ds : List (Scalar × Datum)) → (draft : Draft) →
    Datum.ShortEntries ds → draft.Short →
    (∀ entry ∈ (buildEntries ds draft).1, entry.1.isWritable = true ∧ entry.2.isShort = true) ∧
      (buildEntries ds draft).2.Short
  | [], draft, _, hdraft => ⟨List.forall_mem_nil _, hdraft⟩
  | (key, d) :: ds, draft, hds, hdraft => by
    rw [Datum.ShortEntries] at hds
    obtain ⟨hkey, hd, hds⟩ := hds
    obtain ⟨hv, hnext⟩ := build_short d draft hd hdraft
    obtain ⟨hvs, hafter⟩ := buildEntries_short ds _ hds hnext
    exact ⟨List.forall_mem_cons.2 ⟨⟨hkey, hv⟩, hvs⟩, hafter⟩
end

/-- Only containers are affected by the bound on addresses. -/
theorem bounded_short (n : Nat) {v : Value Nat} (hv : v.isShort = true) :
    (bounded n v).isShort = true := by
  cases v with
  | atom a => exact hv
  | container p =>
    rw [bounded]
    split <;> rfl

theorem boundedContainer_short (n : Nat) {held : Container Nat} (h : held.isShort = true) :
    (boundedContainer n held).isShort = true := by
  cases held with
  | list items | tuple items =>
    refine List.all_eq_true.2 fun v hv => ?_
    obtain ⟨w, hw, rfl⟩ := List.mem_map.1 hv
    exact bounded_short n (List.all_eq_true.1 h w hw)
  | dict entries =>
    refine List.all_eq_true.2 fun entry hentry => ?_
    obtain ⟨entry', hentry', rfl⟩ := List.mem_map.1 hentry
    obtain ⟨hkey, hvalue⟩ := Bool.and_eq_true_iff.1 (List.all_eq_true.1 h entry' hentry')
    exact Bool.and_eq_true_iff.2 ⟨hkey, bounded_short n hvalue⟩

/-- **The graph of a short written value holds no long integer.** -/
theorem not_holdsLong_ofDatum {d : Datum} (h : d.Short) :
    ¬ (ofDatum d).root.HoldsLong (ofDatum d).heap := by
  obtain ⟨hroot, hdraft⟩ := build_short d { next := 0, names := [], placed := [] } h
    ⟨List.forall_mem_nil _, List.forall_mem_nil _⟩
  apply Value.not_holdsLong
  · exact bounded_short _ hroot
  · intro p
    simp only [ofDatum]
    cases hplaced : (build d { next := 0, names := [], placed := [] }).2.placed.lookup p.val with
    | none => rfl
    | some held =>
      exact boundedContainer_short _ (hdraft.placed _ (mem_of_lookup hplaced))

end ValueGraph

/-! ## Reading -/

namespace Json

variable {cs rest : List Char} {a : Scalar}

/-- The value of decimal digits has no more digits than there are. -/
theorem digitsValue_lt {ds : List Char} (h : ∀ d ∈ ds, Character.isAsciiDigit d = true) :
    Shortest.digitsValue ds < 10 ^ ds.length := by
  induction ds using List.reverseRecOn with
  | nil => decide
  | append_singleton ds d ih =>
    have hvalue : Shortest.digitsValue (ds ++ [d]) =
        10 * Shortest.digitsValue ds + (d.toNat - '0'.toNat) := by
      rw [Shortest.digitsValue, List.foldl_append]
      rfl
    have hdigit : d.toNat - '0'.toNat < 10 := by
      have hlast := h d (List.mem_append_right ds List.mem_cons_self)
      rw [Character.isAsciiDigit, Bool.and_eq_true, decide_eq_true_iff, decide_eq_true_iff] at hlast
      have hnine : d.toNat ≤ '9'.toNat := hlast.2
      have hten : '9'.toNat - '0'.toNat < 10 := by decide
      omega
    have hbelow := ih fun c hc => h c (List.mem_append_left _ hc)
    rw [hvalue, List.length_append, List.length_singleton, Nat.pow_succ]
    omega

/-- The digits before the point are digits. -/
theorem wholeDigits_digits {whole : List Char} (h : wholeDigits cs = some (whole, rest)) :
    ∀ d ∈ whole, Character.isAsciiDigit d = true := by
  unfold wholeDigits at h
  split at h
  · cases h
    intro d hd
    rw [List.mem_singleton.1 hd]
    rfl
  · split at h
    · cases h
    · cases h
      exact fun d hd => List.mem_takeWhile_imp hd

/-- A reading that requires something has it. -/
theorem required_eq_ok {α : Type} {x : Option α} {r : α} : required x = .ok r ↔ x = some r := by
  cases x <;> simp [required]

/-- **A number that is read is short**: an integer with more digits is not read. -/
theorem number_short {negative : Bool} (h : number negative cs = .ok (a, rest)) :
    a.isWritable = true := by
  simp only [number, bind_eq_ok] at h
  obtain ⟨⟨whole, behind⟩, hwhole, h⟩ := h
  dsimp only at h
  split at h
  · split at h
    · cases h
    · next hfew =>
      cases h
      -- without a fraction and an exponent it is an integer, of few digits
      have hdigits := wholeDigits_digits (required_eq_ok.1 hwhole)
      have hvalue : Shortest.digitsValue whole < 10 ^ Digits.limit :=
        (digitsValue_lt hdigits).trans_le (Nat.pow_le_pow_right (by decide) (Nat.le_of_not_lt hfew))
      apply Digits.areFew_iff.2
      split
      · rw [Int.natAbs_neg]
        exact hvalue
      · exact hvalue
  · cases h
    rfl
  · cases h
    rfl

/-- A word is no integer. -/
theorem word_short (h : word? cs = some (a, rest)) : a.isWritable = true := by
  obtain ⟨w, hw, h⟩ := List.exists_of_findSome?_eq_some h
  obtain ⟨behind, -, hword⟩ := Option.map_eq_some_iff.1 h
  cases hword
  have hwords : ∀ w ∈ words, w.2.isWritable = true := by decide
  exact hwords w hw

/-- A word or a number that is read is short. -/
theorem plain_short (h : plain cs = .ok (a, rest)) : a.isWritable = true := by
  unfold plain at h
  split at h
  · next r hword =>
    cases h
    exact word_short hword
  · split at h
    · exact number_short h
    · exact number_short h

/-- A string is no integer, whatever its code points are. -/
theorem stringBody_short (h : stringBody cs = .ok (a, rest)) : a.isWritable = true := by
  unfold stringBody at h
  cases hpoints : required (points? (cs.length + 1) cs) with
  | error e =>
    rw [hpoints] at h
    cases h
  | ok r =>
    rw [hpoints] at h
    cases h
    unfold Atom.ofPoints
    split <;> rfl

section Containers

variable {α : Type} {item : Reader α} {R : α → Prop} {closing : Char} {items : List α}

/-- What is read of every item holds of all items. -/
theorem itemsUntil_forall (hitem : ∀ cs a rest, item cs = .ok (a, rest) → R a) {rounds : Nat}
    (h : itemsUntil item closing rounds cs = .ok (items, rest)) : ∀ a ∈ items, R a := by
  induction rounds generalizing cs items rest with
  | zero => cases h
  | succ rounds ih =>
    simp only [itemsUntil, bind_eq_ok] at h
    obtain ⟨⟨a, behind⟩, ha, h⟩ := h
    have hhead : R a := hitem _ _ _ ha
    dsimp only at h
    split at h
    · split at h
      · obtain ⟨⟨as, further⟩, has, h⟩ := bind_eq_ok.1 h
        cases h
        exact List.forall_mem_cons.2 ⟨hhead, ih has⟩
      · split at h
        · cases h
          exact List.forall_mem_singleton.2 hhead
        · cases h
    · cases h

/-- The same between an opening and a closing character. -/
theorem enclosed_forall (hitem : ∀ cs a rest, item cs = .ok (a, rest) → R a)
    (h : enclosed item closing cs = .ok (items, rest)) : ∀ a ∈ items, R a := by
  unfold enclosed at h
  split at h
  · cases h
  · split at h
    · cases h
      exact List.forall_mem_nil _
    · exact itemsUntil_forall hitem h

end Containers

variable {value : Reader Datum} {d : Datum}

/-- An entry is short, if values are. -/
theorem entry_short (hvalue : ∀ cs d rest, value cs = .ok (d, rest) → d.Short) {e : Scalar × Datum}
    (h : entry value cs = .ok (e, rest)) : e.1.isWritable = true ∧ e.2.Short := by
  unfold entry at h
  split at h
  · obtain ⟨⟨key, behind⟩, hkey, h⟩ := bind_eq_ok.1 h
    dsimp only at h
    split at h
    · obtain ⟨⟨v, further⟩, hv, h⟩ := bind_eq_ok.1 h
      cases h
      exact ⟨stringBody_short hkey, hvalue _ _ _ hv⟩
    · cases h
  · cases h

/-- A value is short, if what is read in containers is. -/
theorem valueWith_short {inner : Option (Reader Datum)}
    (hinner : ∀ value, inner = some value → ∀ cs d rest, value cs = .ok (d, rest) → d.Short)
    (h : valueWith inner cs = .ok (d, rest)) : d.Short := by
  unfold valueWith at h
  split at h
  · -- a text
    obtain ⟨r, hr, h⟩ := map_eq_ok.1 h
    cases h
    exact stringBody_short hr
  · cases inner with
    | none => cases h
    | some item =>
      obtain ⟨r, hr, h⟩ := map_eq_ok.1 h
      cases h
      exact Datum.shortAll_iff.2 (enclosed_forall (hinner item rfl) hr)
  · cases inner with
    | none => cases h
    | some item =>
      obtain ⟨r, hr, h⟩ := map_eq_ok.1 h
      cases h
      have hentries := enclosed_forall (fun _ _ _ => entry_short (hinner item rfl)) hr
      have hheld := forall_dictOfPairs (K := fun key => key.isWritable = true) (V := Datum.Short)
        hentries
      exact Datum.shortEntries_iff.2 hheld
  · obtain ⟨r, hr, h⟩ := map_eq_ok.1 h
    cases h
    exact plain_short hr

/-- **What is read is short**, with any room for containers. The induction is on the room. -/
theorem value_short {nesting : Nat} (h : Json.value nesting cs = .ok (d, rest)) : d.Short := by
  induction nesting generalizing cs d rest with
  | zero => exact valueWith_short (by simp) h
  | succ nesting ih =>
    refine valueWith_short ?_ h
    rintro value ⟨⟩ cs d rest hvalue
    exact ih hvalue

/-- **Documents hold short integers only.** -/
theorem read_short {nesting : Nat} {document : String} (h : read nesting document = .ok d) :
    d.Short := by
  simp only [read, bind_eq_ok] at h
  obtain ⟨⟨d', behind⟩, hread, h⟩ := h
  split at h
  · cases h
    exact value_short hread
  · cases h

end Json

end WidgetSchema
