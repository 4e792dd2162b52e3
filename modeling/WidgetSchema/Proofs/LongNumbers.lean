/-
Integers that end a check because they are too long to be written.

Reading a value needs no text of its numbers, so an integer may have any length. Two things do
need it: a failure that repeats the value, and the path to an entry of a mapping, which repeats the
key. Where either meets an integer with too many digits, the check ends with a fault of its own.

`Value.HoldsLong` says that a value has such an integer in it, as an atom or as a key. It is what
the fault is evidence of: a value that cannot be shown holds one (`Value.HoldsLong.of_shown`), and
a key that cannot be written is one.
-/
import Mathlib.Algebra.Group.Int.Defs
import Mathlib.Algebra.Group.Nat.Defs
import WidgetSchema.Proofs.Satisfaction

set_option autoImplicit false

namespace WidgetSchema

namespace Digits

/-- What has at most so many digits lies below that power of ten. -/
theorem fit_iff {digits n : Nat} : fit digits n = true ↔ n < 10 ^ digits := by
  induction digits generalizing n with
  | zero =>
    rw [fit, beq_iff_eq, Nat.pow_zero]
    omega
  | succ digits ih =>
    rw [fit, Bool.or_eq_true, beq_iff_eq, ih, Nat.pow_succ]
    have hpositive : 0 < 10 ^ digits := Nat.pow_pos (by decide)
    omega

/-- **A whole number can be written if it lies below the limit**, on either side of zero. -/
theorem areFew_iff {n : Int} : areFew n = true ↔ n.natAbs < 10 ^ limit := fit_iff

/-- A power of ten with so many zeros has one digit too many. -/
theorem areFew_pow {zeros : Nat} (h : limit ≤ zeros) : areFew (10 ^ zeros) = false := by
  rw [Bool.eq_false_iff]
  intro hfew
  have hbelow := areFew_iff.1 hfew
  rw [Int.natAbs_pow, show Int.natAbs 10 = 10 from rfl,
    Nat.pow_lt_pow_iff_right (by decide)] at hbelow
  exact Nat.not_lt.2 h hbelow

end Digits

/-- A traversal has no result only where one of the items has none. -/
theorem exists_of_mapM_eq_none {α β : Type} {f : α → Option β} {items : List α}
    (h : items.mapM f = none) : ∃ a ∈ items, f a = none := by
  induction items with
  | nil => cases h
  | cons a rest ih =>
    cases ha : f a with
    | none => exact ⟨a, List.mem_cons_self, ha⟩
    | some b =>
      have hrest : rest.mapM f = none := by
        cases hrest : rest.mapM f with
        | none => rfl
        | some bs => simp [ha, hrest] at h
      obtain ⟨a', hmem, ha'⟩ := ih hrest
      exact ⟨a', List.mem_cons_of_mem a hmem, ha'⟩

namespace Value

variable {A : Type} {heap : Heap A} {v w : Value A}

/-- An integer with too many digits stands in the value: it is the value or a part of it, or a key
of a dictionary in it. -/
inductive HoldsLong (heap : Heap A) (v : Value A) : Prop
  | atom {a : Scalar} (hpart : v.HasPart heap (.atom a)) (hlong : a.isWritable = false)
  | key {p : A} {entries : List (Scalar × Value A)} {key : Scalar} {w : Value A}
      (hpart : v.HasPart heap (.container p)) (hp : heap p = .dict entries)
      (hmem : (key, w) ∈ entries) (hlong : key.isWritable = false)

/-- What a part holds, the whole holds. -/
theorem HoldsLong.of_part (hpart : v.HasPart heap w) (h : w.HoldsLong heap) : v.HoldsLong heap := by
  cases h with
  | atom hatom hlong => exact .atom (hpart.trans hatom) hlong
  | key hdict hp hmem hlong => exact .key (hpart.trans hdict) hp hmem hlong

/-- What stands in a container that is a value, the value holds. -/
theorem HoldsLong.of_mem {p : A} (hmem : w ∈ (heap p).parts) (h : w.HoldsLong heap) :
    (container p).HoldsLong heap := h.of_part (.inside .self hmem)

/-- A scalar that is not shown is an integer with too many digits. -/
theorem isWritable_of_shown {a : Scalar} (h : a.shown? = none) : a.isWritable = false := by
  unfold Atom.shown? at h
  split at h
  · cases h
  · next hlong => exact Bool.eq_false_iff.2 hlong

variable [DecidableEq A]

/-- The text of a value is missing only for an integer in it that is too long. The induction is on
the containers that can still be shown; one that is being shown already is an ellipsis. -/
theorem HoldsLong.of_shownWithin {room : Nat} {active : List A}
    (h : v.shownWithin heap room active = none) : v.HoldsLong heap := by
  induction room generalizing active v with
  | zero =>
    cases v with
    | atom a => exact .atom .self (isWritable_of_shown h)
    | container p => cases h
  | succ room ih =>
    cases v with
    | atom a => exact .atom .self (isWritable_of_shown h)
    | container p =>
      -- lists and tuples have no text exactly if one of their items has none
      have hitems (items : List (Value A)) (hparts : (heap p).parts = items)
          (hnone : items.mapM (shownWithin heap room (p :: active)) = none) :
          (container p).HoldsLong heap := by
        obtain ⟨w, hmem, hw⟩ := exists_of_mapM_eq_none hnone
        exact (ih hw).of_mem (hparts ▸ hmem)
      rw [shownWithin] at h
      split at h
      · cases h
      · dsimp only at h
        cases hp : heap p with
        | list items =>
          rw [hp] at h
          exact hitems items (by rw [hp]; rfl) (Option.map_eq_none_iff.1 h)
        | tuple items =>
          rw [hp] at h
          exact hitems items (by rw [hp]; rfl) (Option.map_eq_none_iff.1 h)
        | dict entries =>
          rw [hp] at h
          -- of the entry without a text, either the key is too long or something in the value
          obtain ⟨entry, hmem, hentry⟩ := exists_of_mapM_eq_none (Option.map_eq_none_iff.1 h)
          cases hkey : entry.1.shown? with
          | none => exact .key .self hp hmem (isWritable_of_shown hkey)
          | some key =>
            have hvalue : shownWithin heap room (p :: active) entry.2 = none := by
              cases hvalue : shownWithin heap room (p :: active) entry.2 with
              | none => rfl
              | some value =>
                rw [hkey, hvalue] at hentry
                cases hentry
            have hpart : entry.2 ∈ (heap p).parts := by
              rw [hp]
              exact List.mem_map_of_mem hmem
            exact (ih hvalue).of_mem hpart

/-- **What cannot be shown holds an integer that is too long.** -/
theorem HoldsLong.of_shown {n : Nat} {heap : Heap (Fin n)} {v : Value (Fin n)}
    (h : v.shown? heap = none) : v.HoldsLong heap := of_shownWithin h

end Value

/-! ## Values with short numbers only -/

section Short

variable {A : Type} {heap : Heap A} {v : Value A}

/-- The value itself is no integer with too many digits. -/
def Value.isShort : Value A → Bool
  | atom a => a.isWritable
  | container _ => true

/-- No integer with too many digits is a key of the container or stands in it. -/
def Container.isShort : Container A → Bool
  | list items | tuple items => items.all Value.isShort
  | dict entries => entries.all fun entry => entry.1.isWritable && entry.2.isShort

theorem Container.isShort_of_mem {held : Container A} (h : held.isShort = true)
    (hmem : v ∈ held.parts) : v.isShort = true := by
  cases held with
  | list items | tuple items => exact List.all_eq_true.1 h v hmem
  | dict entries =>
    obtain ⟨entry, hentry, rfl⟩ := List.mem_map.1 hmem
    have hshort := List.all_eq_true.1 h entry hentry
    exact (Bool.and_eq_true_iff.1 hshort).2

/-- **Where all containers are short, only short numbers are reached.** -/
theorem Value.not_holdsLong (hv : v.isShort = true) (hheap : ∀ p, (heap p).isShort = true) :
    ¬ v.HoldsLong heap := by
  intro h
  cases h with
  | @atom a hpart hlong =>
    have hshort : (atom a : Value A).isShort = true := by
      cases hpart with
      | self => exact hv
      | inside _ hmem => exact Container.isShort_of_mem (hheap _) hmem
    exact Bool.false_ne_true (hlong.symm.trans hshort)
  | @key p entries key w _ hp hmem hlong =>
    have hentries : (Container.dict entries).isShort = true := hp ▸ hheap p
    have hshort := List.all_eq_true.1 hentries (key, w) hmem
    exact Bool.false_ne_true (hlong.symm.trans (Bool.and_eq_true_iff.1 hshort).1)

end Short

end WidgetSchema
