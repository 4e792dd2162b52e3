/-
The bound on the nesting plays no part in a check.

A check carries the containers it stands in and enters only such as are not among
them, so it stands in each container of the value once at most. Its recursion has
therefore a depth that the value bounds, and with as much room as the value has
containers the case without room is never reached: whatever stood there instead,
every run would be the same (`checkWithin_eq`, `checkRoot_eq_checkWhole`).

Nothing of this depends on the types, on the registry or on the memo.
-/
import Mathlib.Data.Fintype.Card
import WidgetSchema.Verdict.Check

set_option autoImplicit false

namespace WidgetSchema

namespace Checking

variable {n : Nat} {c : Composer} {heap : Heap (Fin n)} {part part' : PartCheck n}
  {active : List (Fin n)}

/-! ## Room -/

/-- The check of parts that goes into `room` containers and goes on by `beyond` from there. -/
def checkWithin (c : Composer) (heap : Heap (Fin n)) (beyond : PartCheck n) :
    (room : Nat) → PartCheck n
  | 0 => beyond
  | room + 1 => checkExpr c heap (checkWithin c heap beyond room)

/-- A whole value against a target, with the parts of containers left to `part`. -/
def checkWhole (c : Composer) (heap : Heap (Fin n)) (part : PartCheck n) (v : Value (Fin n)) :
    Target → Action Fault Memo (List Failure)
  | .schema s => checkStruct c heap part [] .root v s
  | .expression e => checkExpr c heap part [] .root v e
  | .unsupported shown =>
    if v.isAbsent then refuse .root (.absentValue shown) else .fail (.unsupportedType shown)

/-- Without room every container counts as a cycle. -/
theorem checkPart_eq_checkWithin (room : Nat) :
    checkPart c heap room = checkWithin c heap (fun _ path _ _ => cyclic path) room := by
  induction room with
  | zero =>
    funext active path v e
    rw [checkPart, checkWithin]
  | succ room ih =>
    funext active path v e
    rw [checkPart, checkWithin, ih]

/-! ## One container -/

/-- Inside the containers of `active`, the two treat the parts of every further
container alike. -/
def AgreeInside (active : List (Fin n)) (part part' : PartCheck n) : Prop :=
  ∀ p, p ∉ active → part (p :: active) = part' (p :: active)

theorem checkSequence_congr (h : AgreeInside active part part') (path : Path)
    (v : Value (Fin n)) (inner : TypeExpr) :
    checkSequence heap part active path v inner = checkSequence heap part' active path v inner := by
  cases v with
  | atom a => rfl
  | container p =>
    simp only [checkSequence]
    by_cases hp : p ∈ active
    · simp only [if_pos hp]
    · simp only [if_neg hp, h p hp]

theorem checkMapping_congr (h : AgreeInside active part part') (path : Path)
    (v : Value (Fin n)) (inner : TypeExpr) :
    checkMapping heap part active path v inner = checkMapping heap part' active path v inner := by
  cases v with
  | atom a => rfl
  | container p =>
    simp only [checkMapping]
    by_cases hp : p ∈ active
    · simp only [if_pos hp]
    · simp only [if_neg hp, h p hp]

theorem checkStruct_congr (h : AgreeInside active part part') (path : Path)
    (v : Value (Fin n)) (schema : ResolvedSchema) :
    checkStruct c heap part active path v schema =
      checkStruct c heap part' active path v schema := by
  cases v with
  | atom a => rfl
  | container p =>
    simp only [checkStruct]
    by_cases hp : p ∈ active
    · simp only [if_pos hp]
    · simp only [if_neg hp, h p hp]

/-- **A check leaves to `part` only what stands in one container more**, and that
container is a new one. -/
theorem checkExpr_congr (h : AgreeInside active part part') (path : Path) (v : Value (Fin n))
    (e : TypeExpr) :
    checkExpr c heap part active path v e = checkExpr c heap part' active path v e := by
  have hsequence : checkSequence heap part active path v =
      checkSequence heap part' active path v := by
    funext inner
    exact checkSequence_congr h path v inner
  have hmapping : checkMapping heap part active path v =
      checkMapping heap part' active path v := by
    funext inner
    exact checkMapping_congr h path v inner
  have hstruct : checkStruct c heap part active path v =
      checkStruct c heap part' active path v := by
    funext schema
    exact checkStruct_congr h path v schema
  rw [checkExpr, checkExpr, hsequence, hmapping, hstruct]

/-! ## All containers -/

/-- Different containers are no more than there are. -/
theorem length_le_of_nodup (h : active.Nodup) : active.length ≤ n := by
  have hcard := h.length_le_card
  rwa [Fintype.card_fin] at hcard

/-- **With room for all containers that are left, what comes beyond does not
count.** The induction is on the room. Each step stands in one container more and
leaves one place less, so the sum of both stays above the number of containers, and
room that is used up would mean more different containers than there are. -/
theorem checkWithin_eq {beyond beyond' : PartCheck n} {room room' : Nat} (hnodup : active.Nodup)
    (hroom : n < active.length + room) (hroom' : n < active.length + room') :
    checkWithin c heap beyond room active = checkWithin c heap beyond' room' active := by
  induction room generalizing room' active with
  | zero =>
    have hlength := length_le_of_nodup hnodup
    omega
  | succ room ih =>
    cases room' with
    | zero =>
      have hlength := length_le_of_nodup hnodup
      omega
    | succ room' =>
      funext path v e
      apply checkExpr_congr
      intro p hp
      have hnodup' : (p :: active).Nodup := List.nodup_cons.2 ⟨hp, hnodup⟩
      apply ih hnodup'
      · rw [List.length_cons]
        omega
      · rw [List.length_cons]
        omega

/-- **The bound on the nesting is no bound on values.** A check of a whole value runs
as it would with any more room, and whatever came where the room ends. -/
theorem checkRoot_eq_checkWhole (beyond : PartCheck n) {room : Nat} (hroom : n ≤ room)
    (v : Value (Fin n)) (target : Target) :
    checkRoot c heap v target = checkWhole c heap (checkWithin c heap beyond room) v target := by
  -- the first container is entered from outside of all, and then there is one around
  have hagree : AgreeInside [] (checkPart c heap n) (checkWithin c heap beyond room) := by
    intro p _
    rw [checkPart_eq_checkWithin]
    apply checkWithin_eq (List.nodup_singleton p)
    · rw [List.length_singleton]
      omega
    · rw [List.length_singleton]
      omega
  cases target with
  | schema s =>
    rw [checkRoot, checkWhole]
    exact checkStruct_congr hagree .root v s
  | expression e =>
    rw [checkRoot, checkWhole]
    exact checkExpr_congr hagree .root v e
  | unsupported shown => rw [checkRoot, checkWhole]

end Checking

/-! ## Texts of values -/

namespace Value

variable {n : Nat} {heap : Heap (Fin n)}

/-- A container that is not shown yet is one that there is room for. -/
theorem room_of_not_mem {active : List (Fin n)} {p : Fin n} (hnodup : active.Nodup)
    (hp : p ∉ active) : active.length < n :=
  Checking.length_le_of_nodup (List.nodup_cons.2 ⟨hp, hnodup⟩)

/-- Values are shown alike with any room for the containers that are left. Without
room every container is being shown, and then it is an ellipsis anyway. -/
theorem shownWithin_eq {room room' : Nat} {active : List (Fin n)} (hnodup : active.Nodup)
    (hroom : n ≤ active.length + room) (hroom' : n ≤ active.length + room') (v : Value (Fin n)) :
    v.shownWithin heap room active = v.shownWithin heap room' active := by
  induction room generalizing room' active v with
  | zero =>
    cases v with
    | atom a => rw [shownWithin, shownWithin]
    | container p =>
      by_cases hp : p ∈ active
      · cases room' with
        | zero => rfl
        | succ room' => rw [shownWithin, shownWithin, if_pos hp]
      · -- a container that is not being shown leaves room, as there are no more than n of them
        have hlength := room_of_not_mem hnodup hp
        omega
  | succ room ih =>
    cases v with
    | atom a => rw [shownWithin, shownWithin]
    | container p =>
      by_cases hp : p ∈ active
      · cases room' with
        | zero => rw [shownWithin, shownWithin, if_pos hp]
        | succ room' => rw [shownWithin, shownWithin, if_pos hp, if_pos hp]
      · have hlength := room_of_not_mem hnodup hp
        cases room' with
        | zero => omega
        | succ room' =>
          have hinside : shownWithin heap room (p :: active) =
              shownWithin heap room' (p :: active) := by
            funext w
            apply ih (List.nodup_cons.2 ⟨hp, hnodup⟩)
            · rw [List.length_cons]
              omega
            · rw [List.length_cons]
              omega
          rw [shownWithin, shownWithin, if_neg hp, if_neg hp, hinside]

/-- **The text of a value shows all of it**: more room would not make it longer. -/
theorem shown_eq_shownWithin {room : Nat} (hroom : n ≤ room) (v : Value (Fin n)) :
    v.shown? heap = v.shownWithin heap room [] := by
  apply shownWithin_eq List.nodup_nil
  · rw [List.length_nil, Nat.zero_add]
  · rw [List.length_nil, Nat.zero_add]
    exact hroom

end Value

end WidgetSchema
