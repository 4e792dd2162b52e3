/-
How actions run.

An action that is a sequence runs its first part and goes on from the state
reached, or stops there. The lemmas below read that off for the outcome and for
the state separately, which is how invariants of a state are carried through a
sequence: `bind_invariant` asks for the first part and for every way to go on. As
whole actions, sequences obey the laws of a monad (`lawfulMonad`).
-/
import WidgetSchema.Journal.Action

set_option autoImplicit false

namespace WidgetSchema

variable {ε ε' σ α β : Type}

/-! ## Outcomes -/

/-- A sequence returns if both parts do. -/
theorem bind_eq_ok {x : Except ε α} {f : α → Except ε β} {b : β} :
    x >>= f = .ok b ↔ ∃ a, x = .ok a ∧ f a = .ok b := by
  cases x <;> simp [bind, Except.bind]

/-- A sequence fails with its first part, or with the second behind the result of the first. -/
theorem bind_eq_error {x : Except ε α} {f : α → Except ε β} {e : ε} :
    x >>= f = .error e ↔ x = .error e ∨ ∃ a, x = .ok a ∧ f a = .error e := by
  cases x <;> simp [bind, Except.bind]

/-- Mapping a result neither makes one nor loses one. -/
theorem map_eq_ok {x : Except ε α} {f : α → β} {b : β} :
    x.map f = .ok b ↔ ∃ a, x = .ok a ∧ f a = b := by
  cases x <;> simp [Except.map]

/-- And it leaves a failure as it is. -/
theorem map_eq_error {x : Except ε α} {f : α → β} {e : ε} :
    x.map f = .error e ↔ x = .error e := by
  cases x <;> simp [Except.map]

/-- Changing the error leaves results alone. -/
theorem mapError_eq_ok {x : Except ε α} {f : ε → ε'} {a : α} :
    x.mapError f = .ok a ↔ x = .ok a := by
  constructor
  · intro h
    cases x with
    | error e => cases h
    | ok b =>
      cases h
      rfl
  · rintro rfl
    rfl

/-- An error that was changed comes from one that was there. -/
theorem mapError_eq_error {x : Except ε α} {f : ε → ε'} {e' : ε'} :
    x.mapError f = .error e' ↔ ∃ e, x = .error e ∧ f e = e' := by
  constructor
  · intro h
    cases x with
    | error e =>
      cases h
      exact ⟨e, rfl, rfl⟩
    | ok a => cases h
  · rintro ⟨e, rfl, rfl⟩
    rfl

theorem exists_of_isOk {x : Except ε α} (h : x.isOk = true) : ∃ a, x = .ok a := by
  cases x with
  | error e => cases h
  | ok a => exact ⟨a, rfl⟩

theorem eq_ok_of_toOption {x : Except ε α} {a : α} (h : x.toOption = some a) : x = .ok a := by
  cases x with
  | ok b => rw [Option.some.inj h]
  | error e => cases h

/-- What is said of the value of a computation says that there is one. -/
theorem exists_of_toOption_map {β : Type} {x : Except ε α} {f : α → β} {b : β}
    (h : x.toOption.map f = some b) : ∃ a, x = .ok a ∧ f a = b := by
  cases x with
  | ok a => exact ⟨a, rfl, Option.some.inj h⟩
  | error e => cases h

namespace Action

/-! ## Single steps -/

@[simp] theorem run_get (s : σ) :
    (get : Action ε σ σ).run s = { state := s, journal := [], outcome := .ok s } := rfl

@[simp] theorem run_modify (f : σ → σ) (s : σ) :
    (modify f : Action ε σ Unit).run s = { state := f s, journal := [], outcome := .ok () } := rfl

@[simp] theorem run_note (level : Level) (topic : Topic) (message : String) (s : σ) :
    (note level topic message : Action ε σ Unit).run s =
      { state := s, journal := [{ level, topic, message }], outcome := .ok () } := rfl

@[simp] theorem run_fail (e : ε) (s : σ) :
    (fail e : Action ε σ α).run s = { state := s, journal := [], outcome := .error e } := rfl

@[simp] theorem run_ofExcept (x : Except ε α) (s : σ) :
    (ofExcept x : Action ε σ α).run s = { state := s, journal := [], outcome := x } := rfl

@[simp] theorem run_ofNoted (x : Noted ε α) (s : σ) :
    (ofNoted x : Action ε σ α).run s =
      { state := s, journal := x.journal, outcome := x.outcome } := rfl

/-! ## Sequences -/

variable {x : Action ε σ α} {f : α → Action ε σ β} {s : σ}

/-- The outcome of a sequence is that of its first failing part or of its last. -/
theorem outcome_bind :
    ((x >>= f).run s).outcome =
      match (x.run s).outcome with
      | .error e => .error e
      | .ok a => ((f a).run (x.run s).state).outcome := by
  cases h : (x.run s).outcome with
  | error e => rw [run_bind_error h]
  | ok a => rw [run_bind_ok h]

/-- The state after a sequence is the state after its last part that ran. -/
theorem state_bind :
    ((x >>= f).run s).state =
      match (x.run s).outcome with
      | .error _ => (x.run s).state
      | .ok a => ((f a).run (x.run s).state).state := by
  cases h : (x.run s).outcome with
  | error e => rw [run_bind_error h]
  | ok a => rw [run_bind_ok h]

/-- A sequence returns exactly if both parts do. -/
theorem outcome_bind_eq_ok {b : β} :
    ((x >>= f).run s).outcome = .ok b ↔
      ∃ a, (x.run s).outcome = .ok a ∧ ((f a).run (x.run s).state).outcome = .ok b := by
  rw [outcome_bind]
  cases (x.run s).outcome <;> simp

/-- **What every part of a sequence keeps, the sequence keeps.** -/
theorem bind_invariant {P : σ → Prop} (hx : P (x.run s).state)
    (hf : ∀ a, (x.run s).outcome = .ok a → P ((f a).run (x.run s).state).state) :
    P ((x >>= f).run s).state := by
  rw [state_bind]
  cases h : (x.run s).outcome with
  | error e => exact hx
  | ok a => exact hf a h

/-! ## Laws -/

/-- Returning behind an action changes nothing: no record is added. -/
theorem andThen_done (x : Action ε σ α) : x.andThen done = x := by
  funext s
  unfold andThen
  generalize x s = first
  obtain ⟨state, journal, outcome⟩ := first
  cases outcome with
  | error e => rfl
  | ok a => simp [done]

/-- The journals are appended in either grouping. -/
theorem andThen_assoc {γ : Type} (x : Action ε σ α) (f : α → Action ε σ β)
    (g : β → Action ε σ γ) : (x.andThen f).andThen g = x.andThen fun a => (f a).andThen g := by
  funext s
  unfold andThen
  generalize x s = first
  obtain ⟨state, journal, outcome⟩ := first
  cases outcome with
  | error e => rfl
  | ok a =>
    dsimp only
    generalize f a state = second
    obtain ⟨state', journal', outcome'⟩ := second
    cases outcome' with
    | error e => rfl
    | ok b => simp

/-- The parts of a sequence may be put together in any way: their records come in the same
order. As an instance this would turn the last step of every sequence into a map wherever
`simp` meets one. -/
theorem lawfulMonad : LawfulMonad (Action ε σ) :=
  LawfulMonad.mk' _ andThen_done (fun _ _ => rfl) andThen_assoc

/-- A map changes the result alone; the next two lemmas are about the rest. -/
theorem outcome_map (g : α → β) :
    ((g <$> x).run s).outcome = (x.run s).outcome.map g := by
  show ((x >>= fun a => pure (g a)).run s).outcome = _
  rw [outcome_bind]
  cases (x.run s).outcome <;> rfl

/-- The state behind a map is the state behind the action. -/
theorem state_map (g : α → β) : ((g <$> x).run s).state = (x.run s).state := by
  show ((x >>= fun a => pure (g a)).run s).state = _
  rw [state_bind]
  cases (x.run s).outcome <;> rfl

/-- So are its records. -/
theorem journal_map (g : α → β) : ((g <$> x).run s).journal = (x.run s).journal := by
  show ((x >>= fun a => pure (g a)).run s).journal = _
  cases h : (x.run s).outcome with
  | error e => rw [run_bind_error h]
  | ok a =>
    rw [run_bind_ok h]
    exact List.append_nil _

end Action

end WidgetSchema
