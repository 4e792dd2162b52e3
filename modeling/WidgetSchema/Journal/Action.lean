/-
Computations that write to the journal, keep a state and may fail.

A `Noted` computation writes records and either fails or returns. An `Action`
also reads and updates a state. In both, a failure keeps what happened before
it: the records are written and the state is changed. The journal is only ever
appended to and never read, so the outcome of a sequence is the sequence of the
outcomes, as the `bind` lemmas say.
-/
import WidgetSchema.Journal.Basic

set_option autoImplicit false

namespace WidgetSchema

/-! ## Noted computations -/

/-- The records a computation wrote and how it ended. -/
structure Noted (ε α : Type) where
  journal : List LogRecord
  outcome : Except ε α

namespace Noted

variable {ε α β : Type}

/-- Returns without a record. -/
def done (a : α) : Noted ε α := { journal := [], outcome := .ok a }

/-- Fails without a record. -/
def fail (e : ε) : Noted ε α := { journal := [], outcome := .error e }

/-- Writes one record. -/
def note (level : Level) (topic : Topic) (message : String) : Noted ε Unit :=
  { journal := [{ level, topic, message }], outcome := .ok () }

/-- Takes over an outcome that wrote nothing. -/
def ofExcept (x : Except ε α) : Noted ε α := { journal := [], outcome := x }

/-- Goes on with the result, unless the computation failed. -/
def andThen (x : Noted ε α) (f : α → Noted ε β) : Noted ε β :=
  match x.outcome with
  | .error e => { journal := x.journal, outcome := .error e }
  | .ok a => { journal := x.journal ++ (f a).journal, outcome := (f a).outcome }

instance : Monad (Noted ε) where
  pure := done
  bind := andThen

@[simp] theorem outcome_pure (a : α) : (pure a : Noted ε α).outcome = .ok a := rfl

/-- **The journal does not influence the outcome.** -/
@[simp] theorem outcome_bind (x : Noted ε α) (f : α → Noted ε β) :
    (x >>= f).outcome = x.outcome >>= fun a => (f a).outcome := by
  show (andThen x f).outcome = _
  unfold andThen
  cases x.outcome <;> rfl

/-- Changes the error of a failed computation. -/
def mapError {ε' : Type} (f : ε → ε') (x : Noted ε α) : Noted ε' α :=
  { journal := x.journal, outcome := x.outcome.mapError f }

@[simp] theorem outcome_mapError {ε' : Type} (f : ε → ε') (x : Noted ε α) :
    (x.mapError f).outcome = x.outcome.mapError f := rfl

end Noted

/-! ## Actions -/

/-- The state, the records and the result after an action. -/
structure Step (ε σ α : Type) where
  state : σ
  journal : List LogRecord
  outcome : Except ε α

/-- A computation over a state. -/
def Action (ε σ α : Type) := σ → Step ε σ α

namespace Action

variable {ε σ α β : Type}

/-- Runs an action in a state. -/
def run (x : Action ε σ α) (s : σ) : Step ε σ α := x s

/-- Returns and leaves the state alone. -/
def done (a : α) : Action ε σ α := fun s => { state := s, journal := [], outcome := .ok a }

/-- Fails and leaves the state alone. -/
def fail (e : ε) : Action ε σ α := fun s => { state := s, journal := [], outcome := .error e }

/-- Writes one record. -/
def note (level : Level) (topic : Topic) (message : String) : Action ε σ Unit :=
  fun s => { state := s, journal := [{ level, topic, message }], outcome := .ok () }

/-- The state. -/
def get : Action ε σ σ := fun s => { state := s, journal := [], outcome := .ok s }

/-- Changes the state. -/
def modify (f : σ → σ) : Action ε σ Unit :=
  fun s => { state := f s, journal := [], outcome := .ok () }

/-- Takes over an outcome that wrote nothing. -/
def ofExcept (x : Except ε α) : Action ε σ α :=
  fun s => { state := s, journal := [], outcome := x }

/-- Takes over a noted computation, which knows no state. -/
def ofNoted (x : Noted ε α) : Action ε σ α :=
  fun s => { state := s, journal := x.journal, outcome := x.outcome }

/-- Goes on with the result in the state reached, unless the action failed. -/
def andThen (x : Action ε σ α) (f : α → Action ε σ β) : Action ε σ β := fun s =>
  let first := x s
  match first.outcome with
  | .error e => { state := first.state, journal := first.journal, outcome := .error e }
  | .ok a =>
    let second := f a first.state
    { second with journal := first.journal ++ second.journal }

instance : Monad (Action ε σ) where
  pure := done
  bind := andThen

/-- Changes the error of a failed action. -/
def mapError {ε' : Type} (f : ε → ε') (x : Action ε σ α) : Action ε' σ α := fun s =>
  let step := x s
  { state := step.state, journal := step.journal, outcome := step.outcome.mapError f }

theorem run_pure (a : α) (s : σ) :
    (pure a : Action ε σ α).run s = { state := s, journal := [], outcome := .ok a } := rfl

/-- The first action succeeded: the second one goes on from its state. -/
theorem run_bind_ok {x : Action ε σ α} {f : α → Action ε σ β} {s : σ} {a : α}
    (h : (x.run s).outcome = .ok a) :
    (x >>= f).run s =
      { (f a).run (x.run s).state with
        journal := (x.run s).journal ++ ((f a).run (x.run s).state).journal } := by
  show andThen x f s = _
  unfold andThen
  simp only [run] at h ⊢
  simp only [h]

/-- The first action failed: its state is the last one. -/
theorem run_bind_error {x : Action ε σ α} {f : α → Action ε σ β} {s : σ} {e : ε}
    (h : (x.run s).outcome = .error e) :
    (x >>= f).run s =
      { state := (x.run s).state, journal := (x.run s).journal, outcome := .error e } := by
  show andThen x f s = _
  unfold andThen
  simp only [run] at h ⊢
  simp only [h]

end Action

end WidgetSchema
