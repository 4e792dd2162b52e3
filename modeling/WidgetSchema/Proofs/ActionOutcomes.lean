/-
What actions return and what they fail with.

`x.Yields P Q E` follows a run of `x` from any state with `P`: the state reached
has `P` again, however the run ends, what is returned has `Q`, and an error has
`E`. There is one rule for each way to make an action, so a specification of a
recursive action is put together along its text, with one case per branch, and
the state never has to be looked at where it is not written.

`Q` does not speak of the state. Where a result depends on a remembered answer,
`P` is what makes the memo right, and `Q` says what right answers are.
-/
import WidgetSchema.Proofs.MemoInvariants

set_option autoImplicit false

namespace WidgetSchema

namespace Action

variable {ε ε' σ α β : Type} {P : σ → Prop} {Q : α → Prop} {R : β → Prop} {E : ε → Prop}

/-- Started where `P` holds, the action ends where `P` holds; what it returns has
`Q`, and what it fails with has `E`. -/
structure Yields (x : Action ε σ α) (P : σ → Prop) (Q : α → Prop) (E : ε → Prop) : Prop where
  keeps : x.Keeps P
  returns : ∀ s, P s → ∀ a, (x.run s).outcome = .ok a → Q a
  fails : ∀ s, P s → ∀ e, (x.run s).outcome = .error e → E e

/-! ## Single steps -/

theorem yields_pure {a : α} (h : Q a) : (pure a : Action ε σ α).Yields P Q E where
  keeps := keeps_pure a
  returns s hs b hb := by
    cases hb
    exact h
  fails s hs e he := by cases he

theorem yields_fail {e : ε} (h : E e) : (fail e : Action ε σ α).Yields P Q E where
  keeps := keeps_fail e
  returns s hs a ha := by cases ha
  fails s hs e' he := by
    cases he
    exact h

/-- The state that is read has the property of all states. -/
theorem yields_get : (get : Action ε σ σ).Yields P P E where
  keeps := keeps_get
  returns s hs a ha := by
    cases ha
    exact hs
  fails s hs e he := by cases he

theorem yields_note (level : Level) (topic : Topic) (message : String) :
    (note level topic message : Action ε σ Unit).Yields P (fun _ => True) E where
  keeps := keeps_note level topic message
  returns _ _ _ _ := trivial
  fails s hs e he := by cases he

theorem yields_modify {f : σ → σ} (h : ∀ s, P s → P (f s)) :
    (modify f : Action ε σ Unit).Yields P (fun _ => True) E where
  keeps := h
  returns _ _ _ _ := trivial
  fails s hs e he := by cases he

theorem yields_ofExcept {x : Except ε α} (hok : ∀ a, x = .ok a → Q a)
    (herror : ∀ e, x = .error e → E e) : (ofExcept x : Action ε σ α).Yields P Q E where
  keeps := keeps_ofExcept x
  returns _ _ a ha := hok a ha
  fails _ _ e he := herror e he

/-! ## Sequences -/

variable {x : Action ε σ α} {f : α → Action ε σ β}

theorem Yields.bind (hx : x.Yields P Q E) (hf : ∀ a, Q a → (f a).Yields P R E) :
    (x >>= f).Yields P R E := by
  -- where the first part returns, the second one starts from a state with `P`
  have hnext : ∀ s, P s → ∀ a, (x.run s).outcome = .ok a →
      Q a ∧ P (x.run s).state := fun s hs a ha => ⟨hx.returns s hs a ha, hx.keeps s hs⟩
  refine ⟨?_, ?_, ?_⟩
  · intro s hs
    refine bind_invariant (hx.keeps s hs) fun a ha => ?_
    obtain ⟨hq, hp⟩ := hnext s hs a ha
    exact (hf a hq).keeps _ hp
  · intro s hs b hb
    obtain ⟨a, ha, hb⟩ := outcome_bind_eq_ok.1 hb
    obtain ⟨hq, hp⟩ := hnext s hs a ha
    exact (hf a hq).returns _ hp b hb
  · intro s hs e he
    rw [outcome_bind] at he
    cases ha : (x.run s).outcome with
    | error e' =>
      rw [ha] at he
      cases he
      exact hx.fails s hs e ha
    | ok a =>
      rw [ha] at he
      obtain ⟨hq, hp⟩ := hnext s hs a ha
      exact (hf a hq).fails _ hp e he

/-- What is known of the results may be said in other words. -/
theorem Yields.imp {Q' : α → Prop} (hx : x.Yields P Q E) (h : ∀ a, Q a → Q' a) :
    x.Yields P Q' E :=
  ⟨hx.keeps, fun s hs a ha => h a (hx.returns s hs a ha), hx.fails⟩

/-- Further errors may be allowed. -/
theorem Yields.allow {E' : ε → Prop} (hx : x.Yields P Q E) (h : ∀ e, E e → E' e) :
    x.Yields P Q E' :=
  ⟨hx.keeps, hx.returns, fun s hs e he => h e (hx.fails s hs e he)⟩

theorem Yields.map {g : α → β} (hx : x.Yields P Q E) (h : ∀ a, Q a → R (g a)) :
    (g <$> x).Yields P R E :=
  hx.bind fun a ha => yields_pure (h a ha)

theorem Yields.mapError {g : ε → ε'} {E : ε' → Prop} (hx : x.Yields P Q fun e => E (g e)) :
    (x.mapError g).Yields P Q E where
  keeps := hx.keeps.mapError g
  returns s hs a ha := hx.returns s hs a (mapError_eq_ok.1 ha)
  fails s hs e he := by
    have hrun : ((x.mapError g).run s).outcome = (x.run s).outcome.mapError g := rfl
    rw [hrun] at he
    cases h : (x.run s).outcome with
    | ok a =>
      rw [h] at he
      cases he
    | error e' =>
      rw [h] at he
      cases he
      exact hx.fails s hs e' h

end Action

/-! ## Sessions -/

/-- An action on the memo of a session keeps its composer. -/
theorem Session.yields_onMemo {α : Type} {x : Composer → Action Fault Memo α} {c : Composer}
    {P : Memo → Prop} {Q : α → Prop} {E : Fault → Prop} (hx : (x c).Yields P Q E) :
    (onMemo x).Yields (fun s => s.composer = c ∧ P s.memo) Q E where
  keeps s hs := by
    obtain ⟨rfl, hmemo⟩ := hs
    exact ⟨rfl, hx.keeps s.memo hmemo⟩
  returns s hs a ha := by
    obtain ⟨rfl, hmemo⟩ := hs
    exact hx.returns s.memo hmemo a ha
  fails s hs e he := by
    obtain ⟨rfl, hmemo⟩ := hs
    exact hx.fails s.memo hmemo e he

end WidgetSchema
