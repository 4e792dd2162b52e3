/-
What the test for absence answers, whatever has been resolved before.

Asking and checking both reach the definitions through resolution. `Contract`
says what is needed of it: from a right memo it answers what a name denotes, it
leads from good expressions to good ones, and its errors are among those that are
allowed. With nothing forbidden every composer keeps the contract
(`contract_of_sound`).

Under a contract the test answers by a rule in which the memo plays no part
(`AbsenceFits`), so all right memos lead to one answer (`admitsAbsence_yields`).
-/
import WidgetSchema.Proofs.ActionOutcomes
import WidgetSchema.Proofs.Satisfaction

set_option autoImplicit false

namespace WidgetSchema

/-- Every expression that a resolved type holds. -/
def Resolved.All (Good : TypeExpr → Prop) : Resolved → Prop
  | schema s => ∀ field ∈ s.fields.entries, Good field.2.expression
  | expression e => Good e

theorem Resolved.all_of_forall {Good : TypeExpr → Prop} (h : ∀ e, Good e) (r : Resolved) :
    r.All Good := by
  cases r with
  | schema s => exact fun field _ => h field.2.expression
  | expression e => exact h e

namespace Composer

/-! ## The contract of resolution -/

/-- From memos with `P`, resolving a good name answers what it denotes, which is
good again, or fails with an error in `E`; the faults of the check itself are in `E`, and
so is giving up the test, unless it is never given up. -/
structure Contract (c : Composer) (P : Memo → Prop) (Good : TypeExpr → Prop)
    (E : Fault → Prop) : Prop where
  sound : ∀ memo, P memo → memo.SoundFor c
  parts : ∀ e, Good e → ∀ e' ∈ e.parts, Good e'
  resolve : ∀ e i, e.instantiation? = some i → Good e →
    (c.resolve i).Yields P (fun r => c.Denotes i r ∧ r.All Good) fun err => E (.schema err)
  cyclic : ∀ path, E (.schema (.cyclicValue path))
  depth : ∀ label bound, E (.schema (.resolutionDepth label bound))
  ends : ∀ e, Good e → ∀ memo, P memo → ∀ label,
    ((c.admitsAbsence e).run memo).outcome = .error (.endlessAlias label) →
      E (.endlessAlias label)

/-- A right memo is all that is needed if no expression is bad and no error is
forbidden. -/
theorem contract_of_sound (c : Composer) :
    c.Contract (Memo.SoundFor · c) (fun _ => True) fun _ => True where
  sound _ hm := hm
  parts _ _ _ _ := trivial
  resolve _ _ _ _ :=
    { keeps := fun _ hm => (resolve_denotes hm).1
      returns := fun _ hm r hr =>
        ⟨(resolve_denotes hm).2 r hr, r.all_of_forall fun _ => trivial⟩
      fails := fun _ _ _ _ => trivial }
  cyclic _ := trivial
  depth _ _ := trivial
  ends _ _ _ _ _ _ := trivial

variable {c : Composer} {P : Memo → Prop} {Good : TypeExpr → Prop} {E : Fault → Prop}

/-- A contract is kept with more errors allowed. -/
theorem Contract.allow {E' : Fault → Prop} (h : c.Contract P Good E) (hE : ∀ err, E err → E' err) :
    c.Contract P Good E' where
  sound := h.sound
  parts := h.parts
  resolve e i hi he := (h.resolve e i hi he).allow fun err => hE (.schema err)
  cyclic path := hE _ (h.cyclic path)
  depth label bound := hE _ (h.depth label bound)
  ends e he memo hm label hgivenUp := hE _ (h.ends e he memo hm label hgivenUp)

theorem Contract.resolveExpression (h : c.Contract P Good E) {e : TypeExpr} {i : Instantiation}
    (hi : e.instantiation? = some i) (he : Good e) :
    ((c.resolveExpression e).mapError Fault.schema).Yields P
      (fun r => c.Denotes i r ∧ r.All Good) E := by
  unfold Composer.resolveExpression
  rw [hi]
  exact (h.resolve e i hi he).mapError

/-- Errors in `E`, or the test was given up. -/
def GivesUpOr (E : Fault → Prop) (err : Fault) : Prop :=
  E err ∨ ∃ label, err = .endlessAlias label

/-! ## The rule of the test -/

mutual
/-- No value satisfies the expression, with names judged by `named`. -/
def AbsenceFits (named : TypeExpr → Prop) : TypeExpr → Prop
  | .optional _ => True
  | .primitive name => name = "none"
  | .union members => AbsenceFitsSome named members
  | .intersection members => AbsenceFitsEach named members
  | .reference name => named (.reference name)
  | .generic base args => named (.generic base args)
  | .literal _ | .enumSet _ | .sequence _ | .mapping _ => False

/-- No value satisfies one of the expressions. -/
def AbsenceFitsSome (named : TypeExpr → Prop) : List TypeExpr → Prop
  | [] => False
  | e :: es => AbsenceFits named e ∨ AbsenceFitsSome named es

/-- No value satisfies each of the expressions. -/
def AbsenceFitsEach (named : TypeExpr → Prop) : List TypeExpr → Prop
  | [] => True
  | e :: es => AbsenceFits named e ∧ AbsenceFitsEach named es
end

/-- No value satisfies the alias that a name denotes. Names are told apart by
their texts, and one in `seen` counts as not satisfied. -/
def AbsenceFitsName (c : Composer) : (steps : Nat) → (seen : List String) → TypeExpr → Prop
  | 0, _, _ => False
  | steps + 1, seen, e => e.render ∉ seen ∧ ∃ i e', e.instantiation? = some i ∧
      c.Denotes i (.expression e') ∧ AbsenceFits (AbsenceFitsName c steps (e.render :: seen)) e'

/-! ## The test follows its rule -/

variable {named : TypeExpr → Asking} {Named : TypeExpr → Prop}

mutual
theorem absentFits_yields (hparts : ∀ e, Good e → ∀ e' ∈ e.parts, Good e')
    (hnamed : ∀ e i, e.instantiation? = some i → Good e →
      (named e).Yields P (fun b => b = true ↔ Named e) E) :
    (e : TypeExpr) → Good e →
      (absentFits named e).Yields P (fun b => b = true ↔ AbsenceFits Named e) E
  | .optional _, _ | .primitive _, _ | .literal _, _ | .enumSet _, _ | .sequence _, _
  | .mapping _, _ => by
    rw [absentFits, AbsenceFits]
    exact Action.yields_pure (by simp)
  | .reference name, he => by
    rw [absentFits, AbsenceFits]
    exact hnamed _ _ rfl he
  | .generic base args, he => by
    rw [absentFits, AbsenceFits]
    exact hnamed _ _ rfl he
  | .union members, he => by
    rw [absentFits, AbsenceFits]
    exact absentFitsSome_yields hparts hnamed members (hparts _ he)
  | .intersection members, he => by
    rw [absentFits, AbsenceFits]
    exact absentFitsEach_yields hparts hnamed members (hparts _ he)

theorem absentFitsSome_yields (hparts : ∀ e, Good e → ∀ e' ∈ e.parts, Good e')
    (hnamed : ∀ e i, e.instantiation? = some i → Good e →
      (named e).Yields P (fun b => b = true ↔ Named e) E) :
    (es : List TypeExpr) → (∀ e ∈ es, Good e) →
      (absentFitsSome named es).Yields P (fun b => b = true ↔ AbsenceFitsSome Named es) E
  | [], _ => by
    rw [absentFitsSome, AbsenceFitsSome]
    exact Action.yields_pure (by simp)
  | e :: es, hes => by
    rw [absentFitsSome, AbsenceFitsSome]
    obtain ⟨he, hes⟩ := List.forall_mem_cons.1 hes
    refine (absentFits_yields hparts hnamed e he).bind fun b hb => ?_
    cases b with
    | true => exact Action.yields_pure (by simp [← hb])
    | false =>
      exact (absentFitsSome_yields hparts hnamed es hes).imp fun b' hb' => by simp [hb', ← hb]

theorem absentFitsEach_yields (hparts : ∀ e, Good e → ∀ e' ∈ e.parts, Good e')
    (hnamed : ∀ e i, e.instantiation? = some i → Good e →
      (named e).Yields P (fun b => b = true ↔ Named e) E) :
    (es : List TypeExpr) → (∀ e ∈ es, Good e) →
      (absentFitsEach named es).Yields P (fun b => b = true ↔ AbsenceFitsEach Named es) E
  | [], _ => by
    rw [absentFitsEach, AbsenceFitsEach]
    exact Action.yields_pure (by simp)
  | e :: es, hes => by
    rw [absentFitsEach, AbsenceFitsEach]
    obtain ⟨he, hes⟩ := List.forall_mem_cons.1 hes
    refine (absentFits_yields hparts hnamed e he).bind fun b hb => ?_
    cases b with
    | true =>
      exact (absentFitsEach_yields hparts hnamed es hes).imp fun b' hb' => by simp [hb', ← hb]
    | false => exact Action.yields_pure (by simp [← hb])
end

/-- One unfolding: the name is judged by what it denotes, and that as `hbody` says. -/
theorem absentFitsName_succ_yields {steps : Nat} {seen : List String} {e : TypeExpr}
    {i : Instantiation} (hi : e.instantiation? = some i)
    (hresolve : ((c.resolveExpression e).mapError Fault.schema).Yields P
      (fun r => c.Denotes i r ∧ r.All Good) E)
    (hbody : e.render ∉ seen → ∀ e', c.Denotes i (.expression e') → Good e' →
      (absentFits (c.absentFitsName steps (e.render :: seen)) e').Yields P
        (fun b => b = true ↔ AbsenceFits (c.AbsenceFitsName steps (e.render :: seen)) e') E) :
    (c.absentFitsName (steps + 1) seen e).Yields P
      (fun b => b = true ↔ c.AbsenceFitsName (steps + 1) seen e) E := by
  rw [absentFitsName, AbsenceFitsName]
  split
  · next hseen => exact Action.yields_pure (by simp [hseen])
  · next hseen =>
    refine hresolve.bind fun r hr => ?_
    obtain ⟨hdenotes, hgood⟩ := hr
    cases r with
    | schema s =>
      -- a schema is no expression, and a name denotes one thing only
      refine Action.yields_pure ?_
      simp only [Bool.false_eq_true, false_iff, not_and]
      rintro - ⟨j, e', hj, he', -⟩
      rw [hi] at hj
      cases hj
      cases hdenotes.unique he'
    | expression e' =>
      refine (hbody hseen e' hdenotes hgood).imp fun b hb => hb.trans ?_
      constructor
      · exact fun hfits => ⟨hseen, i, e', hi, hdenotes, hfits⟩
      · rintro ⟨-, j, e'', hj, he'', hfits⟩
        rw [hi] at hj
        cases hj
        cases hdenotes.unique he''
        exact hfits

/-- Names are judged by what they denote, and the rule for them unfolds as the
test does. The induction is on the unfoldings that are left. -/
theorem absentFitsName_yields (h : c.Contract P Good E) (steps : Nat) (seen : List String)
    (e : TypeExpr) (i : Instantiation) (hi : e.instantiation? = some i) (he : Good e) :
    (c.absentFitsName steps seen e).Yields P
      (fun b => b = true ↔ c.AbsenceFitsName steps seen e) (GivesUpOr E) := by
  induction steps generalizing seen e i with
  | zero =>
    rw [absentFitsName, AbsenceFitsName]
    split
    · exact Action.yields_pure (by simp)
    · exact Action.yields_fail (.inr ⟨_, rfl⟩)
  | succ steps ih =>
    have hresolve : ((c.resolveExpression e).mapError Fault.schema).Yields P _ (GivesUpOr E) :=
      (h.resolveExpression hi he).allow fun _ => .inl
    exact absentFitsName_succ_yields hi hresolve fun _ e' _ hgood =>
      absentFits_yields h.parts (ih (e.render :: seen)) e' hgood

/-- **All right memos lead to one answer**, and the test says that an expression
admits absence exactly if it does. -/
theorem admitsAbsence_yields (h : c.Contract P Good E) {e : TypeExpr} (he : Good e) :
    (c.admitsAbsence e).Yields P (fun b => b = true ↔ c.AdmitsAbsence e) E := by
  have hrule : (c.admitsAbsence e).Yields P _ (GivesUpOr E) :=
    absentFits_yields h.parts (absentFitsName_yields h _ []) e he
  have hany : (c.admitsAbsence e).Yields (Memo.SoundFor · c) _ (GivesUpOr fun _ => True) :=
    absentFits_yields (fun _ _ _ _ => trivial)
      (absentFitsName_yields (contract_of_sound c) _ []) e trivial
  refine ⟨hrule.keeps, fun memo hm b hb => ?_, fun memo hm err herr => ?_⟩
  · constructor
    · rintro rfl
      exact ⟨memo, h.sound memo hm, hb⟩
    · rintro ⟨memo', hm', htrue⟩
      -- both runs follow the rule, which knows no memo
      exact (hrule.returns memo hm b hb).2 ((hany.returns memo' hm' true htrue).1 rfl)
  · obtain hallowed | ⟨label, rfl⟩ := hrule.fails memo hm err herr
    · exact hallowed
    · exact h.ends e he memo hm label herr

/-- The fields that are required are those whose type does not admit absence. -/
theorem requiredAmong_yields (h : c.Contract P Good E) {fields : List (String × ResolvedField)}
    (hfields : ∀ field ∈ fields, Good field.2.expression) :
    (c.requiredAmong fields).Yields P (fun names => ∀ name, name ∈ names ↔
      ∃ field ∈ fields, field.1 = name ∧ ¬ c.AdmitsAbsence field.2.expression) E := by
  induction fields with
  | nil =>
    rw [requiredAmong]
    exact Action.yields_pure (by simp)
  | cons field rest ih =>
    rw [requiredAmong]
    obtain ⟨hf, hrest⟩ := List.forall_mem_cons.1 hfields
    refine (admitsAbsence_yields h hf).bind fun b hb => ?_
    refine (ih hrest).bind fun names hnames => Action.yields_pure fun name => ?_
    cases b <;> simp [← hb, hnames name, eq_comm]

end Composer

end WidgetSchema
