/-
The fields of a schema as questions.

A schema asks of a value whether it is a dictionary, and then one question for each field:
does what stands under the name fit the type of the field (`fieldFits`)? The question does
not mention the schema, so two schemas that give a field the same type ask the same
question, which is the same action on the memo. Whether a value is valid is whether all
questions are answered yes (`validate_schema`).

A question that was answered yes once is answered yes from every filled memo, unless the
bound on the nesting stops it; and it cannot stop it once the memo knows as much as after
the first answer (`PassedBy.again`). That passes on to lists of questions
(`allTrue_again`), so it is enough to compare the questions.
-/
import WidgetSchema.Proofs.VerdictIndependence

set_option autoImplicit false

namespace WidgetSchema

open Composer (Asking MetBound)

/-! ## Questions -/

namespace Checking

/-- All questions are asked in order, and each is answered yes. -/
def allTrue : List Asking → Action Fault Memo Bool
  | [] => return true
  | x :: xs => do
    let here ← x
    -- a check goes on behind a failure, and so do the questions behind a no
    let further ← allTrue xs
    return here && further

variable {n : Nat} {c : Composer} {heap : Heap (Fin n)}

/-- What a dictionary has under the name of a field fits the type of the field. -/
def fieldFits (c : Composer) (part : Path → Value (Fin n) → TypeExpr → Check) (path : Path)
    (entries : List (Scalar × Value (Fin n))) (name : String) (e : TypeExpr) :
    Action Fault Memo Bool :=
  let v := (Container.entry? entries name).getD (.atom .missing)
  if v.isAbsent then c.admitsAbsence e
  else List.isEmpty <$> part (path.push (.field name)) v e

/-- The questions that a schema asks of a dictionary. -/
def fieldQuestions (c : Composer) (part : Path → Value (Fin n) → TypeExpr → Check) (path : Path)
    (entries : List (Scalar × Value (Fin n))) (fields : List (String × ResolvedField)) :
    List Asking :=
  fields.map fun f => fieldFits c part path entries f.1 f.2.expression

/-- **Checking the fields finds nothing exactly if all questions are answered yes.** -/
theorem isEmpty_checkFields (part : Path → Value (Fin n) → TypeExpr → Check) (path : Path)
    (schema : ResolvedSchema) (entries : List (Scalar × Value (Fin n)))
    (fields : List (String × ResolvedField)) :
    List.isEmpty <$> checkFields c part path schema entries fields =
      allTrue (fieldQuestions c part path entries fields) := by
  have := Action.lawfulMonad (ε := Fault) (σ := Memo)
  have happend (a b : List Failure) : (a ++ b).isEmpty = (a.isEmpty && b.isEmpty) := by
    cases a <;> rfl
  induction fields with
  | nil => rfl
  | cons field rest ih =>
    obtain ⟨name, f⟩ := field
    rw [fieldQuestions, List.map_cons, allTrue, ← fieldQuestions, ← ih, checkFields, fieldFits]
    dsimp only
    split
    · -- an absent value is refused or not as the test for absence says
      simp only [map_bind, bind_map_left]
      refine bind_congr fun admits => ?_
      cases admits <;> simp [fits, refuse]
    · simp only [map_bind, bind_map_left, map_pure, happend]

/-- So is a dictionary that is not being checked already. -/
theorem isEmpty_checkStruct {part : PartCheck n} {active : List (Fin n)} {p : Fin n}
    {entries : List (Scalar × Value (Fin n))} (hp : heap p = .dict entries) (hactive : p ∉ active)
    (path : Path) (schema : ResolvedSchema) :
    List.isEmpty <$> checkStruct c heap part active path (.container p) schema =
      allTrue (fieldQuestions c (part (p :: active)) path entries schema.fields.entries) := by
  unfold checkStruct
  simp only [hp, if_neg hactive]
  exact isEmpty_checkFields _ _ _ _ _

/-- Anything else is refused at once. -/
theorem checkStruct_of_not_dict {part : PartCheck n} {active : List (Fin n)} {v : Value (Fin n)}
    (h : ∀ p entries, v = .container p → heap p ≠ .dict entries) (path : Path)
    (schema : ResolvedSchema) :
    ∃ mismatch, checkStruct c heap part active path v schema = refuse path mismatch := by
  unfold checkStruct
  cases v with
  | atom a =>
    -- nothing there and a plain value are refused with different words
    dsimp only
    split <;> exact ⟨_, rfl⟩
  | container p =>
    dsimp only
    split
    · next entries hdict => exact absurd hdict (h p entries rfl)
    all_goals exact ⟨_, rfl⟩

theorem onlyResolves_fieldFits {part : Path → Value (Fin n) → TypeExpr → Check}
    (hpart : ∀ path v e, c.OnlyResolves (part path v e)) (path : Path)
    (entries : List (Scalar × Value (Fin n))) (name : String) (e : TypeExpr) :
    c.OnlyResolves (fieldFits c part path entries name e) := by
  unfold fieldFits
  dsimp only
  split
  · exact c.onlyResolves_admitsAbsence e
  · exact (hpart _ _ _).bind fun _ => .pure _

end Checking

/-! ## Answers that stay -/

namespace Composer

open Checking (allTrue)

variable {c : Composer} {memo memo' known : Memo} {x : Asking} {xs : List Asking}

/-- The question was answered yes from a filled memo, before all that is known was. -/
def PassedBy (c : Composer) (known : Memo) (x : Asking) : Prop :=
  ∃ memo, memo.FilledFor c ∧ memo.Within known ∧ (x.run memo).outcome = .ok true

theorem PassedBy.mono (h : c.PassedBy known x) (hw : known.Within memo) : c.PassedBy memo x := by
  obtain ⟨before, hfilled, hwithin, hok⟩ := h
  exact ⟨before, hfilled, hwithin.trans hw, hok⟩

/-- **The answer stays yes.** Only the bound can prevent it, and not once as much is known. -/
theorem PassedBy.again (h : c.PassedBy known x) (hx : c.OnlyResolves x)
    (hm : memo.FilledFor c) :
    (MetBound (x.run memo).outcome ∨ (x.run memo).outcome = .ok true) ∧
      (known.Within memo → (x.run memo).outcome = .ok true) := by
  obtain ⟨before, hfilled, hwithin, hok⟩ := h
  have hfree := not_metBound hok
  constructor
  · by_cases hstop : MetBound (x.run memo).outcome
    · exact .inl hstop
    · right
      rw [← hok]
      exact (hx.agrees hfilled hm hfree hstop).symm
  · intro hknown
    -- the bound was not met on the smaller memo, so it is not on the greater one
    rw [← hok]
    exact (hx.indifferent before memo ⟨hfilled, hm, hwithin.trans hknown⟩ hfree).1

theorem onlyResolves_allTrue (hxs : ∀ x ∈ xs, c.OnlyResolves x) : c.OnlyResolves (allTrue xs) := by
  induction xs with
  | nil => exact .pure _
  | cons x xs ih =>
    obtain ⟨hx, hrest⟩ := List.forall_mem_cons.1 hxs
    exact hx.bind fun here => (ih hrest).bind fun further => .pure _

theorem allTrue_cons_eq_ok :
    ((allTrue (x :: xs)).run memo).outcome = .ok true ↔
      (x.run memo).outcome = .ok true ∧
        ((allTrue xs).run (x.run memo).state).outcome = .ok true := by
  rw [allTrue, Action.outcome_bind_eq_ok]
  constructor
  · rintro ⟨here, hhere, hrest⟩
    obtain ⟨further, hfurther, hboth⟩ := Action.outcome_bind_eq_ok.1 hrest
    have hand : (here && further) = true := Except.ok.inj hboth
    obtain ⟨rfl, rfl⟩ := (Bool.and_eq_true _ _).mp hand
    exact ⟨hhere, hfurther⟩
  · rintro ⟨hhere, hfurther⟩
    exact ⟨true, hhere, Action.outcome_bind_eq_ok.2 ⟨true, hfurther, rfl⟩⟩

/-- The state after several questions is that after the last of them. -/
theorem state_allTrue_cons (h : (x.run memo).outcome = .ok true) :
    ((allTrue (x :: xs)).run memo).state = ((allTrue xs).run (x.run memo).state).state := by
  rw [allTrue, Action.state_bind, h]
  dsimp only
  rw [Action.state_bind]
  cases ((allTrue xs).run (x.run memo).state).outcome <;> rfl

/-- If all questions are answered yes, each of them is, on the way to the last memo. -/
theorem passedBy_of_allTrue (hxs : ∀ x ∈ xs, c.OnlyResolves x) (hm : memo.FilledFor c)
    (h : ((allTrue xs).run memo).outcome = .ok true) :
    ∀ x ∈ xs, c.PassedBy ((allTrue xs).run memo).state x := by
  induction xs generalizing memo with
  | nil =>
    intro x hx
    cases hx
  | cons x xs ih =>
    obtain ⟨hx, hrest⟩ := List.forall_mem_cons.1 hxs
    obtain ⟨hhere, hfurther⟩ := allTrue_cons_eq_ok.1 h
    obtain ⟨hwithin, hfilled⟩ := hx.fills hm
    have hgrows := (onlyResolves_allTrue hrest).fills hfilled
    rw [state_allTrue_cons hhere]
    refine List.forall_mem_cons.2 ⟨⟨memo, hm, hwithin.trans hgrows.1, hhere⟩, ?_⟩
    exact ih hrest hfilled hfurther

/-- **Questions that were answered yes, one by one, are answered yes together.** -/
theorem allTrue_again (hxs : ∀ x ∈ xs, c.OnlyResolves x) (hpassed : ∀ x ∈ xs, c.PassedBy known x)
    (hm : memo.FilledFor c) :
    (MetBound ((allTrue xs).run memo).outcome ∨ ((allTrue xs).run memo).outcome = .ok true) ∧
      (known.Within memo → ((allTrue xs).run memo).outcome = .ok true) := by
  induction xs generalizing memo with
  | nil => exact ⟨.inr rfl, fun _ => rfl⟩
  | cons x xs ih =>
    obtain ⟨hx, hrest⟩ := List.forall_mem_cons.1 hxs
    obtain ⟨hfirst, hothers⟩ := List.forall_mem_cons.1 hpassed
    obtain ⟨hends, hknows⟩ := hfirst.again hx hm
    obtain ⟨hwithin, hfilled⟩ := hx.fills hm
    -- the others are asked from the memo that the first question leaves
    obtain ⟨hends', hknows'⟩ := ih hrest hothers hfilled
    constructor
    · rcases hends with ⟨name, bound, hstop⟩ | hyes
      · refine .inl ⟨name, bound, ?_⟩
        rw [allTrue, Action.outcome_bind, hstop]
      · rcases hends' with ⟨name, bound, hstop⟩ | hyes'
        · refine .inl ⟨name, bound, ?_⟩
          rw [allTrue, Action.outcome_bind, hyes]
          dsimp only
          rw [Action.outcome_bind, hstop]
        · exact .inr (allTrue_cons_eq_ok.2 ⟨hyes, hyes'⟩)
    · intro hknown
      exact allTrue_cons_eq_ok.2 ⟨hknows hknown, hknows' (hknown.trans hwithin)⟩

/-! ## Valid values -/

variable {n : Nat} {heap : Heap (Fin n)} {v : Value (Fin n)}

/-- The verdict says whether the check found nothing. -/
theorem validate_run (target : Target) :
    ((c.validate heap v target).run memo).outcome.map Verdict.valid =
        ((Checking.checkRoot c heap v target).run memo).outcome.map List.isEmpty ∧
      ((c.validate heap v target).run memo).state =
        ((Checking.checkRoot c heap v target).run memo).state := by
  unfold validate
  rw [Action.outcome_bind, Action.state_bind]
  cases ((Checking.checkRoot c heap v target).run memo).outcome <;> exact ⟨rfl, rfl⟩

/-- The questions that a schema asks of a whole value that is a dictionary. -/
def rootQuestions (c : Composer) (heap : Heap (Fin n)) (p : Fin n)
    (entries : List (Scalar × Value (Fin n))) (s : ResolvedSchema) : List Asking :=
  Checking.fieldQuestions c (Checking.checkPart c heap n [p]) .root entries s.fields.entries

theorem onlyResolves_rootQuestions (p : Fin n) (entries : List (Scalar × Value (Fin n)))
    (s : ResolvedSchema) : ∀ x ∈ c.rootQuestions heap p entries s, c.OnlyResolves x := by
  intro x hx
  obtain ⟨f, -, rfl⟩ := List.mem_map.1 hx
  exact Checking.onlyResolves_fieldFits (Checking.onlyResolves_checkPart c n [p]) _ _ _ _

/-- **A dictionary is valid exactly if it answers all questions of the schema with yes.** -/
theorem validate_schema {p : Fin n} {entries : List (Scalar × Value (Fin n))}
    (hp : heap p = .dict entries) (s : ResolvedSchema) :
    ((c.validate heap (.container p) (.schema s)).run memo).outcome.map Verdict.valid =
        ((allTrue (c.rootQuestions heap p entries s)).run memo).outcome ∧
      ((c.validate heap (.container p) (.schema s)).run memo).state =
        ((allTrue (c.rootQuestions heap p entries s)).run memo).state := by
  have hquestions : List.isEmpty <$> Checking.checkRoot c heap (.container p) (.schema s) =
      allTrue (c.rootQuestions heap p entries s) :=
    Checking.isEmpty_checkStruct hp List.not_mem_nil .root s
  rw [(validate_run _).1, (validate_run _).2, ← hquestions]
  exact ⟨(Action.outcome_map _).symm, (Action.state_map _).symm⟩

/-- Nothing but a dictionary is valid against a schema. -/
theorem exists_dict_of_valid {s : ResolvedSchema}
    (h : ((c.validate heap v (.schema s)).run memo).outcome.map Verdict.valid = .ok true) :
    ∃ p entries, v = .container p ∧ heap p = .dict entries := by
  by_contra hnone
  have hother : ∀ p entries, v = .container p → heap p ≠ .dict entries := by
    intro p entries hv hp
    exact hnone ⟨p, entries, hv, hp⟩
  have hrefuse : ∃ mismatch,
      Checking.checkStruct c heap (Checking.checkPart c heap n) [] .root v s =
        Checking.refuse .root mismatch := Checking.checkStruct_of_not_dict hother .root s
  obtain ⟨mismatch, hrefuse⟩ := hrefuse
  rw [(validate_run _).1, Checking.checkRoot, hrefuse] at h
  cases h

end Composer

end WidgetSchema
