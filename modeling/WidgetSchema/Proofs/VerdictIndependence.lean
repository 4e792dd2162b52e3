/-
What was resolved before does not change a verdict.

Two memos that resolution has filled, one of which knows all schemas that the other
knows, lead a resolution to the same answer, unless the bound on the nesting stops it on
the smaller one (`compose_steady`). Both memos are filled further, and one is still within
the other, so the comparison passes on to whatever is made of resolutions
(`OnlyResolves.indifferent`). Two filled memos of which neither knows all that the other
knows are both compared with what they know together (`OnlyResolves.agrees`).

So no verdict depends on what the session was asked before, except where the bound stops
it (`verdict_independent_of_history`).
-/
import WidgetSchema.Proofs.Independence

set_option autoImplicit false

namespace WidgetSchema

/-- The memo holds what resolution puts there: right answers, and with a schema those of
all its members. -/
structure Memo.FilledFor (memo : Memo) (c : Composer) : Prop where
  closed : memo.ClosedFor c
  sound : memo.SoundFor c

theorem Memo.FilledFor.union {c : Composer} {memo memo' : Memo} (hm : memo.FilledFor c)
    (hm' : memo'.FilledFor c) : (memo.union memo').FilledFor c where
  closed := hm.closed.union hm'.closed
  sound := ⟨(hm.closed.union hm'.closed).derived, hm.sound.expressions⟩

namespace Composer

variable {c : Composer} {memo memo' : Memo} {i key : Instantiation} {d : Definition}
  {bindings : Bindings} {α β : Type}

/-! ## How a name is resolved -/

/-- A name that cannot be completed leaves the memo alone. -/
theorem resolve_unknown (memo : Memo) {e : SchemaError} (hd : c.complete i = .error e) :
    ((c.resolve i).run memo).outcome = .error e ∧ ((c.resolve i).run memo).state = memo := by
  unfold resolve
  rw [Action.outcome_bind, Action.state_bind, Action.run_ofExcept, hd]
  exact ⟨rfl, rfl⟩

/-- A composition is resolved to its schema. -/
theorem resolve_composition (memo : Memo) (hd : c.complete i = .ok (d, bindings, key))
    (hplain : d.plainExpression? = none) :
    ((c.resolve i).run memo).outcome =
        ((c.resolveStruct i).run memo).outcome.map Resolved.schema ∧
      ((c.resolve i).run memo).state = ((c.resolveStruct i).run memo).state := by
  unfold resolve
  rw [Action.outcome_bind, Action.state_bind]
  simp only [Action.run_ofExcept, hd, hplain]
  exact ⟨Action.outcome_map _, Action.state_map _⟩

/-- Any other alias is resolved to the expression that is remembered of it. -/
theorem resolve_plain_known {body known : TypeExpr} (hd : c.complete i = .ok (d, bindings, key))
    (hplain : d.plainExpression? = some body) (hl : memo.expressions.lookup key = some known) :
    ((c.resolve i).run memo).outcome = .ok (.expression known) ∧
      ((c.resolve i).run memo).state = memo := by
  unfold resolve
  rw [Action.outcome_bind, Action.state_bind]
  simp only [Action.run_ofExcept, hd, hplain]
  rw [Action.outcome_bind, Action.state_bind]
  simp only [Action.run_get, hl]
  exact ⟨rfl, rfl⟩

/-- If none is, it is resolved to its bound expression, which is remembered. -/
theorem resolve_plain_new {body : TypeExpr} (hd : c.complete i = .ok (d, bindings, key))
    (hplain : d.plainExpression? = some body) (hl : memo.expressions.lookup key = none) :
    ((c.resolve i).run memo).outcome = .ok (.expression (body.substitute bindings)) ∧
      ((c.resolve i).run memo).state = memo.addExpression key (body.substitute bindings) := by
  unfold resolve
  rw [Action.outcome_bind, Action.state_bind]
  simp only [Action.run_ofExcept, hd, hplain]
  rw [Action.outcome_bind, Action.state_bind]
  simp only [Action.run_get, hl]
  exact ⟨rfl, rfl⟩

/-- So from every sound memo it is resolved to its bound expression, and no schema is entered. -/
theorem resolve_plain {body : TypeExpr} (hm : memo.SoundFor c)
    (hd : c.complete i = .ok (d, bindings, key)) (hplain : d.plainExpression? = some body) :
    ((c.resolve i).run memo).outcome = .ok (.expression (body.substitute bindings)) ∧
      ((c.resolve i).run memo).state.schemas = memo.schemas := by
  cases hl : memo.expressions.lookup key with
  | some known =>
    obtain ⟨houtcome, hstate⟩ := resolve_plain_known hd hplain hl
    -- a sound memo remembers this very expression
    rw [houtcome, hstate, hm.lookup hd hplain hl]
    exact ⟨rfl, rfl⟩
  | none =>
    obtain ⟨houtcome, hstate⟩ := resolve_plain_new hd hplain hl
    rw [houtcome, hstate]
    exact ⟨rfl, rfl⟩

theorem within_of_schemas_eq (h : memo.schemas = memo'.schemas) : memo.Within memo' := by
  intro other hother
  unfold Memo.Knows at hother ⊢
  rw [← h]
  exact hother

/-- A resolution fills a filled memo further and forgets nothing. -/
theorem resolve_fills (hm : memo.FilledFor c) :
    memo.Within ((c.resolve i).run memo).state ∧ ((c.resolve i).run memo).state.FilledFor c := by
  refine ⟨?_, keeps_resolve_closedFor i memo hm.closed, (resolve_denotes hm.sound).1⟩
  cases hd : c.complete i with
  | error e =>
    rw [(resolve_unknown memo hd).2]
    exact .refl memo
  | ok found =>
    obtain ⟨d, bindings, key⟩ := found
    cases hplain : d.plainExpression? with
    | none =>
      rw [(resolve_composition memo hd hplain).2]
      exact (compose_closes c.maxDepth [] i memo hm.closed).within
    | some body => exact within_of_schemas_eq (resolve_plain hm.sound hd hplain).2.symm

/-! ## Two memos -/

/-- Two filled memos of which the second knows all schemas that the first knows. -/
structure Ordered (c : Composer) (memo memo' : Memo) : Prop where
  inner : memo.FilledFor c
  outer : memo'.FilledFor c
  within : memo.Within memo'

/-- The bound on the nesting was met. -/
def MetBound (outcome : Except Fault α) : Prop :=
  ∃ name bound, outcome = .error (.schema (.resolutionDepth name bound))

theorem not_metBound {outcome : Except Fault α} {a : α} (h : outcome = .ok a) :
    ¬ MetBound outcome := by
  rintro ⟨name, bound, hbound⟩
  rw [hbound] at h
  cases h

/-- More in the memo changes nothing: unless the bound stops the action on the smaller
memo, it ends alike on the greater one, which stays the greater. -/
def Indifferent (c : Composer) (x : Action Fault Memo α) : Prop :=
  ∀ memo memo', c.Ordered memo memo' → ¬ MetBound (x.run memo).outcome →
    (x.run memo').outcome = (x.run memo).outcome ∧
      c.Ordered (x.run memo).state (x.run memo').state

/-- So it is for an action that leaves the memo alone and does not look at it. -/
theorem indifferent_of_const {x : Action Fault Memo α} {outcome : Except Fault α}
    (h : ∀ memo, (x.run memo).outcome = outcome ∧ (x.run memo).state = memo) :
    c.Indifferent x := by
  intro memo memo' ho _
  rw [(h memo).1, (h memo').1, (h memo).2, (h memo').2]
  exact ⟨rfl, ho⟩

theorem Indifferent.bind {x : Action Fault Memo α} {f : α → Action Fault Memo β}
    (hx : c.Indifferent x) (hf : ∀ a, c.Indifferent (f a)) : c.Indifferent (x >>= f) := by
  intro memo memo' ho hstop
  rw [Action.outcome_bind] at hstop
  -- a first part that is stopped stops the sequence
  have hfirst : ¬ MetBound (x.run memo).outcome := by
    rintro ⟨name, bound, hbound⟩
    rw [hbound] at hstop
    exact hstop ⟨name, bound, rfl⟩
  obtain ⟨houtcome, hstates⟩ := hx memo memo' ho hfirst
  rw [Action.outcome_bind, Action.outcome_bind, Action.state_bind, Action.state_bind, houtcome]
  cases hresult : (x.run memo).outcome with
  | error e => exact ⟨rfl, hstates⟩
  | ok a =>
    rw [hresult] at hstop
    exact hf a _ _ hstates hstop

/-- **One resolution.** Schemas are the same by `compose_steady`, and expressions are the
same from all sound memos. -/
theorem indifferent_resolve (i : Instantiation) :
    c.Indifferent ((c.resolve i).mapError Fault.schema) := by
  intro memo memo' ho hstop
  replace hstop : ¬ MetBound (((c.resolve i).run memo).outcome.mapError Fault.schema) := hstop
  show ((c.resolve i).run memo').outcome.mapError Fault.schema =
      ((c.resolve i).run memo).outcome.mapError Fault.schema ∧
    c.Ordered ((c.resolve i).run memo).state ((c.resolve i).run memo').state
  suffices hsame : ((c.resolve i).run memo').outcome = ((c.resolve i).run memo).outcome ∧
      ((c.resolve i).run memo).state.Within ((c.resolve i).run memo').state by
    rw [hsame.1]
    exact ⟨rfl, (resolve_fills ho.inner).2, (resolve_fills ho.outer).2, hsame.2⟩
  cases hd : c.complete i with
  | error e =>
    obtain ⟨houtcome, hstate⟩ := resolve_unknown memo hd
    obtain ⟨houtcome', hstate'⟩ := resolve_unknown memo' hd
    rw [houtcome, houtcome', hstate, hstate']
    exact ⟨rfl, ho.within⟩
  | ok found =>
    obtain ⟨d, bindings, key⟩ := found
    cases hplain : d.plainExpression? with
    | none =>
      obtain ⟨houtcome, hstate⟩ := resolve_composition memo hd hplain
      obtain ⟨houtcome', hstate'⟩ := resolve_composition memo' hd hplain
      rw [houtcome] at hstop
      -- schemas are composed here, and only here the bound can be met
      have hstruct : ¬ StoppedByDepth ((c.resolveStruct i).run memo).outcome := by
        rintro ⟨name, bound, hbound⟩
        rw [hbound] at hstop
        exact hstop ⟨name, bound, rfl⟩
      obtain ⟨hsame, hwithin⟩ := compose_steady c.maxDepth (beneath_nil i) memo memo'
        ⟨ho.inner.closed, ho.outer.closed, ho.within⟩ hstruct
      rw [houtcome, houtcome', hstate, hstate']
      exact ⟨congrArg (Except.map Resolved.schema) hsame, hwithin⟩
    | some body =>
      obtain ⟨houtcome, hschemas⟩ := resolve_plain ho.inner.sound hd hplain
      obtain ⟨houtcome', hschemas'⟩ := resolve_plain ho.outer.sound hd hplain
      rw [houtcome, houtcome']
      refine ⟨rfl, (within_of_schemas_eq hschemas).trans ?_⟩
      exact ho.within.trans (within_of_schemas_eq hschemas'.symm)

/-! ## What only resolves -/

/-- **More in the memo changes nothing for whatever only resolves.** -/
theorem OnlyResolves.indifferent {x : Action Fault Memo α} (h : c.OnlyResolves x) :
    c.Indifferent x := by
  induction h with
  | pure a => exact indifferent_of_const fun _ => ⟨rfl, rfl⟩
  | fail e => exact indifferent_of_const fun _ => ⟨rfl, rfl⟩
  | note level topic message => exact indifferent_of_const fun _ => ⟨rfl, rfl⟩
  | resolve e =>
    unfold resolveExpression
    cases e.instantiation? with
    | none => exact indifferent_of_const fun _ => ⟨rfl, rfl⟩
    | some i => exact indifferent_resolve i
  | bind hx hf ihx ihf => exact ihx.bind ihf

/-- Whatever only resolves fills a filled memo further and forgets nothing. -/
theorem OnlyResolves.fills {x : Action Fault Memo α} (h : c.OnlyResolves x)
    (hm : memo.FilledFor c) :
    memo.Within (x.run memo).state ∧ (x.run memo).state.FilledFor c := by
  refine h.keeps (P := fun m => memo.Within m ∧ m.FilledFor c) (fun e => ?_) memo ⟨.refl memo, hm⟩
  unfold resolveExpression
  cases e.instantiation? with
  | none => exact Action.keeps_pure _
  | some i =>
    rintro m ⟨hwithin, hfilled⟩
    obtain ⟨hgrows, hfilled'⟩ := resolve_fills (i := i) hfilled
    exact ⟨hwithin.trans hgrows, hfilled'⟩

/-- **What only resolves ends alike from all filled memos**, unless the bound stops it. -/
theorem OnlyResolves.agrees {x : Action Fault Memo α} (h : c.OnlyResolves x)
    (hm : memo.FilledFor c) (hm' : memo'.FilledFor c) (hstop : ¬ MetBound (x.run memo).outcome)
    (hstop' : ¬ MetBound (x.run memo').outcome) :
    (x.run memo).outcome = (x.run memo').outcome := by
  -- neither memo need be within the other, but both are within what they know together
  have hboth := hm.union hm'
  obtain ⟨hleft, -⟩ := h.indifferent _ _ ⟨hm, hboth, Memo.within_union_left⟩ hstop
  obtain ⟨hright, -⟩ := h.indifferent _ _ ⟨hm', hboth, Memo.within_union_right⟩ hstop'
  rw [← hleft, ← hright]

end Composer

/-! ## Sessions -/

namespace Session

open Composer (MetBound)

variable {α : Type}

theorem lasting_filledFor : Lasting fun c memo => memo.FilledFor c where
  empty c := ⟨.empty c, .empty c⟩
  mono _ _ _ hc h := ⟨h.closed.mono hc, h.sound.mono hc⟩
  resolveStruct _ i memo h :=
    ⟨Composer.keeps_resolveStruct_closedFor i memo h.closed,
      Composer.keeps_resolveStruct_soundFor i memo h.sound⟩
  resolve _ _ _ h := (Composer.resolve_fills h).2

/-- Histories that leave one registry leave one composer. -/
theorem composer_after {env : Environment} {maxDepth : Option Int} {prelude : Bool}
    {history other : List Call}
    (h : ((opened env maxDepth prelude).after other).registry =
      ((opened env maxDepth prelude).after history).registry) :
    ((opened env maxDepth prelude).after other).composer =
      ((opened env maxDepth prelude).after history).composer := by
  have hbound (calls : List Call) :=
    (leadsTo_after lasting_filledFor (opened env maxDepth prelude) calls).same_bound
  unfold composer
  rw [h, hbound history, hbound other]

/-- **No verdict depends on history.** Where two histories of calls on one session leave
the same registry, a value gets the same verdict against a target after both of them, or
the same error, unless the bound on the nesting stops one of the two checks. -/
theorem verdict_independent_of_history (env : Environment) (maxDepth : Option Int)
    (prelude : Bool) (history other : List Call) (value : ValueGraph) (target : Target) :
    let s := (opened env maxDepth prelude).after history
    let s' := (opened env maxDepth prelude).after other
    s'.registry = s.registry →
      MetBound ((validate value target).run s).outcome ∨
        MetBound ((validate value target).run s').outcome ∨
        ((validate value target).run s).outcome = ((validate value target).run s').outcome := by
  intro s s' hregistry
  have hfilled : s.memo.FilledFor s.composer := lasting_filledFor.after env maxDepth prelude history
  have hfilled' : s'.memo.FilledFor s'.composer :=
    lasting_filledFor.after env maxDepth prelude other
  have hcomposer : s'.composer = s.composer := composer_after hregistry
  rw [hcomposer] at hfilled'
  -- so both checks are one action, from two filled memos
  have honly : s.composer.OnlyResolves (s.composer.validate value.heap value.root target) :=
    s.composer.onlyResolves_validate value.root target
  have hagrees := honly.agrees hfilled hfilled'
  have hrun : ((validate value target).run s').outcome =
      ((s.composer.validate value.heap value.root target).run s'.memo).outcome := by
    rw [← hcomposer]
    rfl
  rw [hrun]
  by_cases hstop : MetBound ((validate value target).run s).outcome
  · exact .inl hstop
  · by_cases hstop' : MetBound
        ((s.composer.validate value.heap value.root target).run s'.memo).outcome
    · exact .inr (.inl hstop')
    · exact .inr (.inr (hagrees hstop hstop'))

end Session

end WidgetSchema
