/-
What a resolution answers does not depend on what was resolved before, as far as
the depth bound lets it answer.

Two closed memos, one of which knows all that the other knows, are compared step
by step. Where the smaller memo leads to an answer before the bound is met, the
greater one leads to the same: what it knows saves compositions and changes none,
and what is being composed is never among it, because whatever stands on the
chain is derived above what is being resolved (`Beneath`).

The bound itself does depend on the past. It counts compositions that stand
inside each other, and a remembered schema is not composed again, so a chain of
supertypes that is too long for a new memo is resolved after a part of it has
been (`remembered_chain_is_shorter`).
-/
import WidgetSchema.Proofs.ClosedMemos
import WidgetSchema.Proofs.Histories

set_option autoImplicit false

namespace WidgetSchema

namespace Composer

variable {c : Composer} {memo memo' : Memo} {i j : Instantiation} {p : Plan}
  {chain : List Instantiation} {members : List TypeExpr} {s : ResolvedSchema}

/-! ## The chain stands above -/

/-- Whatever completes to an instantiation on the chain is derived above `i`. -/
def Beneath (c : Composer) (chain : List Instantiation) (i : Instantiation) : Prop :=
  ∀ j p height s, c.plan j = .ok p → p.key ∈ chain → c.derive (height + 1) j = some s →
    ∃ t, c.derive height i = some t

theorem beneath_nil (i : Instantiation) : c.Beneath [] i := by
  intro j p height s _ hkey
  cases hkey

/-- A member of what is put on the chain is beneath it. -/
theorem Beneath.append (h : c.Beneath chain i) (hp : c.plan i = .ok p) {t : TypeExpr}
    (ht : t ∈ p.members) (hj : t.instantiation? = some j) : c.Beneath (chain ++ [p.key]) j := by
  have hbelow : ∀ height u, c.derive (height + 1) i = some u → ∃ v, c.derive height j = some v := by
    intro height u hu
    obtain ⟨q, parents, hq, hparents, -⟩ := derive_succ_eq_some.1 hu
    rw [hp] at hq
    cases hq
    obtain ⟨v, -, hv⟩ := exists_derive_of_member hparents ht hj
    exact ⟨v, hv⟩
  intro k q height s hq hkey hs
  rcases List.mem_append.1 hkey with hkey | hkey
  · obtain ⟨u, hu⟩ := h k q height s hq hkey hs
    -- nothing is derived at height zero
    cases height with
    | zero => simp [derive] at hu
    | succ height =>
      obtain ⟨v, hv⟩ := hbelow height u hu
      exact ⟨v, derive_succ hv⟩
  · have hqp : q = p := plan_eq_of_key_eq hq hp (List.mem_singleton.1 hkey)
    have hplan : c.plan k = c.plan i := by rw [hq, hp, hqp]
    rw [derive_congr hplan] at hs
    exact hbelow height s hs

/-- At its least height an instantiation is derived below the whole chain. -/
theorem Beneath.exists_above (h : c.Beneath chain i) (hs : c.Derives i s) :
    ∃ height, c.derive height i = some s ∧ c.Above height chain := by
  classical
  have hexists : ∃ height, ∃ t, c.derive height i = some t := by
    obtain ⟨height, hheight⟩ := hs
    exact ⟨height, s, hheight⟩
  obtain ⟨t, ht⟩ := Nat.find_spec hexists
  have hts : t = s := Derives.unique ⟨_, ht⟩ hs
  refine ⟨Nat.find hexists, by rw [ht, hts], ?_⟩
  intro k q hq hkey
  cases hk : c.derive (Nat.find hexists) k with
  | none => rfl
  | some u =>
    -- then the instantiation itself would be derived lower still
    cases hleast : Nat.find hexists with
    | zero =>
      rw [hleast] at hk
      simp [derive] at hk
    | succ height =>
      rw [hleast] at hk
      have hlower := h k q height u hq hkey hk
      exact absurd hlower (Nat.find_min hexists (by omega))

/-! ## Two memos -/

/-- Two memos of which the second knows all that the first knows, both filled by
resolution. -/
structure Nested (c : Composer) (memo memo' : Memo) : Prop where
  inner : memo.ClosedFor c
  outer : memo'.ClosedFor c
  within : memo.Within memo'

/-- More in the memo changes nothing: unless the bound stops the request on the
smaller memo, it ends alike on the greater one, which stays the greater. -/
def Steady {α : Type} (c : Composer) (x : Resolving α) : Prop :=
  ∀ memo memo', c.Nested memo memo' → ¬ StoppedByDepth (x.run memo).outcome →
    (x.run memo').outcome = (x.run memo).outcome ∧ (x.run memo).state.Within (x.run memo').state

/-- The loop over the members is steady, if resolving them is. -/
theorem mergeEach_steady {resolve : Instantiation → Resolving ResolvedSchema}
    (hclose : c.Closes resolve)
    (hsteady : ∀ t ∈ members, ∀ j, t.instantiation? = some j → c.Steady (resolve j))
    (owner : String) (merged : Merged) : c.Steady (mergeEach resolve owner members merged) := by
  intro memo memo' hn hstop
  induction members generalizing memo memo' merged with
  | nil => exact ⟨rfl, hn.within⟩
  | cons member rest ih =>
    cases hi : member.instantiation? with
    | none =>
      rw [mergeEach_outcome_none owner rest merged hi, mergeEach_outcome_none owner rest merged hi,
        mergeEach_state_none owner rest merged hi, mergeEach_state_none owner rest merged hi]
      exact ⟨rfl, hn.within⟩
    | some i =>
      rw [mergeEach_outcome_some owner rest merged hi] at hstop
      -- a member that is stopped stops the loop
      have hmember : ¬ StoppedByDepth ((resolve i).run memo).outcome := by
        rintro ⟨name, bound, hbound⟩
        rw [hbound] at hstop
        exact hstop ⟨name, bound, rfl⟩
      obtain ⟨houtcome, hwithin⟩ :=
        hsteady member (List.mem_cons_self ..) i hi memo memo' hn hmember
      have hstates : c.Nested ((resolve i).run memo).state ((resolve i).run memo').state :=
        ⟨(hclose i memo hn.inner).closed, (hclose i memo' hn.outer).closed, hwithin⟩
      rw [mergeEach_outcome_some owner rest merged hi, mergeEach_outcome_some owner rest merged hi,
        mergeEach_state_some owner rest merged hi, mergeEach_state_some owner rest merged hi,
        houtcome]
      cases hparent : ((resolve i).run memo).outcome with
      | error e => exact ⟨rfl, hwithin⟩
      | ok parent =>
        rw [hparent] at hstop
        dsimp only at hstop ⊢
        cases hmerge : mergeMember merged.held parent with
        | error conflict => exact ⟨rfl, hwithin⟩
        | ok held =>
          rw [hmerge] at hstop
          have hrest := fun t ht => hsteady t (List.mem_cons_of_mem _ ht)
          exact ih hrest _ _ _ hstates hstop

/-- So is a composition, which enters its schema into both memos or into none. -/
theorem composeNew_steady {resolve : Instantiation → Resolving ResolvedSchema}
    (hclose : c.Closes resolve)
    (hsteady : ∀ t ∈ p.members, ∀ j, t.instantiation? = some j → c.Steady (resolve j)) :
    c.Steady (composeNew resolve p.key p.bindings p.parts) := by
  intro memo memo' hn hstop
  obtain ⟨houtcome, hstate⟩ := @composeNew_run memo resolve p
  obtain ⟨houtcome', hstate'⟩ := @composeNew_run memo' resolve p
  have hmerging : ¬ StoppedByDepth ((mergeEach resolve p.key.name p.members
      { held := .empty, lineage := [] }).run memo).outcome := by
    rintro ⟨name, bound, hbound⟩
    rw [houtcome, hbound] at hstop
    exact hstop ⟨name, bound, rfl⟩
  obtain ⟨hsame, hwithin⟩ := mergeEach_steady hclose hsteady p.key.name _ memo memo' hn hmerging
  rw [houtcome, houtcome', hstate, hstate', hsame]
  split
  · exact ⟨rfl, hwithin⟩
  · exact ⟨rfl, hwithin.addSchema _ _⟩

/-- **More in the memo changes no answer.** What is answered from the smaller memo
before the bound is met, is answered from the greater one. The induction is on
the room that is left below the bound. -/
theorem compose_steady (room : Nat) (hbeneath : c.Beneath chain i) :
    c.Steady (c.compose room chain i) := by
  induction room using Nat.strongRecOn generalizing chain i with
  | ind room ih =>
    intro memo memo' hn hstop
    cases hc : c.complete i with
    | error e =>
      -- both memos are left alone
      have hstart (m : Memo) : ((c.start chain i).run m).outcome = .error e := by
        rw [start_outcome, hc]
      rw [compose_outcome, compose_outcome, compose_state, compose_state, hstart, hstart]
      exact ⟨rfl, hn.within⟩
    | ok found =>
      obtain ⟨d, bindings, key⟩ := found
      cases hl' : memo'.schemas.lookup key with
      | some s =>
        -- the greater memo knows the answer, and the smaller one leads there
        have hderives : c.Derives i s := hn.outer.derived.lookup hc hl'
        obtain ⟨height, hheight, habove⟩ := hbeneath.exists_above hderives
        have hknows : memo'.Knows key := by simp [Memo.Knows, hl']
        have hstart : ((c.start chain i).run memo').outcome = .ok (.known s) := by
          rw [start_outcome, hc]
          simp only [hl']
        have hok : ((c.compose room chain i).run memo).outcome = .ok s := by
          rcases compose_reaches room habove i s memo hn.inner.derived hheight with h | h
          · exact absurd h hstop
          · exact h
        constructor
        · rw [hok, compose_outcome, hstart]
        · rw [@compose_state c memo' i chain room, hstart]
          exact compose_within hn.outer room chain ⟨d, bindings, key, hc, hknows⟩ hn.within
      | none =>
        -- neither memo knows it, so both begin alike
        have hl : memo.schemas.lookup key = none := by
          cases hl : memo.schemas.lookup key with
          | none => rfl
          | some s =>
            have hknows : memo'.Knows key := hn.within key (by simp [Memo.Knows, hl])
            simp [Memo.Knows, hl'] at hknows
        have hstart : ((c.start chain i).run memo').outcome =
            ((c.start chain i).run memo).outcome := by
          rw [start_outcome, start_outcome, hc]
          simp only [hl, hl']
        rw [compose_outcome] at hstop
        rw [compose_outcome, compose_outcome, compose_state, compose_state, hstart]
        cases hs : ((c.start chain i).run memo).outcome with
        | error e => exact ⟨rfl, hn.within⟩
        | ok start =>
          rw [hs] at hstop
          cases start with
          | known s => exact ⟨rfl, hn.within⟩
          | fresh key' bindings' parts =>
            cases room with
            | zero => exact absurd ⟨_, _, rfl⟩ hstop
            | succ room =>
              have hp : c.plan i = .ok { key := key', bindings := bindings', parts } :=
                start_eq_fresh hs
              have hmembers := fun t ht j hj =>
                ih room (Nat.lt_succ_self _) (@Beneath.append c i j _ chain hbeneath hp t ht hj)
              exact composeNew_steady (compose_closes room _) hmembers memo memo' hn hstop

theorem resolveStruct_agrees (hn : c.Nested memo memo')
    (hstop : ¬ StoppedByDepth ((c.resolveStruct i).run memo).outcome) :
    ((c.resolveStruct i).run memo').outcome = ((c.resolveStruct i).run memo).outcome :=
  (compose_steady c.maxDepth (beneath_nil i) memo memo' hn hstop).1

/-- Of two closed memos neither need know what the other knows: both are compared
with all that they know together. -/
theorem resolveStruct_independent (hm : memo.ClosedFor c) (hm' : memo'.ClosedFor c)
    (hstop : ¬ StoppedByDepth ((c.resolveStruct i).run memo).outcome)
    (hstop' : ¬ StoppedByDepth ((c.resolveStruct i).run memo').outcome) :
    ((c.resolveStruct i).run memo).outcome = ((c.resolveStruct i).run memo').outcome := by
  have hboth := hm.union hm'
  have hleft := resolveStruct_agrees ⟨hm, hboth, Memo.within_union_left⟩ hstop
  have hright := resolveStruct_agrees ⟨hm', hboth, Memo.within_union_right⟩ hstop'
  rw [← hleft, ← hright]

end Composer

namespace Session

variable {s : Session} {history : List Call} {i : Instantiation}

theorem lasting_closedFor : Lasting fun c memo => memo.ClosedFor c where
  empty := Memo.ClosedFor.empty
  mono _ _ _ hc h := h.mono hc
  resolveStruct _ i := Composer.keeps_resolveStruct_closedFor i
  resolve _ i := Composer.keeps_resolve_closedFor i

/-- What a name with arguments resolves to as a schema, after calls. -/
def answer (s : Session) (history : List Call) (i : Instantiation) :
    Except Fault ResolvedSchema :=
  ((resolveStruct i).run (s.after history)).outcome

/-- The answer is that the bound on the nesting was met. -/
def StoppedByBound (answer : Except Fault ResolvedSchema) : Prop :=
  ∃ name bound, answer = .error (.schema (.resolutionDepth name bound))

theorem stoppedByBound_mapError {outcome : Except SchemaError ResolvedSchema} :
    StoppedByBound (outcome.mapError .schema) ↔ Composer.StoppedByDepth outcome := by
  constructor
  · rintro ⟨name, bound, h⟩
    cases outcome with
    | ok t => cases h
    | error e =>
      cases h
      exact ⟨name, bound, rfl⟩
  · rintro ⟨name, bound, rfl⟩
    exact ⟨name, bound, rfl⟩

/-- On a frozen registry all answers come from one composer and a closed memo. -/
theorem answer_of_frozen (hfrozen : s.registry.frozen = true) (hnew : s.memo = .empty)
    (history : List Call) (i : Instantiation) :
    (s.after history).memo.ClosedFor s.composer ∧ s.answer history i =
      ((s.composer.resolveStruct i).run (s.after history).memo).outcome.mapError .schema := by
  have hleads := leadsTo_after lasting_closedFor s history
  have hcomposer : (s.after history).composer = s.composer := by
    unfold composer
    rw [hleads.frozen_registry hfrozen, hleads.same_bound]
  have hempty : s.memo.ClosedFor s.composer := by
    rw [hnew]
    exact .empty _
  have hclosed := hleads.keeps hempty
  rw [hcomposer] at hclosed
  refine ⟨hclosed, ?_⟩
  rw [← hcomposer]
  rfl

/-- **Answers do not depend on history, as far as the bound lets them be given.**
On a frozen registry that nothing was resolved on, two histories of calls lead to
the same answer, be it a schema or an error, unless the bound stops one of the
two resolutions; and where the bound does not stop the first resolution of all,
it stops none. -/
theorem outcome_independent_of_history (s : Session) (hfrozen : s.registry.frozen = true)
    (hnew : s.memo = .empty) (history other : List Call) (i : Instantiation) :
    (¬ StoppedByBound (s.answer history i) → ¬ StoppedByBound (s.answer other i) →
        s.answer history i = s.answer other i) ∧
      (¬ StoppedByBound (s.answer [] i) → s.answer history i = s.answer [] i) := by
  obtain ⟨hclosed, hanswer⟩ := answer_of_frozen hfrozen hnew history i
  obtain ⟨hclosed', hanswer'⟩ := answer_of_frozen hfrozen hnew other i
  obtain ⟨hfirst, hanswer₀⟩ := answer_of_frozen hfrozen hnew [] i
  rw [hanswer, hanswer', hanswer₀]
  simp only [stoppedByBound_mapError]
  constructor
  · intro hstop hstop'
    rw [Composer.resolveStruct_independent hclosed hclosed' hstop hstop']
  · intro hstop
    -- nothing is known at first, so whatever is known later is more
    have hwithin : (s.after []).memo.Within (s.after history).memo := by
      have hmemo : (s.after []).memo = .empty := hnew
      rw [hmemo]
      exact Memo.empty_within _
    rw [Composer.resolveStruct_agrees ⟨hfirst, hclosed, hwithin⟩ hstop]

theorem not_stoppedByBound {answer : Except Fault ResolvedSchema} (h : answer.isOk = true) :
    ¬ StoppedByBound answer := by
  rintro ⟨name, bound, rfl⟩
  cases h

open Composer.ofPlainTypes in
/-- A type with a supertype that has a supertype, under a bound of two. -/
def chainOfThree : Session :=
  (opened .empty (some 2) false).after
    [.register "A" (.definition (plain "A" [] [("x", "number")]) .none),
     .register "B" (.definition (plain "B" ["A"] []) .none),
     .register "C" (.definition (plain "C" ["B"] []) .none),
     .freeze]

/-- `C` is the same whether `A` or `B` is remembered, and `B` whether anything is or not. -/
theorem chainOfThree_answers :
    chainOfThree.answer [.resolveStruct ⟨"A", []⟩] ⟨"C", []⟩ =
        chainOfThree.answer [.resolveStruct ⟨"B", []⟩] ⟨"C", []⟩ ∧
      chainOfThree.answer [.resolveStruct ⟨"A", []⟩] ⟨"B", []⟩ =
        chainOfThree.answer [] ⟨"B", []⟩ := by
  have hfrozen : chainOfThree.registry.frozen = true := by decide
  have hnew : chainOfThree.memo = .empty := rfl
  have hA : (chainOfThree.answer [.resolveStruct ⟨"A", []⟩] ⟨"C", []⟩).isOk = true := by decide
  have hB : (chainOfThree.answer [.resolveStruct ⟨"B", []⟩] ⟨"C", []⟩).isOk = true := by decide
  have hfirst : (chainOfThree.answer [] ⟨"B", []⟩).isOk = true := by decide
  exact ⟨(outcome_independent_of_history chainOfThree hfrozen hnew _ _ ⟨"C", []⟩).1
      (not_stoppedByBound hA) (not_stoppedByBound hB),
    (outcome_independent_of_history chainOfThree hfrozen hnew _ [] ⟨"B", []⟩).2
      (not_stoppedByBound hfirst)⟩

/-- Resolving `C` at once meets the bound at `A`, and once `A` is remembered it does not. -/
theorem remembered_chain_is_shorter :
    chainOfThree.registry.frozen = true ∧
      chainOfThree.answer [] ⟨"C", []⟩ = .error (.schema (.resolutionDepth "A" 2)) ∧
      (chainOfThree.answer [.resolveStruct ⟨"A", []⟩] ⟨"C", []⟩).isOk = true := by
  refine ⟨by decide, rfl, by decide⟩

end Session

end WidgetSchema
