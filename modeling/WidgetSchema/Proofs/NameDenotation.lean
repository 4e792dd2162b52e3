/-
What a type name denotes, and memos that know nothing else.

`Denotes` says by the definitions alone what a name with arguments resolves to: a
composition has its derived schema, any other alias its expression with the
arguments put in. There is one such answer at most (`Denotes.unique`), and it
stays the answer in every registry that extends this one.

A memo is sound if both of its tables hold denoted answers only. Resolution keeps
it so and answers from it what the definitions say (`resolve_denotes`).
-/
import WidgetSchema.Proofs.MemoDerivation
import WidgetSchema.Proofs.RegistryGrowth

set_option autoImplicit false

namespace WidgetSchema

namespace Composer

variable {c c' : Composer} {i j : Instantiation}

/-- What an instantiation resolves to by the definitions alone. -/
inductive Denotes (c : Composer) (i : Instantiation) : Resolved → Prop
  /-- A composition: members flattened from left to right, own fields laid over them. -/
  | schema {d : Definition} {bindings : Bindings} {key : Instantiation} {s : ResolvedSchema}
      (hd : c.complete i = .ok (d, bindings, key)) (hplain : d.plainExpression? = none)
      (hs : c.Derives i s) : Denotes c i (.schema s)
  /-- Any other alias: its expression, with the parameters replaced by what they are bound to. -/
  | expression {d : Definition} {bindings : Bindings} {key : Instantiation} {e : TypeExpr}
      (hd : c.complete i = .ok (d, bindings, key)) (hplain : d.plainExpression? = some e) :
      Denotes c i (.expression (e.substitute bindings))

/-- **A name with arguments denotes one type at most.** -/
theorem Denotes.unique {r t : Resolved} (hr : c.Denotes i r) (ht : c.Denotes i t) : r = t := by
  cases hr with
  | schema hd hplain hs =>
    cases ht with
    | schema _ _ hs' => rw [hs.unique hs']
    | expression hd' hplain' =>
      rw [hd] at hd'
      cases hd'
      rw [hplain] at hplain'
      cases hplain'
  | expression hd hplain =>
    cases ht with
    | schema hd' hplain' _ =>
      rw [hd] at hd'
      cases hd'
      rw [hplain] at hplain'
      cases hplain'
    | expression hd' hplain' =>
      rw [hd] at hd'
      cases hd'
      rw [hplain] at hplain'
      cases hplain'
      rfl

theorem Denotes.mono (h : c'.registry.Extends c.registry) {r : Resolved}
    (hr : c.Denotes i r) : c'.Denotes i r := by
  cases hr with
  | schema hd hplain hs => exact .schema (complete_mono h hd) hplain (hs.mono h)
  | expression hd hplain => exact .expression (complete_mono h hd) hplain

/-- Instantiations that complete alike have one definition and one set of bindings. -/
theorem complete_eq_of_key_eq {d e : Definition} {bindings bindings' : Bindings}
    {key : Instantiation} (hi : c.complete i = .ok (d, bindings, key))
    (hj : c.complete j = .ok (e, bindings', key)) : d = e ∧ bindings = bindings' := by
  obtain ⟨hli, hbi, hni⟩ := complete_eq_ok.1 hi
  obtain ⟨hlj, hbj, hnj⟩ := complete_eq_ok.1 hj
  have hde : d = e := by
    rw [← hni, hnj, hlj] at hli
    cases hli
    rfl
  refine ⟨hde, ?_⟩
  rw [bind_eq_zip hbi, bind_eq_zip hbj, hde]

end Composer

/-! ## Sound memos -/

/-- Both tables of a memo hold only what the definitions say: each schema is
derived, and each expression is that of the alias its key completes. -/
structure Memo.SoundFor (memo : Memo) (c : Composer) : Prop where
  schemas : memo.DerivedBy c
  expressions : ∀ key e, (key, e) ∈ memo.expressions → ∃ i d bindings body,
    c.complete i = .ok (d, bindings, key) ∧ d.plainExpression? = some body ∧
      e = body.substitute bindings

namespace Memo.SoundFor

variable {c c' : Composer} {memo : Memo} {i key : Instantiation} {d : Definition}
  {bindings : Bindings}

theorem empty (c : Composer) : Memo.empty.SoundFor c where
  schemas := Memo.empty_derivedBy c
  expressions key e h := by simp [Memo.empty] at h

/-- **A sound memo stays sound when definitions are added.** -/
theorem mono (h : memo.SoundFor c) (hc : c'.registry.Extends c.registry) :
    memo.SoundFor c' where
  schemas key s hs := by
    obtain ⟨hkey, i, hi⟩ := h.schemas key s hs
    exact ⟨hkey, i, hi.mono hc⟩
  expressions key e he := by
    obtain ⟨i, d, bindings, body, hd, hbody, heq⟩ := h.expressions key e he
    exact ⟨i, d, bindings, body, Composer.complete_mono hc hd, hbody, heq⟩

/-- What is remembered of the expression of an alias is what it denotes. -/
theorem lookup (h : memo.SoundFor c) {body e : TypeExpr}
    (hd : c.complete i = .ok (d, bindings, key)) (hbody : d.plainExpression? = some body)
    (he : memo.expressions.lookup key = some e) : e = body.substitute bindings := by
  obtain ⟨j, d', bindings', body', hd', hbody', heq⟩ := h.expressions key e (mem_of_lookup he)
  -- the entry was made for an instantiation that completes to the same key
  obtain ⟨hdd, hbb⟩ := Composer.complete_eq_of_key_eq hd hd'
  rw [← hdd, hbody] at hbody'
  cases hbody'
  rw [heq, hbb]

theorem addExpression (h : memo.SoundFor c) {body : TypeExpr}
    (hd : c.complete i = .ok (d, bindings, key)) (hbody : d.plainExpression? = some body) :
    (memo.addExpression key (body.substitute bindings)).SoundFor c where
  schemas := h.schemas
  expressions key' e he := by
    rcases List.mem_append.1 he with he | he
    · exact h.expressions key' e he
    · cases List.mem_singleton.1 he
      exact ⟨i, d, bindings, body, hd, hbody, rfl⟩

end Memo.SoundFor

/-! ## Resolution from a sound memo -/

namespace Composer

variable {c : Composer} {memo : Memo} {i : Instantiation}

/-- Composing leaves the table of expressions alone. -/
theorem expressions_resolveStruct :
    ((c.resolveStruct i).run memo).state.expressions = memo.expressions :=
  keeps_compose (P := fun m => m.expressions = memo.expressions) (fun _ _ _ h => h) _ _ _ memo rfl

theorem keeps_resolveStruct_soundFor (i : Instantiation) :
    (c.resolveStruct i).Keeps (Memo.SoundFor · c) := by
  intro memo hm
  refine ⟨resolveStruct_state hm.schemas, ?_⟩
  rw [expressions_resolveStruct]
  exact hm.expressions

/-- **Resolving keeps a memo sound**, whether it succeeds or fails, and returns
what the name denotes. -/
theorem resolve_denotes (hm : memo.SoundFor c) :
    ((c.resolve i).run memo).state.SoundFor c ∧
      ∀ r, ((c.resolve i).run memo).outcome = .ok r → c.Denotes i r := by
  unfold resolve
  rw [Action.state_bind, Action.outcome_bind]
  simp only [Action.run_ofExcept]
  cases hd : c.complete i with
  | error e =>
    refine ⟨hm, ?_⟩
    rintro r ⟨⟩
  | ok found =>
    obtain ⟨d, bindings, key⟩ := found
    dsimp only
    cases hplain : d.plainExpression? with
    | none =>
      refine ⟨(keeps_resolveStruct_soundFor i).map Resolved.schema memo hm, ?_⟩
      intro r hr
      obtain ⟨s, hs, hr⟩ := Action.outcome_bind_eq_ok.1 hr
      cases hr
      exact .schema hd hplain (resolveStruct_derives hm.schemas hs)
    | some body =>
      rw [Action.state_bind, Action.outcome_bind]
      simp only [Action.run_get]
      -- an alias: remembered, or entered now
      cases hl : memo.expressions.lookup key with
      | some e =>
        refine ⟨hm, ?_⟩
        rintro r ⟨⟩
        rw [hm.lookup hd hplain hl]
        exact .expression hd hplain
      | none =>
        refine ⟨hm.addExpression hd hplain, ?_⟩
        rintro r ⟨⟩
        exact .expression hd hplain

end Composer

end WidgetSchema
