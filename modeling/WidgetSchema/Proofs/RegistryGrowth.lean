/-
Registries that grow.

A registry extends another one if it gives every name defined there the same
definition. Registering never does anything else: a name that is taken is
refused, so a definition once there stays as it is (`register_extends`).

What is derived by the definitions of a registry looks up defined names only, so
it is derived by every extension as well (`Derives.mono`). That is what lets a
memo outlive later registrations.
-/
import WidgetSchema.Proofs.Derivation
import WidgetSchema.Proofs.MemoInvariants

set_option autoImplicit false

namespace WidgetSchema

namespace Registry

/-- Every name defined in `r` has the same definition in `r'`. -/
def Extends (r' r : Registry) : Prop := ∀ name d, r.lookup name = .ok d → r'.lookup name = .ok d

variable {r r' r'' : Registry} {name : String}

theorem Extends.refl (r : Registry) : r.Extends r := fun _ _ h => h

theorem Extends.trans (h₂ : r''.Extends r') (h₁ : r'.Extends r) : r''.Extends r :=
  fun name d h => h₂ name d (h₁ name d h)

theorem lookup_eq_ok {d : Definition} :
    r.lookup name = .ok d ↔ r.definitions.get? name = some d := by
  unfold lookup
  cases r.definitions.get? name <;> simp

theorem lookup_mem {d : Definition} :
    r.lookup name = .ok d ↔ (name, d) ∈ r.definitions.entries := by
  rw [lookup_eq_ok, OrderedMap.get?_eq_some]

theorem mem_names : name ∈ r.names ↔ ∃ d, r.lookup name = .ok d := by
  simp only [lookup_mem, names, OrderedMap.keys, List.mem_map, Prod.exists, exists_and_right,
    exists_eq_right]

theorem freeze_extends (r : Registry) : r.freeze.Extends r := fun _ _ h => h

theorem refusal?_eq_none :
    r.refusal? name = none ↔
      r.frozen = false ∧ isTypeName name = true ∧ r.definitions.contains name = false := by
  unfold refusal?
  cases r.frozen <;> cases isTypeName name <;> cases r.definitions.contains name <;> simp

/-- A definition under a new name extends a registry. -/
theorem add_extends {d : Definition} (h : r.refusal? name = none) : (r.add name d).Extends r := by
  intro other e he
  rw [lookup_eq_ok] at he ⊢
  -- a name that is taken is refused
  have hnew : r.definitions.contains name = false := (refusal?_eq_none.1 h).2.2
  have hne : other ≠ name := by
    rintro rfl
    simp [OrderedMap.contains, he] at hnew
  rw [add, OrderedMap.get?_insert, if_neg hne]
  exact he

/-! ## Registering -/

/-- The entry declares the definition, under the same name. -/
def Declares (strict : Bool) (e : String × Entry) (d : String × Definition) : Prop :=
  d.1 = e.1 ∧ (Definition.build strict e.1 e.2).outcome = .ok d.2

/-- **All that a registration can do.** It fails and leaves the registry alone, or the name is not
refused and the definition its entry declares goes behind all others. -/
theorem register_run (strict : Bool) (r : Registry) (name : String) (entry : Entry) :
    (∃ e, ((register strict name entry).run r).outcome = .error e ∧
        ((register strict name entry).run r).state = r) ∨
      ∃ d, ((register strict name entry).run r).outcome = .ok d ∧
        ((register strict name entry).run r).state = r.add name d ∧
        r.refusal? name = none ∧ Declares strict (name, entry) (name, d) := by
  rw [register, Action.outcome_bind, Action.state_bind]
  simp only [Action.run_get]
  cases hrefusal : r.refusal? name with
  | some e => exact .inl ⟨e, rfl, rfl⟩
  | none =>
    dsimp only
    rw [Action.outcome_bind, Action.state_bind, Action.run_ofNoted]
    cases hread : (Definition.build strict name entry).outcome with
    | error e => exact .inl ⟨e, rfl, rfl⟩
    | ok d => exact .inr ⟨d, rfl, rfl, rfl, rfl, hread⟩

theorem register_extends (strict : Bool) (r : Registry) (name : String) (entry : Entry) :
    ((register strict name entry).run r).state.Extends r := by
  rcases register_run strict r name entry with ⟨e, -, hsame⟩ | ⟨d, -, hadd, hrefusal, -⟩
  · rw [hsame]
    exact .refl r
  · rw [hadd]
    exact add_extends hrefusal

/-- A frozen registry is left alone. -/
theorem register_frozen (strict : Bool) (name : String) (entry : Entry) (h : r.frozen = true) :
    ((register strict name entry).run r).state = r := by
  rcases register_run strict r name entry with ⟨e, -, hsame⟩ | ⟨d, -, -, hrefusal, -⟩
  · exact hsame
  · rw [(refusal?_eq_none.1 hrefusal).1] at h
    cases h

/-- What each registration keeps, a batch keeps, also one that fails. -/
theorem keeps_registerAll {strict : Bool} {P : Registry → Prop}
    (h : ∀ name entry, (register strict name entry).Keeps P) (entries : List (String × Entry)) :
    (registerEach strict entries).Keeps P ∧ (registerAll strict entries).Keeps P := by
  have heach : (registerEach strict entries).Keeps P := by
    induction entries with
    | nil => exact Action.keeps_pure _
    | cons e rest ih =>
      rw [registerEach]
      exact (h e.1 e.2).bind fun _ => ih
  refine ⟨heach, ?_⟩
  exact heach.bind fun _ => (Action.keeps_note _ _ _).bind fun _ => Action.keeps_pure _

end Registry

/-! ## Derivation in an extension -/

namespace Composer

variable {c c' : Composer} {i : Instantiation}

theorem complete_mono (h : c'.registry.Extends c.registry)
    {found : Definition × Bindings × Instantiation} (hi : c.complete i = .ok found) :
    c'.complete i = .ok found := by
  obtain ⟨d, bindings, key⟩ := found
  obtain ⟨hd, hbind, hname⟩ := complete_eq_ok.1 hi
  exact complete_eq_ok.2 ⟨h _ _ hd, hbind, hname⟩

theorem plan_mono (h : c'.registry.Extends c.registry) {p : Plan} (hp : c.plan i = .ok p) :
    c'.plan i = .ok p := by
  obtain ⟨d, hd, hparts⟩ := plan_eq_ok.1 hp
  exact plan_eq_ok.2 ⟨d, complete_mono h hd, hparts⟩

/-- **What is derived stays derived.** The bound on the nesting plays no part in it. -/
theorem Derives.mono (h : c'.registry.Extends c.registry) {s : ResolvedSchema}
    (hs : c.Derives i s) : c'.Derives i s := by
  obtain ⟨height, hheight⟩ := hs
  refine ⟨height, ?_⟩
  -- the induction is on the height, over all instantiations at once
  induction height generalizing i s with
  | zero => simp [derive] at hheight
  | succ height ih =>
    obtain ⟨p, parents, hp, hparents, hcombine⟩ := derive_succ_eq_some.1 hheight
    refine derive_succ_eq_some.2 ⟨p, parents, plan_mono h hp, ?_, hcombine⟩
    rw [deriveEach_eq_some] at hparents ⊢
    refine hparents.imp ?_
    rintro member parent ⟨j, hj, hparent⟩
    exact ⟨j, hj, ih hparent⟩

end Composer

end WidgetSchema
