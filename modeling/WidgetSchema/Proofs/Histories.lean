/-
Whatever happened before, an answer is what the definitions say.

A session is used by calls: registrations and batches, the end of the build
phase, resolutions, questions and checks, and clearing the memo. Each may fail,
and then keeps what it did before it failed. `after` runs a list of them.

One call either works on the registry, which it can only extend, or on the memo,
which it reaches through resolution. So a property of memos lasts through every
history if it holds of the empty memo, passes to registries that extend, and is
kept by resolution (`Lasting.after`). Soundness is such a property, and from it
follows `answers_by_definitions`.
-/
import WidgetSchema.Proofs.Lineage
import WidgetSchema.Proofs.NameDenotation

set_option autoImplicit false

namespace WidgetSchema

namespace Session

/-- A call on a session. -/
inductive Call where
  | register (name : String) (entry : Entry)
  | registerAll (table : List (Atom × Entry))
  /-- A batch that ends the build phase and may refuse dangling names. -/
  | build (table : List (Atom × Entry)) (allowDangling : Bool)
  | freeze
  | resolve (i : Instantiation)
  | resolveStruct (i : Instantiation)
  | resolveExpression (e : TypeExpr)
  | requiredFields (s : ResolvedSchema)
  | requiredFieldsOf (name : String)
  | admitsAbsence (e : TypeExpr)
  | validate (value : ValueGraph) (target : Target)
  | validateNamed (value : ValueGraph) (name : String)
  | clearMemo

namespace Call

/-- What a call does to a session. -/
def perform : Call → Action Fault Session Unit
  | register name entry => (fun _ => ()) <$> Session.register name entry
  | registerAll table => (fun _ => ()) <$> registerTable (flattenTable "" table)
  | build table allowDangling => (fun _ => ()) <$> buildFrom (flattenTable "" table) allowDangling
  | freeze => Session.freeze
  | resolve i => (fun _ => ()) <$> Session.resolve i
  | resolveStruct i => (fun _ => ()) <$> Session.resolveStruct i
  | resolveExpression e => (fun _ => ()) <$> Session.resolveExpression e
  | requiredFields s => (fun _ => ()) <$> Session.requiredFields s
  | requiredFieldsOf name => do
    let s ← Session.resolveStruct { name, args := [] }
    (fun _ => ()) <$> Session.requiredFields s
  | admitsAbsence e => (fun _ => ()) <$> Session.admitsAbsence e
  | validate value target => (fun _ => ()) <$> Session.validate value target
  | validateNamed value name => (fun _ => ()) <$> Session.validateNamed value name
  | clearMemo => forget

end Call

/-- The session after calls, each of which may have failed. -/
def after (s : Session) : List Call → Session
  | [] => s
  | call :: rest => after (call.perform.run s).state rest

/-- A new session, with or without the prelude. -/
def opened (env : Environment) (maxDepth : Option Int) (prelude : Bool) : Session :=
  if prelude then (addPrelude.run (blank env maxDepth)).state else blank env maxDepth

/-! ## What lasts -/

/-- A property of the memo of a composer that no call can break. -/
structure Lasting (I : Composer → Memo → Prop) : Prop where
  empty : ∀ c, I c .empty
  mono : ∀ (c c' : Composer) memo, c'.registry.Extends c.registry → I c memo → I c' memo
  resolveStruct : ∀ (c : Composer) i, (c.resolveStruct i).Keeps (I c)
  resolve : ∀ (c : Composer) i, (c.resolve i).Keeps (I c)

/-- What a call leads to: the registry is extended, and left alone if it is frozen,
the bound on the nesting stays, and so does a lasting property of the memo. -/
structure LeadsTo (I : Composer → Memo → Prop) (s s' : Session) : Prop where
  extends_registry : s'.registry.Extends s.registry
  frozen_registry : s.registry.frozen = true → s'.registry = s.registry
  same_bound : s'.maxDepth = s.maxDepth
  keeps : I s.composer s.memo → I s'.composer s'.memo

section
variable {I : Composer → Memo → Prop} {s s' s'' : Session} {α : Type}

/-- No call leads to the session itself. -/
theorem LeadsTo.refl (s : Session) : LeadsTo I s s := ⟨.refl _, fun _ => rfl, rfl, fun h => h⟩

/-- What two calls lead to, they lead to in sequence. -/
theorem LeadsTo.trans (h₁ : LeadsTo I s s') (h₂ : LeadsTo I s' s'') : LeadsTo I s s'' where
  extends_registry := h₂.extends_registry.trans h₁.extends_registry
  frozen_registry hf := by
    have hsame := h₁.frozen_registry hf
    rw [h₂.frozen_registry (by rw [hsame, hf]), hsame]
  same_bound := h₂.same_bound.trans h₁.same_bound
  keeps h := h₂.keeps (h₁.keeps h)

/-- Every run of the action leads from its first state to its last. -/
def Leads (I : Composer → Memo → Prop) (x : Action Fault Session α) : Prop :=
  ∀ s, LeadsTo I s (x.run s).state

/-- An action that leaves the session alone leads to it. -/
theorem Leads.of_state {x : Action Fault Session α} (h : ∀ s, (x.run s).state = s) :
    Leads I x := by
  intro s
  rw [h s]
  exact .refl s

/-- A sequence leads where its parts lead. -/
theorem Leads.bind {β : Type} {x : Action Fault Session α} {f : α → Action Fault Session β}
    (hx : Leads I x) (hf : ∀ a, Leads I (f a)) : Leads I (x >>= f) := by
  intro s
  -- wherever the first part leads, the second leads on from there
  exact Action.bind_invariant (hx s) fun a _ => (hx s).trans (hf a _)

/-- What is made of the result leads nowhere else. -/
theorem Leads.map {β : Type} {x : Action Fault Session α} (g : α → β) (hx : Leads I x) :
    Leads I (g <$> x) :=
  hx.bind fun _ => .of_state fun _ => rfl

/-- An action on the memo leads on if it keeps the lasting property. -/
theorem leads_onMemo {x : Composer → Action Fault Memo α} (hx : ∀ c, (x c).Keeps (I c)) :
    Leads I (onMemo x) := fun s => ⟨.refl _, fun _ => rfl, rfl, fun h => hx s.composer s.memo h⟩

/-- An action on the registry leads on if it extends every registry and leaves a
frozen one alone. -/
theorem leads_onRegistry (hI : Lasting I) {x : Bool → Action SchemaError Registry α}
    (hextends : ∀ strict r, ((x strict).run r).state.Extends r)
    (hfrozen : ∀ strict r, r.frozen = true → ((x strict).run r).state = r) :
    Leads I (onRegistry x) := by
  intro s
  refine ⟨hextends _ _, hfrozen _ _, rfl, fun h => ?_⟩
  exact hI.mono s.composer _ s.memo (hextends _ _) h

variable (hI : Lasting I)
include hI

/-- A registration adds a definition or is refused. -/
theorem leads_register (name : String) (entry : Entry) : Leads I (register name entry) :=
  leads_onRegistry hI (fun strict r => Registry.register_extends strict r name entry)
    (fun strict _ hf => Registry.register_frozen strict name entry hf)

/-- A batch is its registrations, one after the other, with or without the record about it. -/
theorem leads_registerEach (entries : List (String × Entry)) :
    Leads I (onRegistry fun strict => Registry.registerEach strict entries) ∧
      Leads I (registerTable entries) := by
  -- each entry extends what those before it have made, and a frozen registry stays
  have hextends (strict : Bool) (r : Registry) := Registry.keeps_registerAll
    (P := (Registry.Extends · r))
    (fun name entry r' h => (Registry.register_extends strict r' name entry).trans h) entries
  have hfrozen (strict : Bool) (r : Registry) (hf : r.frozen = true) := Registry.keeps_registerAll
    (P := (· = r))
    (fun name entry r' h => by
      rw [Registry.register_frozen strict name entry (by rw [h, hf]), h]) entries
  exact ⟨leads_onRegistry hI (fun strict r => (hextends strict r).1 r (.refl r))
      (fun strict r hf => (hfrozen strict r hf).1 r rfl),
    leads_onRegistry hI (fun strict r => (hextends strict r).2 r (.refl r))
      (fun strict r hf => (hfrozen strict r hf).2 r rfl)⟩

/-- The end of the build phase changes no definition. -/
theorem leads_freeze : Leads I freeze := by
  intro s
  refine ⟨Registry.freeze_extends _, fun hf => ?_, rfl, fun h => ?_⟩
  · calc s.registry.freeze = ⟨s.registry.definitions, true⟩ := rfl
      _ = ⟨s.registry.definitions, s.registry.frozen⟩ := by rw [hf]
      _ = s.registry := rfl
  · exact hI.mono s.composer _ s.memo (Registry.freeze_extends _) h

omit hI in
/-- Notes change nothing. -/
theorem state_noteDangling (missing : List (String × List String)) (s : Session) :
    ((noteDangling missing).run s).state = s := by
  induction missing with
  | nil => rfl
  | cons owner rest ih =>
    rw [noteDangling, Action.state_bind]
    exact ih

/-- A batch that ends the build phase, whether or not it then refuses dangling names. -/
theorem leads_buildFrom (entries : List (String × Entry)) (allowDangling : Bool) :
    Leads I (buildFrom entries allowDangling) := by
  refine (leads_registerEach hI entries).2.bind fun names => ?_
  refine (leads_freeze hI).bind fun _ => ?_
  refine Leads.bind (.of_state fun _ => rfl) fun s => ?_
  refine (Leads.of_state (state_noteDangling _)).bind fun _ => ?_
  split
  · exact .of_state fun _ => rfl
  · split <;> exact .of_state fun _ => rfl

/-- A type name is resolved, and any other expression is its own answer. -/
theorem keeps_resolveExpression (c : Composer) (e : TypeExpr) :
    (c.resolveExpression e).Keeps (I c) := by
  unfold Composer.resolveExpression
  cases e.instantiation? with
  | none => exact Action.keeps_pure _
  | some i => exact hI.resolve c i

/-- **One call.** It extends the registry or works on the memo through
resolution. -/
theorem leads_perform (call : Call) : Leads I call.perform := by
  have hresolve := keeps_resolveExpression hI
  have hstruct (i : Instantiation) : Leads I (resolveStruct i) :=
    leads_onMemo fun c => (hI.resolveStruct c i).mapError _
  have hrequired (s : ResolvedSchema) : Leads I (requiredFields s) :=
    leads_onMemo fun c => (c.onlyResolves_requiredFields s).keeps (hresolve c)
  cases call with
  | register name entry => exact (leads_register hI name entry).map _
  | registerAll table => exact (leads_registerEach hI _).2.map _
  | build table allowDangling => exact (leads_buildFrom hI _ _).map _
  | freeze => exact leads_freeze hI
  | resolve i => exact (leads_onMemo fun c => (hI.resolve c i).mapError _).map _
  | resolveStruct i => exact (hstruct i).map _
  | resolveExpression e => exact (leads_onMemo fun c => (hresolve c e).mapError _).map _
  | requiredFields s => exact (hrequired s).map _
  | requiredFieldsOf name => exact (hstruct _).bind fun s => (hrequired s).map _
  | admitsAbsence e =>
    exact (leads_onMemo fun c => (c.onlyResolves_admitsAbsence e).keeps (hresolve c)).map _
  | validate value target =>
    exact (leads_onMemo fun c => (c.onlyResolves_validate _ _).keeps (hresolve c)).map _
  | validateNamed value name =>
    exact (leads_onMemo fun c => (c.onlyResolves_validateNamed _ _).keeps (hresolve c)).map _
  | clearMemo => exact fun s => ⟨.refl _, fun _ => rfl, rfl, fun _ => hI.empty _⟩

/-- **Every history.** -/
theorem leadsTo_after (s : Session) (history : List Call) : LeadsTo I s (s.after history) := by
  induction history generalizing s with
  | nil => exact .refl s
  | cons call rest ih => exact (leads_perform hI call s).trans (ih _)

/-- **A lasting property holds after every history of a new session.** -/
theorem Lasting.after (env : Environment) (maxDepth : Option Int) (prelude : Bool)
    (history : List Call) :
    let s := (opened env maxDepth prelude).after history
    I s.composer s.memo := by
  refine (leadsTo_after hI _ history).keeps ?_
  have hblank : I (blank env maxDepth).composer (blank env maxDepth).memo := hI.empty _
  unfold opened
  split
  · exact ((leads_registerEach hI Registry.prelude).1 _).keeps hblank
  · exact hblank

end

/-! ## Answers -/

/-- **Soundness lasts**: what is remembered is what the definitions say, whatever is
added to them. -/
theorem lasting_soundFor : Lasting fun c memo => memo.SoundFor c where
  empty := Memo.SoundFor.empty
  mono _ _ _ hc h := h.mono hc
  resolveStruct _ i := Composer.keeps_resolveStruct_soundFor i
  resolve _ _ _ hm := (Composer.resolve_denotes hm).1

/-- An operation that resolves returns what the resolution returns. -/
theorem outcome_resolving {α : Type} {x : Composer → Action SchemaError Memo α} {s : Session}
    {a : α} : ((resolving x).run s).outcome = .ok a ↔
      ((x s.composer).run s.memo).outcome = .ok a := by
  have h : ((resolving x).run s).outcome =
      ((x s.composer).run s.memo).outcome.mapError Fault.schema := rfl
  rw [h]
  exact mapError_eq_ok

/-- **Answers are what the definitions say.** After any history of calls on a new
session, what a name with arguments resolves to is the one thing it denotes by
the registered definitions, and a schema that is returned is the one they give;
and no later call changes what they say. -/
theorem answers_by_definitions (env : Environment) (maxDepth : Option Int) (prelude : Bool)
    (history later : List Call) (i : Instantiation) :
    let s := (opened env maxDepth prelude).after history
    let s' := s.after later
    (∀ r, ((resolve i).run s).outcome = .ok r →
      ∀ r', s'.composer.Denotes i r' ↔ r' = r) ∧
    (∀ t, ((resolveStruct i).run s).outcome = .ok t →
      ∀ t', s'.composer.Derives i t' ↔ t' = t) := by
  intro s s'
  have hsound : s.memo.SoundFor s.composer := lasting_soundFor.after env maxDepth prelude history
  have hextends : s'.registry.Extends s.registry :=
    (leadsTo_after lasting_soundFor s later).extends_registry
  constructor
  · intro r hr r'
    have hdenotes : s.composer.Denotes i r :=
      (Composer.resolve_denotes hsound).2 r (outcome_resolving.1 hr)
    have hlater : s'.composer.Denotes i r := hdenotes.mono hextends
    constructor
    · intro hr'
      exact hr'.unique hlater
    · rintro rfl
      exact hlater
  · intro t ht t'
    have hderives : s.composer.Derives i t :=
      Composer.resolveStruct_derives hsound.schemas (outcome_resolving.1 ht)
    have hlater : s'.composer.Derives i t := hderives.mono hextends
    constructor
    · intro ht'
      exact ht'.unique hlater
    · rintro rfl
      exact hlater

open Composer.ofPlainTypes in
/-- A sum is asked for before one of its members is registered. -/
def memberComesLater : List Call :=
  [.register "A" (.definition (plain "A" [] [("x", "number")]) .none),
   .register "N" (.definition (plain "N" ["A", "M"] []) .none),
   .resolveStruct ⟨"N", []⟩,
   .register "M" (.definition (plain "M" [] [("y", "string")]) .none)]

/-- The request that failed leaves `A` remembered, and when `N` is asked for again
that entry still gives what the definitions say. -/
theorem entries_outlive_registrations :
    let s := (opened .empty none false).after memberComesLater
    s.memo.size = 1 ∧
      (∃ t, ((resolveStruct ⟨"N", []⟩).run s).outcome = .ok t ∧
        ∀ t', s.composer.Derives ⟨"N", []⟩ t' ↔ t' = t) ∧
      ∃ r, ((resolve ⟨"N", []⟩).run s).outcome = .ok r ∧
        ∀ r', s.composer.Denotes ⟨"N", []⟩ r' ↔ r' = r := by
  intro s
  have hstruct : ((resolveStruct ⟨"N", []⟩).run s).outcome.isOk = true := by decide
  have hresolve : ((resolve ⟨"N", []⟩).run s).outcome.isOk = true := by decide
  have hanswers := answers_by_definitions .empty none false memberComesLater [] ⟨"N", []⟩
  refine ⟨by decide, ?_, ?_⟩
  · obtain ⟨t, ht⟩ := exists_of_isOk hstruct
    exact ⟨t, ht, hanswers.2 t ht⟩
  · obtain ⟨r, hr⟩ := exists_of_isOk hresolve
    exact ⟨r, hr, hanswers.1 r hr⟩

end Session

end WidgetSchema
