/-
Batches in any order.

If no name stands twice in a batch, its entries do not meet: what one of them needs to be
registered is a name that the registry does not refuse and a text that can be read, and
neither depends on the entries before it (`registerEach_isOk`). So a batch succeeds in
every order or in none, and if it does the registry holds the same definitions
(`registerEach_perm`).

What a session is asked afterwards sees no order: a resolution or a check is the same
action on the memo, and a registration is refused or accepted alike (`seesNoOrder_perform`).
By induction on the calls the two sessions stay the same but for the order
(`Resembles.after`), and `registration_order_irrelevant` compares all their answers.
-/
import Mathlib.Data.List.Perm.Basic
import WidgetSchema.Proofs.Histories
import WidgetSchema.Proofs.SameDefinitions

set_option autoImplicit false

namespace WidgetSchema

/-! ## Related states -/

namespace Action

variable {ε ε' σ α β : Type} {R : σ → σ → Prop}

/-- From related states the action ends alike, and in related states. -/
def Respects (R : σ → σ → Prop) (x : Action ε σ α) : Prop :=
  ∀ s s', R s s' → (x.run s).outcome = (x.run s').outcome ∧ R (x.run s).state (x.run s').state

/-- Returning leaves two related states related. -/
theorem respects_pure (a : α) : (pure a : Action ε σ α).Respects R := fun _ _ h => ⟨rfl, h⟩

/-- A record is written without looking at the state. -/
theorem respects_note (level : Level) (topic : Topic) (message : String) :
    (note level topic message : Action ε σ Unit).Respects R := fun _ _ h => ⟨rfl, h⟩

/-- A sequence respects a relation if its parts do: they return the same, so the second parts are
the same action. -/
theorem Respects.bind {x : Action ε σ α} {f : α → Action ε σ β} (hx : x.Respects R)
    (hf : ∀ a, (f a).Respects R) : (x >>= f).Respects R := by
  intro s s' h
  obtain ⟨houtcome, hstate⟩ := hx s s' h
  rw [outcome_bind, outcome_bind, state_bind, state_bind, ← houtcome]
  cases (x.run s).outcome with
  | error e => exact ⟨rfl, hstate⟩
  | ok a => exact hf a _ _ hstate

/-- What is made of the result is made of equal results. -/
theorem Respects.map {x : Action ε σ α} (g : α → β) (hx : x.Respects R) : (g <$> x).Respects R :=
  hx.bind fun _ => respects_pure _

/-- What reads the state may go on in any way that the relation cannot see. -/
theorem respects_get_bind {f : σ → Action ε σ β}
    (hf : ∀ s s', R s s' → f s = f s' ∧ (f s).Respects R) : (get >>= f).Respects R := by
  intro s s' h
  obtain ⟨heq, hrespects⟩ := hf s s' h
  rw [outcome_bind, outcome_bind, state_bind, state_bind]
  simp only [run_get]
  rw [← heq]
  exact hrespects s s' h

end Action

namespace Registry

variable {r r' : Registry} {strict : Bool} {name : String} {entry : Entry}
  {entries entries' : List (String × Entry)}

/-! ## One registration -/

/-- The entry can be registered: its name is not refused, and it declares a definition. -/
def Accepts (strict : Bool) (r : Registry) (e : String × Entry) : Prop :=
  r.refusal? e.1 = none ∧ (Definition.build strict e.1 e.2).outcome.isOk = true

/-- A registration succeeds exactly if the build phase lasts, the name is free and the entry
can be built. -/
theorem register_isOk :
    ((register strict name entry).run r).outcome.isOk = true ↔ r.Accepts strict (name, entry) := by
  unfold Accepts
  rw [register, Action.outcome_bind]
  simp only [Action.run_get]
  cases r.refusal? name with
  | some e => simp [Except.isOk, Except.toBool]
  | none =>
    dsimp only
    rw [Action.outcome_bind, Action.run_ofNoted]
    cases (Definition.build strict name entry).outcome with
    | error e => simp [Except.isOk, Except.toBool]
    | ok d => simp [Except.isOk, Except.toBool, Action.outcome_bind, Action.run_pure]

/-- A new definition takes its own name away and no other. -/
theorem refusal?_add {other : String} {d : Definition} (hne : other ≠ name) :
    (r.add name d).refusal? other = r.refusal? other := by
  have hcontains : (r.add name d).definitions.contains other = r.definitions.contains other := by
    unfold add OrderedMap.contains
    rw [OrderedMap.get?_insert, if_neg hne]
  unfold refusal?
  rw [hcontains]
  rfl

/-! ## A batch -/

/-- **A batch without repeated names succeeds exactly if each entry can be registered by
itself.** -/
theorem registerEach_isOk (hnames : (entries.map Prod.fst).Nodup) :
    ((registerEach strict entries).run r).outcome.isOk = true ↔
      ∀ e ∈ entries, r.Accepts strict e := by
  -- the induction is on the entries; the registry reached refuses no other name
  induction entries generalizing r with
  | nil => simp [registerEach, Action.run_pure, Except.isOk, Except.toBool]
  | cons first rest ih =>
    obtain ⟨name, entry⟩ := first
    obtain ⟨hnew, hrest⟩ := List.nodup_cons.1 hnames
    rw [List.forall_mem_cons, ← register_isOk, registerEach, Action.outcome_bind]
    rcases register_run strict r name entry with ⟨e, houtcome, -⟩ | ⟨d, houtcome, hstate, -, -⟩
    · simp [houtcome, Except.isOk, Except.toBool]
    · have hsame : ∀ e ∈ rest, ((r.add name d).Accepts strict e ↔ r.Accepts strict e) := by
        intro e he
        have hne : e.1 ≠ name := by
          intro heq
          exact hnew (List.mem_map.2 ⟨e, he, heq⟩)
        unfold Accepts
        rw [refusal?_add hne]
      rw [houtcome, hstate]
      dsimp only
      rw [ih hrest, forall₂_congr hsame]
      simp [Except.isOk, Except.toBool]

/-- A batch that succeeds adds what each of its entries declares. -/
theorem registerEach_declares (h : ((registerEach strict entries).run r).outcome.isOk = true) :
    ∃ added, List.Forall₂ (Declares strict) entries added ∧
      AddedTo added r ((registerEach strict entries).run r).state := by
  obtain ⟨before, rest, hsplit, hbefore, hadded, hstops⟩ := registerEach_steps strict entries r
  cases rest with
  | nil =>
    rw [List.append_nil] at hsplit
    exact ⟨_, hsplit ▸ hbefore, hadded⟩
  | cons next rest =>
    -- a batch that stops before an entry has failed
    obtain ⟨e, herror, -⟩ := hstops
    rw [herror] at h
    cases h

/-- An entry declares one definition, since building it is a function. -/
theorem Declares.unique {e : String × Entry} {d d' : String × Definition}
    (h : Declares strict e d) (h' : Declares strict e d') : d = d' := by
  have hdefinition : d.2 = d'.2 := Except.ok.inj (h.2.symm.trans h'.2)
  exact Prod.ext (h.1.trans h'.1.symm) hdefinition

/-- **A batch in another order.** It succeeds in both orders or in none, and if it does
the registries hold the same definitions. -/
theorem registerEach_perm (strict : Bool) (r : Registry) (hperm : entries.Perm entries')
    (hnames : (entries.map Prod.fst).Nodup) :
    (((registerEach strict entries).run r).outcome.isOk = true ↔
        ((registerEach strict entries').run r).outcome.isOk = true) ∧
      (((registerEach strict entries).run r).outcome.isOk = true →
        ((registerEach strict entries).run r).state.Resembles
          ((registerEach strict entries').run r).state) := by
  have hnames' : (entries'.map Prod.fst).Nodup := (hperm.map _).nodup_iff.1 hnames
  have hiff : ((registerEach strict entries).run r).outcome.isOk = true ↔
      ((registerEach strict entries').run r).outcome.isOk = true := by
    rw [registerEach_isOk hnames, registerEach_isOk hnames']
    simp only [hperm.mem_iff]
  refine ⟨hiff, fun hok => ?_⟩
  obtain ⟨added, hadded, hentries, hfrozen⟩ := registerEach_declares hok
  obtain ⟨added', hadded', hentries', hfrozen'⟩ := registerEach_declares (hiff.1 hok)
  -- the entries declare the same definitions, in their order
  have hsame : added.Perm added' := by
    refine List.rel_perm_imp ?_ hadded hadded' hperm
    intro e d d' h h'
    exact h.unique h'
  refine ⟨?_, hfrozen.trans hfrozen'.symm⟩
  rw [hentries, hentries']
  exact hsame.append_left _

/-! ## The same calls on both -/

/-- Registries that differ in their order only refuse the same entries and gain the same
definition. -/
theorem respects_register (strict : Bool) (name : String) (entry : Entry) :
    (register strict name entry).Respects Resembles := by
  intro r r' h
  rw [register, Action.outcome_bind, Action.outcome_bind, Action.state_bind, Action.state_bind]
  simp only [Action.run_get, ← h.refusal? name]
  cases hrefusal : r.refusal? name with
  | some e => exact ⟨rfl, h⟩
  | none =>
    -- what an entry declares does not depend on the registry
    dsimp only
    simp only [Action.outcome_bind, Action.state_bind, Action.run_ofNoted]
    cases (Definition.build strict name entry).outcome with
    | error e => exact ⟨rfl, h⟩
    | ok d => exact ⟨rfl, h.add hrefusal d⟩

/-- The entries of a batch, one after the other, up to the first that is refused. -/
theorem respects_registerEach (strict : Bool) (entries : List (String × Entry)) :
    (registerEach strict entries).Respects Resembles := by
  induction entries with
  | nil => exact Action.respects_pure _
  | cons first rest ih => exact (respects_register strict first.1 first.2).bind fun _ => ih

/-- A batch ends with the names it declared, which are those of its entries. -/
theorem respects_registerAll (strict : Bool) (entries : List (String × Entry)) :
    (registerAll strict entries).Respects Resembles := by
  refine (respects_registerEach strict entries).bind fun _ => ?_
  exact (Action.respects_note _ _ _).bind fun _ => Action.respects_pure _

/-- A look-up finds the same definition. -/
theorem respects_lookup (name : String) :
    (Action.get >>= fun r : Registry => .ofExcept (r.lookup name) :
      Action SchemaError Registry Definition).Respects Resembles := by
  refine Action.respects_get_bind fun r r' h => ⟨?_, fun _ _ h' => ⟨rfl, h'⟩⟩
  rw [h.lookup name]

end Registry

/-! ## Sessions -/

namespace Session

/-- The sessions differ in the order of their definitions at most. -/
structure Resembles (s s' : Session) : Prop where
  registry : s.registry.Resembles s'.registry
  memo : s.memo = s'.memo
  maxDepth : s.maxDepth = s'.maxDepth
  strictTags : s.strictTags = s'.strictTags

variable {α β : Type} {s s' : Session}

/-- The composers of the sessions work on registries with the same definitions and under the
same bound. -/
theorem Resembles.composer (h : s.Resembles s') : s.composer.Resembles s'.composer :=
  ⟨h.registry, h.maxDepth⟩

/-- The action cannot see the order of the definitions. -/
abbrev SeesNoOrder (x : Action Fault Session α) : Prop := x.Respects Resembles

/-- An action that composers share if they differ in the order of the definitions sees
no order. -/
theorem seesNoOrder_onMemo {x : Composer → Action Fault Memo α}
    (hx : ∀ c c' : Composer, c.Resembles c' → x c = x c') : SeesNoOrder (onMemo x) := by
  intro s s' h
  have hstep : (x s.composer).run s.memo = (x s'.composer).run s'.memo := by
    rw [hx _ _ h.composer, h.memo]
  have houtcome := congrArg Step.outcome hstep
  exact ⟨houtcome, h.registry, congrArg Step.state hstep, h.maxDepth, h.strictTags⟩

/-- What respects the order of registries respects that of sessions, whose other parts are equal. -/
theorem seesNoOrder_onRegistry {x : Bool → Action SchemaError Registry α}
    (hx : ∀ strict, (x strict).Respects Registry.Resembles) : SeesNoOrder (onRegistry x) := by
  intro s s' h
  obtain ⟨houtcome, hstate⟩ := hx s'.strictTags _ _ h.registry
  -- the action reads the flag, so the two flags have to be one
  have hstrict := h.strictTags
  obtain ⟨registry, memo, maxDepth, strictTags⟩ := s
  cases hstrict
  exact ⟨congrArg (Except.mapError Fault.schema) houtcome, hstate, h.memo, h.maxDepth, rfl⟩

/-- The operations that ask see no order: each is the same function of the composer and
of the memo. -/
theorem seesNoOrder_lookup (name : String) : SeesNoOrder (lookup name) :=
  seesNoOrder_onRegistry fun _ => Registry.respects_lookup name

theorem seesNoOrder_resolve (i : Instantiation) : SeesNoOrder (resolve i) :=
  seesNoOrder_onMemo fun _ _ h => congrArg (Action.mapError Fault.schema) (h.resolve i)

theorem seesNoOrder_resolveStruct (i : Instantiation) : SeesNoOrder (resolveStruct i) :=
  seesNoOrder_onMemo fun _ _ h => congrArg (Action.mapError Fault.schema) (h.resolveStruct i)

theorem seesNoOrder_resolveExpression (e : TypeExpr) : SeesNoOrder (resolveExpression e) :=
  seesNoOrder_onMemo fun _ _ h => congrArg (Action.mapError Fault.schema) (h.resolveExpression e)

theorem seesNoOrder_requiredFields (t : ResolvedSchema) : SeesNoOrder (requiredFields t) :=
  seesNoOrder_onMemo fun _ _ h => h.requiredFields t

theorem seesNoOrder_admitsAbsence (e : TypeExpr) : SeesNoOrder (admitsAbsence e) :=
  seesNoOrder_onMemo fun _ _ h => h.admitsAbsence e

theorem seesNoOrder_validate (value : ValueGraph) (target : Target) :
    SeesNoOrder (validate value target) :=
  seesNoOrder_onMemo fun _ _ h => h.validate value.heap value.root target

theorem seesNoOrder_validateNamed (value : ValueGraph) (name : String) :
    SeesNoOrder (validateNamed value name) :=
  seesNoOrder_onMemo fun _ _ h => h.validateNamed value.heap value.root name

/-- Nor do the operations that register, since the names are free or taken alike. -/
theorem seesNoOrder_registerTable (entries : List (String × Entry)) :
    SeesNoOrder (registerTable entries) :=
  seesNoOrder_onRegistry fun strict => Registry.respects_registerAll strict entries

/-- Nor does the end of the build phase. -/
theorem seesNoOrder_freeze : SeesNoOrder freeze :=
  fun _ _ h => ⟨rfl, h.registry.freeze, h.memo, h.maxDepth, h.strictTags⟩

/-- The notes come in the order of the report, and nothing else depends on them. -/
theorem noteDangling_run (missing : List (String × List String)) (s : Session) :
    ((noteDangling missing).run s).outcome = .ok () ∧
      ((noteDangling missing).run s).state = s := by
  refine ⟨?_, state_noteDangling missing s⟩
  induction missing with
  | nil => rfl
  | cons owner rest ih =>
    rw [noteDangling, Action.outcome_bind]
    exact ih

/-- The notes about dangling names follow the order of the names and not that of the definitions, so
they are the same too. -/
theorem seesNoOrder_buildFrom (entries : List (String × Entry)) (allowDangling : Bool) :
    SeesNoOrder (buildFrom entries allowDangling) := by
  refine (seesNoOrder_registerTable entries).bind fun names => ?_
  refine seesNoOrder_freeze.bind fun _ s s' h => ?_
  -- reports with the same contents have the same least name
  have hleast : LiteralSet.ofList (s.registry.unresolvedReferences.flatMap Prod.snd) =
      LiteralSet.ofList (s'.registry.unresolvedReferences.flatMap Prod.snd) := by
    refine LiteralSet.ext_mem fun name => ?_
    rw [LiteralSet.mem_ofList, LiteralSet.mem_ofList, List.mem_flatMap, List.mem_flatMap]
    simp only [h.registry.unresolvedReferences.mem_iff]
  obtain ⟨houtcome, hstate⟩ := noteDangling_run s.registry.unresolvedReferences s
  obtain ⟨houtcome', hstate'⟩ := noteDangling_run s'.registry.unresolvedReferences s'
  simp only [Action.outcome_bind, Action.state_bind, Action.run_get, houtcome, hstate, houtcome',
    hstate', hleast]
  cases (LiteralSet.ofList (s'.registry.unresolvedReferences.flatMap Prod.snd)).toList with
  | nil => exact ⟨rfl, h⟩
  | cons least rest => cases allowDangling <;> exact ⟨rfl, h⟩

/-- **No call sees the order.** -/
theorem seesNoOrder_perform (call : Call) : SeesNoOrder call.perform := by
  cases call with
  | register name entry =>
    exact (seesNoOrder_onRegistry fun strict => Registry.respects_register strict name entry).map _
  | registerAll table => exact (seesNoOrder_registerTable _).map _
  | build table allowDangling => exact (seesNoOrder_buildFrom _ _).map _
  | freeze => exact seesNoOrder_freeze
  | resolve i => exact (seesNoOrder_resolve i).map _
  | resolveStruct i => exact (seesNoOrder_resolveStruct i).map _
  | resolveExpression e => exact (seesNoOrder_resolveExpression e).map _
  | requiredFields t => exact (seesNoOrder_requiredFields t).map _
  | requiredFieldsOf name =>
    exact (seesNoOrder_resolveStruct _).bind fun t => (seesNoOrder_requiredFields t).map _
  | admitsAbsence e => exact (seesNoOrder_admitsAbsence e).map _
  | validate value target => exact (seesNoOrder_validate value target).map _
  | validateNamed value name => exact (seesNoOrder_validateNamed value name).map _
  | clearMemo => exact fun _ _ h => ⟨rfl, h.registry, rfl, h.maxDepth, h.strictTags⟩

/-- Every history keeps two sessions alike, by induction on the calls. -/
theorem Resembles.after (h : s.Resembles s') (history : List Call) :
    (s.after history).Resembles (s'.after history) := by
  induction history generalizing s s' with
  | nil => exact h
  | cons call rest ih => exact ih (seesNoOrder_perform call s s' h).2

/-! ## Answers -/

/-- Whatever can be asked about types and values gets the same answer in both sessions,
or the same error. -/
structure AnswersLike (s s' : Session) : Prop where
  lookup : ∀ name, ((lookup name).run s).outcome = ((lookup name).run s').outcome
  resolve : ∀ i, ((resolve i).run s).outcome = ((resolve i).run s').outcome
  resolveStruct : ∀ i, ((resolveStruct i).run s).outcome = ((resolveStruct i).run s').outcome
  resolveExpression : ∀ e,
    ((resolveExpression e).run s).outcome = ((resolveExpression e).run s').outcome
  requiredFields : ∀ t, ((requiredFields t).run s).outcome = ((requiredFields t).run s').outcome
  admitsAbsence : ∀ e, ((admitsAbsence e).run s).outcome = ((admitsAbsence e).run s').outcome
  validate : ∀ value target,
    ((validate value target).run s).outcome = ((validate value target).run s').outcome
  validateNamed : ∀ value name,
    ((validateNamed value name).run s).outcome = ((validateNamed value name).run s').outcome

/-- **Sessions that differ in the order of their definitions answer alike.** -/
theorem Resembles.answersLike (h : s.Resembles s') : s.AnswersLike s' where
  lookup name := (seesNoOrder_lookup name s s' h).1
  resolve i := (seesNoOrder_resolve i s s' h).1
  resolveStruct i := (seesNoOrder_resolveStruct i s s' h).1
  resolveExpression e := (seesNoOrder_resolveExpression e s s' h).1
  requiredFields t := (seesNoOrder_requiredFields t s s' h).1
  admitsAbsence e := (seesNoOrder_admitsAbsence e s s' h).1
  validate value target := (seesNoOrder_validate value target s s' h).1
  validateNamed value name := (seesNoOrder_validateNamed value name s s' h).1

/-- A table is registered exactly if each of its entries is. -/
theorem registerTable_run (entries : List (String × Entry)) (s : Session) :
    (((registerTable entries).run s).outcome.isOk = true ↔
        ((Registry.registerEach s.strictTags entries).run s.registry).outcome.isOk = true) ∧
      ((registerTable entries).run s).state =
        { s with
          registry := ((Registry.registerEach s.strictTags entries).run s.registry).state } := by
  have houtcome : ((registerTable entries).run s).outcome =
      ((Registry.registerAll s.strictTags entries).run s.registry).outcome.mapError
        Fault.schema := rfl
  constructor
  · rw [houtcome, Registry.registerAll, Action.outcome_bind]
    cases ((Registry.registerEach s.strictTags entries).run s.registry).outcome <;>
      simp [Except.isOk, Except.toBool, Except.mapError, Action.outcome_bind, Action.run_pure]
  · rw [← (Registry.registerAll_run s.strictTags entries s.registry).1]
    rfl

/-- **The order of registration makes no difference.** A batch without repeated names is
registered in every order or in none. If it is, then after whatever calls follow, each
definition has the same dangling names, and every name, argument list, schema and value
gets the same answer or the same error. -/
theorem registration_order_irrelevant (s : Session) (entries entries' : List (String × Entry))
    (hperm : entries.Perm entries') (hnames : (entries.map Prod.fst).Nodup) :
    (((registerTable entries).run s).outcome.isOk = true ↔
        ((registerTable entries').run s).outcome.isOk = true) ∧
      (((registerTable entries).run s).outcome.isOk = true → ∀ later : List Call,
        let t := ((registerTable entries).run s).state.after later
        let t' := ((registerTable entries').run s).state.after later
        t.registry.unresolvedReferences.Perm t'.registry.unresolvedReferences ∧
          t.AnswersLike t') := by
  obtain ⟨hok, hstate⟩ := registerTable_run entries s
  obtain ⟨hok', hstate'⟩ := registerTable_run entries' s
  obtain ⟨hiff, hsame⟩ := Registry.registerEach_perm s.strictTags s.registry hperm hnames
  rw [hok, hok', hstate, hstate']
  refine ⟨hiff, fun h later => ?_⟩
  have hresembles : Resembles
      { s with registry := ((Registry.registerEach s.strictTags entries).run s.registry).state }
      { s with registry := ((Registry.registerEach s.strictTags entries').run s.registry).state } :=
    ⟨hsame h, rfl, rfl, rfl⟩
  have hlater := hresembles.after later
  exact ⟨hlater.registry.unresolvedReferences, hlater.answersLike⟩

/-- A dial is a knob with a size, and it lacks a type; each entry needs a later one. -/
def dialFirst : List (String × Entry) :=
  [("Dial", .table [(.text "$super", .atom (.text "Knob")), (.text "size", .atom (.text "Size")),
      (.text "skin", .atom (.text "Skin"))]),
   ("Knob", .table [(.text "label", .atom (.text "Label"))]),
   ("Label", .atom (.text "Maybe(Text)")),
   ("Size", .atom (.text "number|[number]"))]

/-- Last to first, every entry needs earlier ones only; and the dial is the same. -/
theorem dial_last_is_dial_first :
    let s := opened .empty none true
    let t := ((registerTable dialFirst).run s).state
    let t' := ((registerTable dialFirst.reverse).run s).state
    ((registerTable dialFirst).run s).outcome.isOk = true ∧
      t.registry.names ≠ t'.registry.names ∧
      t.registry.unresolvedReferences = [("Dial", ["Skin"])] ∧
      t.registry.unresolvedReferences.Perm t'.registry.unresolvedReferences ∧
      ((resolveStruct ⟨"Dial", []⟩).run t').outcome.toOption.map (fun q => q.fields.keys) =
        some ["label", "size", "skin"] ∧
      ((resolveStruct ⟨"Dial", []⟩).run t).outcome =
        ((resolveStruct ⟨"Dial", []⟩).run t').outcome := by
  intro s t t'
  have hok : ((registerTable dialFirst).run s).outcome.isOk = true := by decide +kernel
  obtain ⟨-, hsame⟩ := registration_order_irrelevant s dialFirst dialFirst.reverse
    dialFirst.reverse_perm.symm (by decide)
  obtain ⟨hreport, hanswers⟩ := hsame hok []
  exact ⟨hok, by decide +kernel, by decide +kernel, hreport, by decide +kernel,
    hanswers.resolveStruct _⟩

end Session

end WidgetSchema
