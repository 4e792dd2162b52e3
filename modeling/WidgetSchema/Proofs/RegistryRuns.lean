/-
What a registry goes through.

A registry starts empty or with the prelude and is used by three calls: one
registration, a batch, and the end of the build phase. Registrations and batches
may fail, and the strictness towards tags may differ from call to call.

All that one registration can do is said by `register_run`: it is refused, its
entry declares nothing, or it puts one definition behind all others. A batch is
registrations up to the first that fails (`registerEach_steps`). What a run of
calls does follows by induction on the calls: the entries are those of the start
and then the accepted ones, in order (`entries_after`), so names are listed once,
and what is stored stays.
-/
import WidgetSchema.Proofs.RegistryGrowth

set_option autoImplicit false

namespace WidgetSchema

/-! ## Declarations -/

/-- The definition that an entry declares under a name has that name. -/
theorem Definition.name_of_build {strict : Bool} {name : String} {entry : Entry} {d : Definition}
    (h : (Definition.build strict name entry).outcome = .ok d) : d.name = name := by
  unfold Definition.build at h
  split at h
  · -- a ready definition is taken only under its own name
    split_ifs at h with hname
    · cases h
      exact hname
    · cases h
  · split_ifs at h with hempty
    · cases h
      rfl
    · rw [Noted.outcome_bind, bind_eq_ok] at h
      obtain ⟨e, -, hd⟩ := h
      cases hd
      rfl
  · split at h
    · cases h
    · rw [Noted.outcome_bind, bind_eq_ok] at h
      obtain ⟨s, hs, hd⟩ := h
      cases hd
      -- a struct gets the name before its parts are read
      unfold StructDef.build at hs
      simp only [Noted.outcome_bind, bind_eq_ok] at hs
      obtain ⟨_, -, _, -, _, -, hs⟩ := hs
      cases hs
      rfl
  · cases h

namespace Registry

variable {r r' : Registry} {strict : Bool} {name : String} {entry : Entry} {d : Definition}

/-- A definition goes behind all others. -/
theorem entries_add (h : r.refusal? name = none) :
    (r.add name d).definitions.entries = r.definitions.entries ++ [(name, d)] :=
  OrderedMap.entries_insert_of_new fun hkey => by
    have hnew := (refusal?_eq_none.1 h).2.2
    rw [OrderedMap.contains_iff.2 hkey] at hnew
    cases hnew

/-! ## Batches -/

/-- What registering entries in order adds to a registry: the definitions
returned until a registration fails. -/
def acceptedEach (strict : Bool) : List (String × Entry) → Registry → List (String × Definition)
  | [], _ => []
  | (name, entry) :: rest, r =>
    match ((register strict name entry).run r).outcome with
    | .ok d => (name, d) :: acceptedEach strict rest ((register strict name entry).run r).state
    | .error _ => []

/-- `r'` is `r` with entries added behind the others. -/
def AddedTo (added : List (String × Definition)) (r r' : Registry) : Prop :=
  r'.definitions.entries = r.definitions.entries ++ added ∧ r'.frozen = r.frozen

theorem AddedTo.refl (r : Registry) : AddedTo [] r r := ⟨(List.append_nil _).symm, rfl⟩

theorem AddedTo.cons {added : List (String × Definition)} (hrefusal : r.refusal? name = none)
    (h : AddedTo added (r.add name d) r') : AddedTo ((name, d) :: added) r r' := by
  obtain ⟨hentries, hfrozen⟩ := h
  refine ⟨?_, hfrozen⟩
  rw [hentries, entries_add hrefusal, List.append_assoc]
  rfl

/-- The entries up to a place were registered, and there the batch ends: nothing is
left, or the next entry is not registered and its error is that of the batch. -/
def StopsAt (strict : Bool) (rest : List (String × Entry)) (r : Registry)
    (outcome : Except SchemaError Unit) : Prop :=
  match rest with
  | [] => outcome = .ok ()
  | (name, entry) :: _ =>
    ∃ e, outcome = .error e ∧ ((register strict name entry).run r).outcome = .error e

/-- **What a batch does.** Some entries at the front are registered, in order, and
nothing else; and the batch stops at what is left. -/
theorem registerEach_steps (strict : Bool) (entries : List (String × Entry)) (r : Registry) :
    ∃ before rest, entries = before ++ rest ∧
      List.Forall₂ (Declares strict) before (acceptedEach strict entries r) ∧
      AddedTo (acceptedEach strict entries r) r ((registerEach strict entries).run r).state ∧
      StopsAt strict rest ((registerEach strict entries).run r).state
        ((registerEach strict entries).run r).outcome := by
  -- the induction is on the entries; each step goes on from the registry reached
  induction entries generalizing r with
  | nil => exact ⟨[], [], rfl, .nil, .refl r, rfl⟩
  | cons first entries ih =>
    obtain ⟨name, entry⟩ := first
    rw [registerEach, Action.outcome_bind, Action.state_bind, acceptedEach]
    rcases register_run strict r name entry with ⟨e, houtcome, hstate⟩ |
      ⟨d, houtcome, hstate, hrefusal, hdeclares⟩
    · simp only [houtcome, hstate]
      exact ⟨[], (name, entry) :: entries, rfl, .nil, .refl r, e, rfl, houtcome⟩
    · simp only [houtcome, hstate]
      obtain ⟨before, rest, hsplit, hbefore, hadded, hstops⟩ := ih (r.add name d)
      refine ⟨(name, entry) :: before, rest, ?_, .cons hdeclares hbefore, hadded.cons hrefusal,
        hstops⟩
      rw [hsplit]
      rfl

/-- A batch that returns names does nothing else, so it ends as its registrations. -/
theorem registerAll_run (strict : Bool) (entries : List (String × Entry)) (r : Registry) :
    ((registerAll strict entries).run r).state = ((registerEach strict entries).run r).state ∧
      ∀ e, ((registerAll strict entries).run r).outcome = .error e →
        ((registerEach strict entries).run r).outcome = .error e := by
  rw [registerAll, Action.state_bind, Action.outcome_bind]
  cases ((registerEach strict entries).run r).outcome with
  | error e => exact ⟨rfl, fun _ h => by cases h; rfl⟩
  | ok u => exact ⟨rfl, fun _ h => by cases h⟩

/-! ## Runs of calls -/

/-- A call on a registry. -/
inductive Call where
  | register (strict : Bool) (name : String) (entry : Entry)
  | registerAll (strict : Bool) (table : List (Atom × Entry))
  | freeze

namespace Call

/-- The registry after a call, which may have failed. -/
def perform (r : Registry) : Call → Registry
  | register strict name entry => ((Registry.register strict name entry).run r).state
  | registerAll strict table =>
    ((Registry.registerAll strict (flattenTable "" table)).run r).state
  | freeze => r.freeze

/-- The registrations of a call that succeed, in order, with what they return. -/
def accepted (r : Registry) : Call → List (String × Definition)
  | register strict name entry => acceptedEach strict [(name, entry)] r
  | registerAll strict table => acceptedEach strict (flattenTable "" table) r
  | freeze => []

end Call

/-- The registry after calls, each of which may have failed. -/
def after (r : Registry) : List Call → Registry
  | [] => r
  | call :: rest => after (call.perform r) rest

/-- The registrations that succeed in a run of calls, in order. -/
def accepted (r : Registry) : List Call → List (String × Definition)
  | [] => []
  | call :: rest => call.accepted r ++ accepted (call.perform r) rest

/-- A new registry, with or without the prelude. -/
def opened (strict prelude : Bool) : Registry :=
  if prelude then ((registerEach strict Registry.prelude).run .empty).state else .empty

/-! ## What a run does -/

theorem AddedTo.trans {added more : List (String × Definition)} {r'' : Registry}
    (h₁ : AddedTo added r r') (h₂ : AddedTo more r' r'') : AddedTo (added ++ more) r r'' := by
  refine ⟨?_, h₂.2.trans h₁.2⟩
  rw [h₂.1, h₁.1, List.append_assoc]

/-- A frozen registry accepts nothing and stays as it is. -/
theorem registerEach_frozen (strict : Bool) (entries : List (String × Entry))
    (h : r.frozen = true) :
    acceptedEach strict entries r = [] ∧ ((registerEach strict entries).run r).state = r := by
  cases entries with
  | nil => exact ⟨rfl, rfl⟩
  | cons first entries =>
    obtain ⟨name, entry⟩ := first
    rw [registerEach, Action.state_bind, acceptedEach]
    rcases register_run strict r name entry with ⟨e, houtcome, hstate⟩ | ⟨d, -, -, hrefusal, -⟩
    · rw [houtcome, hstate]
      exact ⟨rfl, rfl⟩
    · rw [(refusal?_eq_none.1 hrefusal).1] at h
      cases h

/-- What a batch accepts is what one of its entries declares, under a name that types can have. -/
theorem declared_of_acceptedEach {entries : List (String × Entry)} {p : String × Definition}
    (h : p ∈ acceptedEach strict entries r) :
    isTypeName p.1 = true ∧ ∃ e ∈ entries, Declares strict e p := by
  induction entries generalizing r with
  | nil => cases h
  | cons first entries ih =>
    obtain ⟨name, entry⟩ := first
    rw [acceptedEach] at h
    rcases register_run strict r name entry with ⟨e, houtcome, -⟩ |
      ⟨d, houtcome, -, hrefusal, hdeclares⟩
    · rw [houtcome] at h
      cases h
    · rw [houtcome] at h
      rcases List.mem_cons.1 h with rfl | hrest
      · exact ⟨(refusal?_eq_none.1 hrefusal).2.1, _, List.mem_cons_self, hdeclares⟩
      · obtain ⟨htype, e, he, hdeclares⟩ := ih hrest
        exact ⟨htype, e, List.mem_cons_of_mem _ he, hdeclares⟩

/-- What a batch accepts is defined under its name. -/
theorem names_of_acceptedEach {entries : List (String × Entry)} {p : String × Definition}
    (h : p ∈ acceptedEach strict entries r) : isTypeName p.1 = true ∧ p.2.name = p.1 := by
  obtain ⟨htype, e, -, hname, hbuild⟩ := declared_of_acceptedEach h
  rw [hname]
  exact ⟨hname ▸ htype, Definition.name_of_build hbuild⟩

/-- One registration is a batch of one. -/
theorem register_eq_registerEach (strict : Bool) (r : Registry) (name : String) (entry : Entry) :
    ((register strict name entry).run r).state =
      ((registerEach strict [(name, entry)]).run r).state := by
  rw [registerEach, Action.state_bind]
  cases ((register strict name entry).run r).outcome <;> rfl

namespace Call

/-- **A call appends what it accepts and does nothing else to the contents.** -/
theorem entries_perform (call : Call) (r : Registry) :
    (call.perform r).definitions.entries = r.definitions.entries ++ call.accepted r := by
  have hbatch (strict : Bool) (entries : List (String × Entry)) :
      ((registerEach strict entries).run r).state.definitions.entries =
        r.definitions.entries ++ acceptedEach strict entries r := by
    obtain ⟨_, _, -, -, hadded, -⟩ := registerEach_steps strict entries r
    exact hadded.1
  cases call with
  | register strict name entry =>
    rw [perform, register_eq_registerEach]
    exact hbatch strict [(name, entry)]
  | registerAll strict table =>
    rw [perform, (registerAll_run strict _ r).1]
    exact hbatch strict (flattenTable "" table)
  | freeze => exact (List.append_nil _).symm

/-- No call changes a frozen registry. -/
theorem perform_frozen (call : Call) (h : r.frozen = true) : call.perform r = r := by
  cases call with
  | register strict name entry => exact register_frozen strict name entry h
  | registerAll strict table =>
    rw [perform, (registerAll_run strict _ r).1]
    exact (registerEach_frozen strict _ h).2
  | freeze =>
    rw [perform, Registry.freeze, ← h]

theorem names_of_accepted {call : Call} {p : String × Definition} (h : p ∈ call.accepted r) :
    isTypeName p.1 = true ∧ p.2.name = p.1 := by
  cases call with
  | register strict name entry => exact names_of_acceptedEach h
  | registerAll strict table => exact names_of_acceptedEach h
  | freeze => cases h

end Call

/-- **The contents after a run are those before it and then what it accepted.** -/
theorem entries_after (r : Registry) (calls : List Call) :
    (r.after calls).definitions.entries = r.definitions.entries ++ r.accepted calls := by
  induction calls generalizing r with
  | nil => exact (List.append_nil _).symm
  | cons call rest ih =>
    rw [after, ih, call.entries_perform, accepted, List.append_assoc]

theorem after_frozen (calls : List Call) (h : r.frozen = true) : r.after calls = r := by
  induction calls with
  | nil => rfl
  | cons call rest ih => rw [after, call.perform_frozen h, ih]

/-- What stands in front of other entries is found there. -/
theorem after_extends (r : Registry) (calls : List Call) : (r.after calls).Extends r := by
  intro name d h
  rw [lookup_eq_ok, OrderedMap.get?_eq_some] at h ⊢
  rw [entries_after]
  exact List.mem_append_left _ h

/-- Every type is stored under its own name, which is one a type can have. -/
def WellNamed (r : Registry) : Prop :=
  ∀ name d, (name, d) ∈ r.definitions.entries →
    Name.isQualified name = true ∧ isPrimitiveName name = false ∧ d.name = name

theorem WellNamed.append {added : List (String × Definition)} (h : r.WellNamed)
    (hadded : ∀ p ∈ added, isTypeName p.1 = true ∧ p.2.name = p.1)
    (hentries : r'.definitions.entries = r.definitions.entries ++ added) : r'.WellNamed := by
  intro name d hmem
  rw [hentries, List.mem_append] at hmem
  rcases hmem with hold | hnew
  · exact h name d hold
  · obtain ⟨htype, hname⟩ := hadded _ hnew
    rw [isTypeName, Bool.and_eq_true, Bool.not_eq_true'] at htype
    exact ⟨htype.1, htype.2, hname⟩

theorem WellNamed.after (h : r.WellNamed) (calls : List Call) : (r.after calls).WellNamed := by
  induction calls generalizing r with
  | nil => exact h
  | cons call rest ih =>
    exact ih (h.append (fun _ hp => Call.names_of_accepted hp) (call.entries_perform r))

theorem wellNamed_opened (strict prelude : Bool) : (opened strict prelude).WellNamed := by
  have hempty : Registry.empty.WellNamed := fun name d h => by cases h
  cases prelude with
  | false => exact hempty
  | true =>
    obtain ⟨_, _, -, -, hadded, -⟩ := registerEach_steps strict Registry.prelude .empty
    exact hempty.append (fun _ hp => names_of_acceptedEach hp) hadded.1

/-- The prelude registers all of its types. -/
theorem names_opened (strict prelude : Bool) :
    (opened strict prelude).names = if prelude then ["Flag", "Text", "Maybe"] else [] := by
  cases strict <;> cases prelude <;> decide

/-! ## The invariant -/

/-- **What holds of a registry throughout its life.** After any calls on a new registry: every
type is stored under its own name, which is qualified and no scalar kind; each name is listed
once, those of the prelude first and then the accepted ones in order; no later call changes what
is stored or takes it away; a frozen registry stays as it is; a registration that fails leaves the
registry as it was; and a batch that fails has added what the flattened entries before one of them
declare, in order, and nothing else, and registering that one fails with its error. -/
theorem invariant_of_runs (strict prelude : Bool) (calls : List Call) :
    let start := opened strict prelude
    let r := start.after calls
    r.WellNamed ∧
      (r.names.Nodup ∧ r.names = (if prelude then ["Flag", "Text", "Maybe"] else []) ++
          (start.accepted calls).map Prod.fst) ∧
      (∀ later name d, r.lookup name = .ok d → (r.after later).lookup name = .ok d) ∧
      (r.frozen = true → ∀ later, r.after later = r) ∧
      (∀ strict name entry e, ((register strict name entry).run r).outcome = .error e →
        ((register strict name entry).run r).state = r) ∧
      ∀ strict table e, ((registerAll strict (flattenTable "" table)).run r).outcome = .error e →
        ∃ before name entry rest added,
          flattenTable "" table = before ++ (name, entry) :: rest ∧
          List.Forall₂ (Declares strict) before added ∧
          AddedTo added r ((registerAll strict (flattenTable "" table)).run r).state ∧
          ((register strict name entry).run
            ((registerAll strict (flattenTable "" table)).run r).state).outcome = .error e := by
  intro start r
  refine ⟨(wellNamed_opened strict prelude).after calls, ⟨r.definitions.nodup_keys, ?_⟩,
    fun later => after_extends r later, fun hfrozen later => after_frozen later hfrozen, ?_, ?_⟩
  · rw [← names_opened strict prelude, names, OrderedMap.keys, entries_after, List.map_append]
    rfl
  · intro strict name entry e herror
    rcases register_run strict r name entry with ⟨_, -, hstate⟩ | ⟨d, hok, -, -, -⟩
    · exact hstate
    · rw [hok] at herror
      cases herror
  · intro strict table e herror
    obtain ⟨hstate, houtcome⟩ := registerAll_run strict (flattenTable "" table) r
    obtain ⟨before, rest, hsplit, hbefore, hadded, hstops⟩ :=
      registerEach_steps strict (flattenTable "" table) r
    rw [houtcome e herror] at hstops
    rw [hstate]
    -- the batch failed, so it did not end for want of entries
    cases rest with
    | nil => cases hstops
    | cons next rest =>
      obtain ⟨name, entry⟩ := next
      obtain ⟨e', he, hfails⟩ := hstops
      cases he
      exact ⟨before, name, entry, rest, _, hsplit, hbefore, hadded, hfails⟩

/-- A group whose second entry declares no type. -/
def brokenGroup : List (Atom × Entry) :=
  [(.text "UI", .table
    [(.text "Box", .atom (.text "\x7b\x7d")), (.text "Flow", .list []),
     (.text "Late", .atom (.text "\x7b\x7d"))])]

/-- The batch stops at its second entry and adds the first. -/
theorem broken_group_stops :
    let r := (opened true false).after [.register true "Box" (.atom (.text "\x7b\x7d"))]
    let r' := ((registerAll true (flattenTable "" brokenGroup)).run r).state
    r'.names = ["Box", "UI.Box"] ∧
      ∃ before name entry rest added,
        flattenTable "" brokenGroup = before ++ (name, entry) :: rest ∧
        List.Forall₂ (Declares true) before added ∧ AddedTo added r r' ∧
        ((register true name entry).run r').outcome =
          .error (.definition "UI.Flow" (.unsupportedEntry "list")) := by
  intro r r'
  refine ⟨by decide, ?_⟩
  exact (invariant_of_runs true false [.register true "Box" (.atom (.text "\x7b\x7d"))]).2.2.2.2.2
    true brokenGroup _ rfl

end Registry

end WidgetSchema
