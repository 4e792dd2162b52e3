/-
How a run of the command line ends.

Three things can be asked of a run: whether it ends with an exit code at all, whether it ends with
1, and whether it ends with 2. Each is said here by what the line asks for, without running it:
`Escapes` lists what stops a run without an exit code, `FindsFailures` is a value that does not fit
its type, and `InError` is a document or a type that is refused.

A command reads its document, loads its catalogue and works on the session that this gives. Of the
first two steps all outcomes are known (`readDocument_cases`, `engine_cases`). The third one ends
with an error in a type or a value if it fails, unless the machine has no room for it: the
catalogues hold raw entries only, and over these a check ends, and a document holds no integer that
is too long to be repeated. So every outcome of a command is one of five (`Ends`).

What a command has to show (`Shows`) is written last, and only a machine that has all of its
characters can write it. So a run ends in one of two ways (`CommandLine.Finishes`), and from that
the exit codes follow (`CommandLine.exit_codes`).
-/
import WidgetSchema.Command.Run
import WidgetSchema.Proofs.BatchOrder
import WidgetSchema.Proofs.CatalogueChoice
import WidgetSchema.Proofs.CheckTermination
import WidgetSchema.Proofs.ShortDocuments

set_option autoImplicit false

namespace WidgetSchema

/-! ## Documents and arguments -/

namespace Command

variable {document : Option (List UInt8)} {nesting : Nat} {value : ValueGraph}
  {args : List String} {es : List TypeExpr}

/-- The document can be read, and its bytes encode the text. -/
def Encodes (document : Option (List UInt8)) (text : String) : Prop :=
  ∃ bytes, document = some bytes ∧ String.fromUTF8? (ByteArray.mk bytes.toArray) = some text

/-- The document is the text of a value. -/
def Holds (nesting : Nat) (document : Option (List UInt8)) (value : ValueGraph) : Prop :=
  ∃ text datum, Encodes document text ∧ Json.read nesting text = .ok datum ∧
    value = .ofDatum datum

/-- The document is a text that is no text of a value, for this reason. -/
def Misread (nesting : Nat) (document : Option (List UInt8)) (fault : Json.ReadFault) : Prop :=
  ∃ text, Encodes document text ∧ Json.read nesting text = .error fault

/-- The document can be read, and its bytes encode no text. -/
def Undecodable (document : Option (List UInt8)) : Prop :=
  ∃ bytes, document = some bytes ∧ String.fromUTF8? (ByteArray.mk bytes.toArray) = none

/-- The document cannot be read, or it is a text that is malformed. -/
def Unreadable (nesting : Nat) (document : Option (List UInt8)) : Prop :=
  document = none ∨ Misread nesting document .malformed

/-- Of a document there is a value, or it encodes no text, or it is malformed, or what it holds is
too long or nests too deep. -/
theorem readDocument_cases (nesting : Nat) (document : Option (List UInt8)) :
    (∀ value, readDocument nesting document = .ok value ↔ Holds nesting document value) ∧
      (readDocument nesting document = .error .undecodable ↔ Undecodable document) ∧
      (readDocument nesting document = .error .unreadable ↔ Unreadable nesting document) ∧
      (readDocument nesting document = .error .tooManyDigits ↔
        Misread nesting document .tooManyDigits) ∧
      (readDocument nesting document = .error .tooDeep ↔ Misread nesting document .tooDeep) := by
  unfold readDocument Holds Undecodable Unreadable Misread Encodes
  cases document with
  | none => simp
  | some bytes =>
    cases htext : String.fromUTF8? (ByteArray.mk bytes.toArray) with
    | none => simp [htext]
    | some text =>
      cases hread : Json.read nesting text with
      | ok datum => simp [htext, hread, Except.map, Except.mapError, eq_comm]
      | error fault =>
        cases fault <;> simp [htext, hread, Except.map, Except.mapError, DocumentFault.ofRead]

/-- What the reader says of a document, in five lemmas: each ending is the condition on the
document that has its name. -/
theorem readDocument_eq_ok :
    readDocument nesting document = .ok value ↔ Holds nesting document value :=
  (readDocument_cases nesting document).1 value

theorem readDocument_eq_undecodable :
    readDocument nesting document = .error .undecodable ↔ Undecodable document :=
  (readDocument_cases nesting document).2.1

theorem readDocument_eq_unreadable :
    readDocument nesting document = .error .unreadable ↔ Unreadable nesting document :=
  (readDocument_cases nesting document).2.2.1

theorem readDocument_eq_tooManyDigits :
    readDocument nesting document = .error .tooManyDigits ↔
      Misread nesting document .tooManyDigits :=
  (readDocument_cases nesting document).2.2.2.1

theorem readDocument_eq_tooDeep :
    readDocument nesting document = .error .tooDeep ↔ Misread nesting document .tooDeep :=
  (readDocument_cases nesting document).2.2.2.2

/-- What a document holds can be written again. -/
theorem Holds.not_holdsLong (h : Holds nesting document value) :
    ¬ value.root.HoldsLong value.heap := by
  obtain ⟨text, datum, -, hread, rfl⟩ := h
  exact ValueGraph.not_holdsLong_ofDatum (Json.read_short hread)

/-- A path may not have the character zero in it, at which a system would end it. -/
theorem isPossiblePath_iff {path : String} :
    isPossiblePath path = true ↔ '\x00' ∉ path.toList := by
  simp [isPossiblePath]

/-- All arguments are read. -/
theorem parseArgs_eq_ok :
    parseArgs args = .ok es ↔ List.Forall₂ (fun raw e => TypeExpr.parse raw = .ok e) args es := by
  induction args generalizing es with
  | nil => simp [parseArgs, eq_comm]
  | cons raw args ih =>
    simp only [parseArgs, bind_eq_ok, mapError_eq_ok, ih, List.forall₂_cons_left_iff]
    constructor
    · rintro ⟨e, he, es, hes, h⟩
      cases h
      exact ⟨e, es, he, hes, rfl⟩
    · rintro ⟨e, es, he, hes, rfl⟩
      exact ⟨e, he, es, hes, rfl⟩

/-- Some argument is malformed. -/
theorem parseArgs_eq_error :
    (∃ e, parseArgs args = .error e) ↔ ∃ raw ∈ args, ∃ e, TypeExpr.parse raw = .error e := by
  induction args with
  | nil => simp [parseArgs]
  | cons raw args ih =>
    simp only [List.mem_cons, exists_eq_or_imp, ← ih, parseArgs]
    cases TypeExpr.parse raw with
    | error e => simp [Except.mapError, bind, Except.bind]
    | ok e => cases parseArgs args <;> simp [Except.mapError, bind, Except.bind]

end Command

/-! ## Sessions of catalogues -/

namespace Session

variable {env : Environment} {name : String} {s : Session}

/-- The session has aliases of a fixed form and remembers what its definitions say. -/
structure Settled (s : Session) : Prop where
  form : s.registry.FixedForm
  sound : s.memo.SoundFor s.composer

open Composer in
/-- A check of short integers by a name returns a verdict or ends with an error in a type
or a value. -/
theorem Settled.validateNamed (h : s.Settled) {value : ValueGraph}
    (hshort : ¬ value.root.HoldsLong value.heap) (name : String) :
    Settles ((Session.validateNamed value name).run s).outcome := by
  have hform : s.composer.registry.FixedForm := h.form
  refine (settles_or_stops ((checks_end hform value).2 name) h.sound).resolve_right ?_
  exact fun hstops => hshort hstops.2

/-- Work on the registry ends with a result or with an error in a type. -/
theorem settles_onRegistry {α : Type} (x : Bool → Action SchemaError Registry α) (s : Session) :
    Settles ((onRegistry x).run s).outcome := by
  show Settles (((x s.strictTags).run s.registry).outcome.mapError Fault.schema)
  cases ((x s.strictTags).run s.registry).outcome with
  | ok a => exact .inl ⟨a, rfl⟩
  | error e => exact .inr ⟨e, rfl⟩

/-- So does a resolution. -/
theorem settles_resolve (i : Instantiation) (s : Session) :
    Settles ((Session.resolve i).run s).outcome := by
  show Settles (((s.composer.resolve i).run s.memo).outcome.mapError Fault.schema)
  cases ((s.composer.resolve i).run s.memo).outcome with
  | ok a => exact .inl ⟨a, rfl⟩
  | error e => exact .inr ⟨e, rfl⟩

/-- Building a session from a table fails with an error in the table only. -/
theorem settles_buildFrom (entries : List (String × Entry)) (allowDangling : Bool) (s : Session) :
    Settles ((buildFrom entries allowDangling).run s).outcome := by
  unfold buildFrom
  rcases settles_onRegistry (fun strict => Registry.registerAll strict entries) s with
    ⟨names, hnames⟩ | ⟨e, he⟩
  · have hregistered : ((registerTable entries).run s).outcome = .ok names := hnames
    rw [Action.outcome_bind, hregistered]
    generalize ((registerTable entries).run s).state = s₁
    -- what is left are notes and the answer
    show Settles ((noteDangling
      { s₁ with registry := s₁.registry.freeze }.registry.unresolvedReferences >>= _).run _).outcome
    rw [Action.outcome_bind, (noteDangling_run _ _).1]
    dsimp only
    split
    · exact .inl ⟨names, rfl⟩
    · split
      · exact .inl ⟨names, rfl⟩
      · exact .inr ⟨_, rfl⟩
  · have hfailed : ((registerTable entries).run s).outcome = .error (.schema e) := he
    rw [Action.outcome_bind, hfailed]
    exact .inr ⟨e, rfl⟩

/-- The prelude is always registered. -/
theorem addPrelude_ok (env : Environment) :
    (addPrelude.run (blank env none)).outcome = .ok () := by
  have hprelude (strict : Bool) :
      ((Registry.registerEach strict Registry.prelude).run .empty).outcome = .ok () := by
    cases strict <;> rfl
  have houtcome : (addPrelude.run (blank env none)).outcome =
      ((Registry.registerEach env.strictTags Registry.prelude).run .empty).outcome.mapError
        Fault.schema := rfl
  rw [houtcome, hprelude]
  rfl

/-- A name that is not listed is reported with the list. -/
theorem find_eq_error (h : name ∉ Catalogue.names) :
    Catalogue.find name = .error (.unknownCatalogue name Catalogue.names) := by
  have hnone : Catalogue.all.find? (·.name == name) = none := by
    rw [List.find?_eq_none]
    intro c hc hname
    exact h (List.mem_map.2 ⟨c, hc, beq_iff_eq.1 hname⟩)
  rw [Catalogue.find, hnone]

/-- Each name that is listed is found. -/
theorem exists_find (h : name ∈ Catalogue.names) :
    ∃ c ∈ Catalogue.all, Catalogue.find name = .ok c := by
  cases hfind : Catalogue.all.find? (·.name == name) with
  | none =>
    obtain ⟨c, hc, rfl⟩ := List.mem_map.1 h
    exact absurd (beq_self_eq_true c.name) (List.find?_eq_none.1 hfind c hc)
  | some c =>
    refine ⟨c, List.mem_of_find?_eq_some hfind, ?_⟩
    rw [Catalogue.find, hfind]

/-- The entries of the catalogues are raw. -/
theorem isRaw_of_mem_all {c : Catalogue} (h : c ∈ Catalogue.all) :
    (Call.build c.table false).IsRaw := by
  have hall : ∀ c ∈ Catalogue.all, (Call.build c.table false).IsRaw := by decide +kernel
  exact hall c h

/-- Loading a catalogue is one call on a new session. -/
theorem load_run {c : Catalogue} (hfind : Catalogue.find name = .ok c) :
    ((load name false).run (blank env none)).outcome =
        ((buildFrom (flattenTable "" c.table) false).run (opened env none true)).outcome.map
          (fun _ => ()) ∧
      ((load name false).run (blank env none)).state =
        (opened env none true).after [.build c.table false] := by
  have hafter : (opened env none true).after [.build c.table false] =
      ((buildFrom (flattenTable "" c.table) false).run (opened env none true)).state := by
    show ((buildFrom (flattenTable "" c.table) false >>= fun _ => pure ()).run _).state = _
    rw [Action.state_bind]
    cases ((buildFrom (flattenTable "" c.table) false).run (opened env none true)).outcome <;> rfl
  have hopened : (addPrelude.run (blank env none)).state = opened env none true := rfl
  unfold load
  rw [hafter, Action.outcome_bind, Action.state_bind, addPrelude_ok]
  dsimp only
  rw [hopened, Action.outcome_bind, Action.state_bind, Action.run_ofExcept, hfind]
  dsimp only
  rw [Action.outcome_bind, Action.state_bind]
  cases ((buildFrom (flattenTable "" c.table) false).run (opened env none true)).outcome <;>
    exact ⟨rfl, rfl⟩

/-- The session of a catalogue is settled: its table is raw, and nothing has been resolved yet. -/
theorem settled_load {c : Catalogue} (hc : c ∈ Catalogue.all)
    (hfind : Catalogue.find name = .ok c) :
    ((load name false).run (blank env none)).state.Settled := by
  have hraw : ∀ call ∈ [Call.build c.table false], call.IsRaw :=
    List.forall_mem_singleton.2 (isRaw_of_mem_all hc)
  rw [(load_run hfind).2]
  exact ⟨fixedForm_after env none true hraw, lasting_soundFor.after env none true _⟩

end Session

/-! ## What a command is asked for -/

namespace Command

variable {machine : Machine} {env : Environment} {document : Option (List UInt8)}
  {given : Option String}

/-- Loading the catalogue of a command, with its end and the session that is left. -/
def engine (env : Environment) (given : Option String) : Step Fault Session Unit :=
  (loadCatalogue env given).run (Session.blank env none)

/-- The catalogue is in error, or what is asked of its session is. -/
def FailsOn (env : Environment) (given : Option String) (asked : Session → Prop) : Prop :=
  (∃ e, (engine env given).outcome = .error (.schema e)) ∨
    (engine env given).outcome = .ok () ∧ asked (engine env given).state

/-- An argument is malformed, or the type does not resolve with the arguments. -/
def Unresolvable (name : String) (args : List String) (s : Session) : Prop :=
  (∃ raw ∈ args, ∃ e, TypeExpr.parse raw = .error e) ∨
    ∃ es e, List.Forall₂ (fun raw arg => TypeExpr.parse raw = .ok arg) args es ∧
      ((Session.resolve ⟨name, es⟩).run s).outcome = .error (.schema e)

/-- The type is unknown or in error at the value, or the value is refused as a whole. -/
def Uncheckable (value : ValueGraph) (name : String) (s : Session) : Prop :=
  ∃ e, ((Session.validateNamed value name).run s).outcome = .error (.schema e)

/-- The value does not fit the type. -/
def Misfits (value : ValueGraph) (name : String) (s : Session) : Prop :=
  ∃ verdict, ((Session.validateNamed value name).run s).outcome = .ok verdict ∧
    verdict.failures ≠ []

/-- **The input or the schema is in error.** -/
def InError (machine : Machine) (env : Environment) (document : Option (List UInt8)) :
    Command → Prop
  | .catalogues => False
  | .types given => FailsOn env given fun _ => False
  | .resolve given name args => FailsOn env given (Unresolvable name args)
  | .validate given name _ =>
    Unreadable machine.nesting document ∨
      ∃ value, Holds machine.nesting document value ∧ FailsOn env given (Uncheckable value name)

/-- **A document is checked, and its value has failures.** -/
def FindsFailures (machine : Machine) (env : Environment) (document : Option (List UInt8)) :
    Command → Prop
  | .validate given name _ => ∃ value, Holds machine.nesting document value ∧
      (engine env given).outcome = .ok () ∧ Misfits value name (engine env given).state
  | _ => False

/-- The command comes to load its catalogue: it has a document, or needs none. -/
def Ready (machine : Machine) (document : Option (List UInt8)) : Command → Prop
  | .catalogues => False
  | .types _ | .resolve .. => True
  | .validate _ _ path =>
    (∃ p, path = some p ∧ '\x00' ∉ p.toList) ∧ ∃ value, Holds machine.nesting document value

/-- There is something left to do for the command once its catalogue is loaded. -/
def GoesOn : Command → Prop
  | .resolve .. | .validate .. => True
  | _ => False

/-- **What stops a command without an exit code.** -/
inductive Escapes (machine : Machine) (env : Environment) (document : Option (List UInt8)) :
    Command → Fault → Prop
  | noDocument {given : Option String} {name : String} :
      Escapes machine env document (.validate given name none) .noDocument
  | impossiblePath {given : Option String} {name path : String} : '\x00' ∈ path.toList →
      Escapes machine env document (.validate given name (some path)) (.impossiblePath path)
  | undecodable {given : Option String} {name path : String} : '\x00' ∉ path.toList →
      Undecodable document →
      Escapes machine env document (.validate given name (some path)) .undecodable
  /-- The document holds an integer with too many digits, and is not malformed before it. -/
  | tooManyDigits {given : Option String} {name path : String} : '\x00' ∉ path.toList →
      Misread machine.nesting document .tooManyDigits →
      Escapes machine env document (.validate given name (some path)) .tooManyDigits
  /-- The document nests too deep for the machine, and is not malformed before that. -/
  | tooDeep {given : Option String} {name path : String} : '\x00' ∉ path.toList →
      Misread machine.nesting document .tooDeep →
      Escapes machine env document (.validate given name (some path)) .tooDeep
  | unknownCatalogue {command : Command} : command.catalogue? = some none →
      env.defaultCatalogue ∉ Catalogue.names → command.Ready machine document →
      Escapes machine env document command
        (.unknownCatalogue env.defaultCatalogue Catalogue.names)
  /-- The machine has no room for the work on what was loaded. -/
  | stackOverflow {command : Command} {given : Option String} : command.catalogue? = some given →
      command.GoesOn → command.Ready machine document → (engine env given).outcome = .ok () →
      machine.overflows env document command = true →
      Escapes machine env document command .stackOverflow

/-- **What a command has to show**, once there is nothing in error and room for the work. -/
inductive Shows (machine : Machine) (env : Environment) (document : Option (List UInt8)) :
    Command → String → Prop
  | catalogues : Shows machine env document .catalogues (asLines (Catalogue.all.map catalogueLine))
  | types {given : Option String} : (engine env given).outcome = .ok () →
      Shows machine env document (.types given) (asLines (engine env given).state.registry.names)
  | resolve {given : Option String} {name : String} {args : List String} {es : List TypeExpr}
      {resolved : Resolved} : (engine env given).outcome = .ok () →
      machine.overflows env document (.resolve given name args) = false →
      List.Forall₂ (fun raw arg => TypeExpr.parse raw = .ok arg) args es →
      ((Session.resolve ⟨name, es⟩).run (engine env given).state).outcome = .ok resolved →
      Shows machine env document (.resolve given name args) (asLines [resolvedText resolved])
  | validate {given : Option String} {name path : String} {value : ValueGraph}
      {verdict : Verdict} : '\x00' ∉ path.toList → Holds machine.nesting document value →
      (engine env given).outcome = .ok () →
      machine.overflows env document (.validate given name (some path)) = false →
      ((Session.validateNamed value name).run (engine env given).state).outcome = .ok verdict →
      Shows machine env document (.validate given name (some path))
        (asLines [(verdictTree verdict).render])

/-- None of it is an error in a type or a value. -/
theorem Escapes.not_schemaError {command : Command} {fault : Fault}
    (h : command.Escapes machine env document fault) : ¬ fault.IsSchemaError := by
  cases h <;> exact id

/-! ## How a command ends -/

/-- A command ends in one of five ways. -/
inductive Ends (inError misfits : Prop) (shows : String → Prop) (escapes : Fault → Prop) :
    Except Fault (Nat × String) → Prop
  | succeeds {output : String} : ¬ inError → ¬ misfits → shows output →
      Ends inError misfits shows escapes (.ok (0, output))
  | finds {output : String} : ¬ inError → misfits → shows output →
      Ends inError misfits shows escapes (.ok (1, output))
  | refuses : inError → ¬ misfits → Ends inError misfits shows escapes (.ok (2, ""))
  | fails {e : SchemaError} : inError → ¬ misfits →
      Ends inError misfits shows escapes (.error (.schema e))
  | escapes {fault : Fault} : escapes fault → ¬ fault.IsSchemaError →
      Ends inError misfits shows escapes (.error fault)

/-- The ways of ending pass on to conditions that say the same, and more may be shown and more
faults may escape. -/
theorem Ends.congr {inError inError' misfits misfits' : Prop} {shows shows' : String → Prop}
    {escapes escapes' : Fault → Prop} {outcome : Except Fault (Nat × String)}
    (h : Ends inError misfits shows escapes outcome) (hin : inError' ↔ inError)
    (hmisfits : misfits' ↔ misfits) (hshows : ∀ output, shows output → shows' output)
    (hescapes : ∀ fault, escapes fault → escapes' fault) :
    Ends inError' misfits' shows' escapes' outcome := by
  rw [← hin, ← hmisfits] at h
  cases h with
  | succeeds h h' hshown => exact .succeeds h h' (hshows _ hshown)
  | finds h h' hshown => exact .finds h h' (hshows _ hshown)
  | refuses h h' => exact .refuses h h'
  | fails h h' => exact .fails h h'
  | escapes h h' => exact .escapes (hescapes _ h) h'

/-- The catalogue is unknown if the environment names it and there is none of that name. -/
theorem engine_unknown (h : env.defaultCatalogue ∉ Catalogue.names) :
    (engine env none).outcome =
      .error (.unknownCatalogue env.defaultCatalogue Catalogue.names) := by
  show ((Session.load env.defaultCatalogue false).run (Session.blank env none)).outcome = _
  unfold Session.load
  rw [Action.outcome_bind, Session.addPrelude_ok]
  dsimp only
  rw [Action.outcome_bind, Action.run_ofExcept, Session.find_eq_error h]

/-- No listed name is empty, so a given one is not replaced by the default. -/
theorem catalogueName_of_mem {name : String} (h : name ∈ Catalogue.names) :
    Session.catalogueName env (some name) = name := by
  have hempty : "" ∉ Catalogue.names := by decide
  rw [Session.catalogueName, if_neg]
  rw [String.isEmpty_iff]
  rintro rfl
  exact hempty h

/-- **Loading ends in one of three ways.** -/
theorem engine_cases (env : Environment)
    (hgiven : ∀ name, given = some name → name ∈ Catalogue.names) :
    (given = none ∧ env.defaultCatalogue ∉ Catalogue.names) ∨
      Settles (engine env given).outcome ∧ (engine env given).state.Settled := by
  have hknown {name : String} (hname : name ∈ Catalogue.names)
      (hload : Session.catalogueName env given = name) :
      Settles (engine env given).outcome ∧ (engine env given).state.Settled := by
    obtain ⟨c, hc, hfind⟩ := Session.exists_find hname
    rw [engine, loadCatalogue, hload]
    refine ⟨?_, Session.settled_load hc hfind⟩
    rw [(Session.load_run hfind).1]
    rcases Session.settles_buildFrom (flattenTable "" c.table) false
      (Session.opened env none true) with ⟨names, hok⟩ | ⟨e, herror⟩
    · exact .inl ⟨(), by rw [hok]; rfl⟩
    · exact .inr ⟨e, by rw [herror]; rfl⟩
  cases given with
  | some name => exact .inr (hknown (hgiven name rfl) (catalogueName_of_mem (hgiven name rfl)))
  | none =>
    by_cases hname : env.defaultCatalogue ∈ Catalogue.names
    · exact .inr (hknown hname rfl)
    · exact .inl ⟨rfl, hname⟩

/-- **A command that comes to load its catalogue ends as what it asks of the session does**, or as
the loading. -/
theorem ends_loaded {command : Command} {asked misfits : Session → Prop}
    {shown : Session → String → Prop} {stopped : Fault → Prop} {work : Doing}
    (hnames : ∀ name, command.catalogue? = some (some name) → name ∈ Catalogue.names)
    (hgiven : command.catalogue? = some given) (hready : command.Ready machine document)
    (hshown : ∀ output, shown (engine env given).state output →
      (engine env given).outcome = .ok () → command.Shows machine env document output)
    (hstopped : ∀ fault, stopped fault → (engine env given).outcome = .ok () →
      command.Escapes machine env document fault)
    (hwork : ∀ s : Session, s.Settled →
      Ends (asked s) (misfits s) (shown s) stopped (work.run s).outcome) :
    Ends (FailsOn env given asked)
      ((engine env given).outcome = .ok () ∧ misfits (engine env given).state)
      (command.Shows machine env document) (command.Escapes machine env document)
      ((loadCatalogue env given >>= fun _ => work).run (Session.blank env none)).outcome := by
  have hload : (engine env given).outcome =
      ((loadCatalogue env given).run (Session.blank env none)).outcome := rfl
  have hnames : ∀ name, given = some name → name ∈ Catalogue.names :=
    fun name h => hnames name (hgiven.trans (congrArg some h))
  rw [Action.outcome_bind, ← hload]
  rcases engine_cases env hnames with ⟨rfl, hunknown⟩ | ⟨⟨⟨⟩, hok⟩ | ⟨e, herror⟩, hsettled⟩
  · rw [engine_unknown hunknown]
    exact .escapes (.unknownCatalogue hgiven hunknown hready) fun h => h
  · rw [hok]
    refine (hwork _ hsettled).congr ?_ ?_ (fun output h => hshown output h hok)
      fun fault h => hstopped fault h hok
    · simp [FailsOn, hok]
    · simp
  · rw [herror]
    exact .fails (.inl ⟨e, herror⟩) fun h => by cases h.1

/-- Work for which there is no room leaves the run; any other ends as it does. -/
theorem ends_with_room {inError misfits : Prop} {shows : String → Prop} {overflows : Bool}
    {work : Doing} {s : Session}
    (h : Ends inError misfits shows (fun _ => False) (work.run s).outcome) :
    Ends inError misfits (fun output => overflows = false ∧ shows output)
      (fun fault => fault = .stackOverflow ∧ overflows = true)
      ((if overflows then .fail .stackOverflow else work : Doing).run s).outcome := by
  cases overflows with
  | true => exact .escapes ⟨rfl, rfl⟩ fun h => h
  | false => exact h.congr Iff.rfl Iff.rfl (fun _ hshown => ⟨rfl, hshown⟩) fun _ hnone => hnone.elim

/-- What the type resolves to with the arguments, as it is shown. -/
def ShowsResolved (name : String) (args : List String) (s : Session) (output : String) : Prop :=
  ∃ es resolved, List.Forall₂ (fun raw arg => TypeExpr.parse raw = .ok arg) args es ∧
    ((Session.resolve ⟨name, es⟩).run s).outcome = .ok resolved ∧
    output = asLines [resolvedText resolved]

/-- The verdict on a value, as it is shown. -/
def ShowsVerdict (value : ValueGraph) (name : String) (s : Session) (output : String) : Prop :=
  ∃ verdict, ((Session.validateNamed value name).run s).outcome = .ok verdict ∧
    output = asLines [(verdictTree verdict).render]

/-- Resolving a type with arguments that have to be read. -/
theorem ends_resolving (name : String) (args : List String) (s : Session) :
    Ends (Unresolvable name args s) False (ShowsResolved name args s) (fun _ => False)
      ((do
        let es ← .ofExcept ((parseArgs args).mapError Fault.schema)
        let resolved ← Session.resolve ⟨name, es⟩
        return (0, asLines [resolvedText resolved]) : Doing).run s).outcome := by
  rw [Action.outcome_bind, Action.run_ofExcept]
  cases hargs : parseArgs args with
  | error e => exact .fails (.inl (parseArgs_eq_error.1 ⟨e, hargs⟩)) id
  | ok es =>
    have hall := parseArgs_eq_ok.1 hargs
    have hread : ¬ ∃ raw ∈ args, ∃ e, TypeExpr.parse raw = .error e := by
      rw [← parseArgs_eq_error, hargs]
      rintro ⟨e, h⟩
      cases h
    show Ends _ _ _ _ ((Session.resolve ⟨name, es⟩ >>= _).run s).outcome
    rw [Action.outcome_bind]
    rcases Session.settles_resolve ⟨name, es⟩ s with ⟨r, hr⟩ | ⟨e, he⟩
    · rw [hr]
      refine .succeeds ?_ id ⟨es, r, hall, hr, rfl⟩
      rintro (hmisread | ⟨es', e, hall', herror⟩)
      · exact hread hmisread
      · -- the arguments are read in one way only
        rw [← parseArgs_eq_ok, hargs] at hall'
        cases hall'
        rw [hr] at herror
        cases herror
    · rw [he]
      exact .fails (.inr ⟨es, e, hall, he⟩) id

/-- Checking a value against a type. -/
theorem ends_checking {value : ValueGraph} (hshort : ¬ value.root.HoldsLong value.heap)
    (name : String) {s : Session} (hs : s.Settled) :
    Ends (Uncheckable value name s) (Misfits value name s) (ShowsVerdict value name s)
      (fun _ => False)
      ((do
        let verdict ← Session.validateNamed value name
        return (if verdict.valid then 0 else 1, asLines [(verdictTree verdict).render]) :
          Doing).run s).outcome := by
  rw [Action.outcome_bind]
  rcases hs.validateNamed hshort name with ⟨verdict, hverdict⟩ | ⟨e, he⟩
  · have hchecked : ¬ Uncheckable value name s := by
      rintro ⟨e, he⟩
      rw [hverdict] at he
      cases he
    have hmisfits : Misfits value name s ↔ verdict.failures ≠ [] := by
      simp [Misfits, hverdict]
    rw [← not_iff_not, not_not, ← Verdict.valid_iff] at hmisfits
    have hshows : ShowsVerdict value name s (asLines [(verdictTree verdict).render]) :=
      ⟨verdict, hverdict, rfl⟩
    rw [hverdict]
    show Ends _ _ _ _ (.ok (if verdict.valid then 0 else 1, _))
    cases hvalid : verdict.valid with
    | true => exact .succeeds hchecked (hmisfits.2 hvalid) hshows
    | false =>
      refine .finds hchecked (not_not.1 fun h => ?_) hshows
      rw [hmisfits.1 h] at hvalid
      cases hvalid
  · have hnone : ¬ Misfits value name s := by
      rintro ⟨verdict, hverdict, -⟩
      rw [he] at hverdict
      cases hverdict
    rw [he]
    exact .fails ⟨e, he⟩ hnone

/-- A document that is named and can be read is checked once the catalogue is loaded. -/
theorem perform_validate {given : Option String} {name path : String} {value : ValueGraph}
    (hpath : '\x00' ∉ path.toList) (hvalue : Holds machine.nesting document value) :
    perform machine env document (.validate given name (some path)) =
      doValidate env (machine.overflows env document (.validate given name (some path))) given name
        value := by
  rw [← isPossiblePath_iff] at hpath
  rw [← readDocument_eq_ok] at hvalue
  simp only [perform, hpath, hvalue, Bool.not_true, Bool.false_eq_true, if_false]

/-- What stops a command is what its run fails with. -/
theorem error_of_escapes {command : Command} {fault : Fault}
    (h : command.Escapes machine env document fault) :
    ((perform machine env document command).run (Session.blank env none)).outcome =
      .error fault := by
  cases h with
  | noDocument => rfl
  | @impossiblePath given name path hpath =>
    have himpossible : isPossiblePath path = false := by
      rw [← Bool.not_eq_true, isPossiblePath_iff, not_not]
      exact hpath
    simp only [perform, himpossible, Bool.not_false, if_true, Action.run_fail]
  | undecodable hpath hdocument =>
    rw [← isPossiblePath_iff] at hpath
    have hread : readDocument machine.nesting document = .error .undecodable :=
      readDocument_eq_undecodable.2 hdocument
    simp only [perform, hpath, hread, Bool.not_true, Bool.false_eq_true, if_false,
      Action.run_fail]
  | tooManyDigits hpath hdocument =>
    rw [← isPossiblePath_iff] at hpath
    rw [← readDocument_eq_tooManyDigits] at hdocument
    simp only [perform, hpath, hdocument, Bool.not_true, Bool.false_eq_true, if_false,
      Action.run_fail]
  | tooDeep hpath hdocument =>
    rw [← isPossiblePath_iff] at hpath
    rw [← readDocument_eq_tooDeep] at hdocument
    simp only [perform, hpath, hdocument, Bool.not_true, Bool.false_eq_true, if_false,
      Action.run_fail]
  | unknownCatalogue hgiven hunknown hready =>
    -- each command that loads a catalogue comes to it and stops there
    have hstops (work : Doing) :
        ((loadCatalogue env none >>= fun _ => work).run (Session.blank env none)).outcome =
          .error (.unknownCatalogue env.defaultCatalogue Catalogue.names) := by
      have hload : ((loadCatalogue env none).run (Session.blank env none)).outcome = _ :=
        engine_unknown hunknown
      rw [Action.outcome_bind, hload]
    cases command with
    | catalogues => exact hready.elim
    | types given =>
      cases hgiven
      exact hstops _
    | resolve given name args =>
      cases hgiven
      exact hstops _
    | validate given name path =>
      cases hgiven
      obtain ⟨⟨path, rfl, hpath⟩, value, hvalue⟩ := hready
      rw [perform_validate hpath hvalue]
      exact hstops _
  | @stackOverflow _ given hgiven hgoes hready hok hoverflows =>
    -- each command that goes on is stopped where it would
    have hstops (work : Doing) :
        ((loadCatalogue env given >>= fun _ =>
          if true then .fail .stackOverflow else work).run (Session.blank env none)).outcome =
          .error .stackOverflow := by
      have hload : ((loadCatalogue env given).run (Session.blank env none)).outcome = _ := hok
      rw [Action.outcome_bind, hload]
      rfl
    cases command with
    | catalogues | types _ => exact hgoes.elim
    | resolve given name args =>
      cases hgiven
      rw [perform, hoverflows]
      exact hstops _
    | validate given name path =>
      cases hgiven
      obtain ⟨⟨path, rfl, hpath⟩, value, hvalue⟩ := hready
      rw [perform_validate hpath hvalue, hoverflows]
      exact hstops _

/-- **What a command has to show is what it ends with.** -/
theorem outcome_of_shows {command : Command} {output : String}
    (h : command.Shows machine env document output) :
    ∃ code, ((perform machine env document command).run (Session.blank env none)).outcome =
      .ok (code, output) := by
  -- what comes behind the loading of the catalogue runs in the session that it gives
  have hbehind {given : Option String} (hok : (engine env given).outcome = .ok ()) (work : Doing) :
      ((loadCatalogue env given >>= fun _ => work).run (Session.blank env none)).outcome =
        (work.run (engine env given).state).outcome := by
    have hload : ((loadCatalogue env given).run (Session.blank env none)).outcome = .ok () := hok
    rw [Action.outcome_bind, hload]
    rfl
  cases h with
  | catalogues => exact ⟨0, rfl⟩
  | types hok => exact ⟨0, hbehind hok _⟩
  | @resolve given name args es resolved hok hroom hes hresolved =>
    refine ⟨0, (hbehind hok _).trans ?_⟩
    rw [hroom]
    show ((Action.ofExcept ((parseArgs args).mapError Fault.schema) >>= _).run _).outcome = _
    rw [Action.outcome_bind, Action.run_ofExcept, parseArgs_eq_ok.2 hes]
    show ((Session.resolve ⟨name, es⟩ >>= _).run _).outcome = _
    rw [Action.outcome_bind, hresolved]
    rfl
  | @validate given name path value verdict hpath hvalue hok hroom hverdict =>
    refine ⟨if verdict.valid then 0 else 1, ?_⟩
    rw [perform_validate hpath hvalue, hroom]
    refine (hbehind hok _).trans ?_
    show ((Session.validateNamed value name >>= _).run _).outcome = _
    rw [Action.outcome_bind, hverdict]
    rfl

/-- A document without a value stops the command, or it is refused if it could not be read. -/
theorem ends_unread {given : Option String} {name path : String} {fault : DocumentFault}
    (hpath : '\x00' ∉ path.toList)
    (hread : readDocument machine.nesting document = .error fault) :
    let command := Command.validate given name (some path)
    Ends (command.InError machine env document) (command.FindsFailures machine env document)
      (command.Shows machine env document) (command.Escapes machine env document)
      ((perform machine env document command).run (Session.blank env none)).outcome := by
  intro command
  have hnone : ¬ ∃ value, Holds machine.nesting document value := by
    rintro ⟨value, hvalue⟩
    rw [← readDocument_eq_ok, hread] at hvalue
    cases hvalue
  simp only [command, perform, isPossiblePath_iff.2 hpath, hread, Bool.not_true,
    Bool.false_eq_true, if_false]
  cases fault with
  | undecodable =>
    exact .escapes (.undecodable hpath (readDocument_eq_undecodable.1 hread)) fun h => h
  | tooManyDigits =>
    exact .escapes (.tooManyDigits hpath (readDocument_eq_tooManyDigits.1 hread)) fun h => h
  | tooDeep => exact .escapes (.tooDeep hpath (readDocument_eq_tooDeep.1 hread)) fun h => h
  | unreadable =>
    refine .refuses (.inl (readDocument_eq_unreadable.1 hread)) ?_
    rintro ⟨value, hvalue, -⟩
    exact hnone ⟨value, hvalue⟩

/-- A document with a value is checked once the catalogue is loaded, and how that ends says how
the command does: the document holds this value only, and it was not unreadable. -/
theorem ends_read {given : Option String} {name path : String} {value : ValueGraph}
    (hnames : ∀ name, given = some name → name ∈ Catalogue.names) (hpath : '\x00' ∉ path.toList)
    (hvalue : Holds machine.nesting document value) :
    let command := Command.validate given name (some path)
    Ends (command.InError machine env document) (command.FindsFailures machine env document)
      (command.Shows machine env document) (command.Escapes machine env document)
      ((perform machine env document command).run (Session.blank env none)).outcome := by
  intro command
  have hread := readDocument_eq_ok.2 hvalue
  have hreadable : ¬ Unreadable machine.nesting document := by
    rw [← readDocument_eq_unreadable, hread]
    exact fun h => by cases h
  have honly (value' : ValueGraph) : Holds machine.nesting document value' ↔ value' = value := by
    rw [← readDocument_eq_ok, hread]
    exact ⟨fun h => (Except.ok.inj h).symm, fun h => congrArg Except.ok h.symm⟩
  have hready : command.Ready machine document := ⟨⟨path, rfl, hpath⟩, value, hvalue⟩
  have hends := @ends_loaded machine env document given command _ _ _ _ _
    (fun name h => hnames name (Option.some.inj h)) rfl hready
    (fun output h hok => by
      obtain ⟨hroom, verdict, hverdict, rfl⟩ := h
      exact .validate hpath hvalue hok hroom hverdict)
    (fun fault h hok => by
      obtain ⟨rfl, hoverflows⟩ := h
      exact .stackOverflow rfl trivial hready hok hoverflows)
    fun s hs => ends_with_room (ends_checking hvalue.not_holdsLong name hs)
  rw [perform_validate hpath hvalue]
  refine hends.congr ?_ ?_ (fun _ h => h) fun _ h => h
  · simp [command, InError, hreadable, honly]
  · simp [command, FindsFailures, honly]

/-- **Every command ends in one of the five ways**, with what it is asked for. -/
theorem perform_ends {command : Command}
    (hnames : ∀ name, command.catalogue? = some (some name) → name ∈ Catalogue.names) :
    Ends (command.InError machine env document) (command.FindsFailures machine env document)
      (command.Shows machine env document) (command.Escapes machine env document)
      ((perform machine env document command).run (Session.blank env none)).outcome := by
  cases command with
  | catalogues => exact .succeeds (fun h => h) (fun h => h) .catalogues
  | types given =>
    have hends := @ends_loaded machine env document given _ (fun _ => False) (fun _ => False)
      (fun s output => output = asLines s.registry.names) (fun _ => False)
      (do let s ← .get; return (0, asLines s.registry.names)) hnames rfl trivial
      (fun output h hok => by
        rw [h]
        exact .types hok)
      (fun _ h => h.elim) fun s hs => .succeeds id id rfl
    exact hends.congr Iff.rfl (by simp [FindsFailures]) (fun _ h => h) fun _ h => h
  | resolve given name args =>
    have hends := @ends_loaded machine env document given _ _ _ _ _ _ hnames rfl trivial
      (fun output h hok => by
        obtain ⟨hroom, es, resolved, hes, hresolved, rfl⟩ := h
        exact .resolve hok hroom hes hresolved)
      (fun fault h hok => by
        obtain ⟨rfl, hoverflows⟩ := h
        exact .stackOverflow rfl trivial trivial hok hoverflows)
      fun s _ => ends_with_room (ends_resolving name args s)
    exact hends.congr Iff.rfl (by simp [FindsFailures]) (fun _ h => h) fun _ h => h
  | validate given name path =>
    cases path with
    | none => exact .escapes .noDocument fun h => h
    | some path =>
      by_cases hpath : '\x00' ∈ path.toList
      · have hescapes : (Command.validate given name (some path)).Escapes machine env document _ :=
          .impossiblePath hpath
        rw [error_of_escapes hescapes]
        exact .escapes hescapes fun h => h
      · cases hread : readDocument machine.nesting document with
        | error fault => exact ends_unread hpath hread
        | ok value =>
          have hgiven : ∀ name, given = some name → name ∈ Catalogue.names :=
            fun name h => hnames name (congrArg some h)
          exact ends_read hgiven hpath (readDocument_eq_ok.1 hread)

/-! ## Errors that are reported -/

section Reported

variable {x : Doing} {s : Session}

/-- What ended with a code keeps it. -/
theorem reportErrors_ok {r : Nat × String} (h : (x.run s).outcome = .ok r) :
    ((reportErrors x).run s).outcome = .ok r := by
  have hx : (x s).outcome = .ok r := h
  simp [reportErrors, Action.run, hx]

/-- An error in a type or a value is reported, and the exit code is 2. -/
theorem reportErrors_schema {e : SchemaError} (h : (x.run s).outcome = .error (.schema e)) :
    ((reportErrors x).run s).outcome = .ok (2, "") := by
  have hx : (x s).outcome = .error (.schema e) := h
  simp only [reportErrors, Action.run, hx]
  rfl

/-- Any other fault leaves the run. -/
theorem reportErrors_error {fault : Fault} (h : (x.run s).outcome = .error fault)
    (hfault : ¬ fault.IsSchemaError) : ((reportErrors x).run s).outcome = .error fault := by
  have hx : (x s).outcome = .error fault := h
  cases fault with
  | schema e => exact absurd trivial hfault
  | _ => simp [reportErrors, Action.run, hx]

/-- The exit code says which of the ways it was, unless the command left the run. -/
theorem Ends.reported {inError misfits : Prop} {shows : String → Prop} {escapes : Fault → Prop}
    (h : Ends inError misfits shows escapes (x.run s).outcome) :
    (∃ code output, ((reportErrors x).run s).outcome = .ok (code, output) ∧
        (output = "" ∨ shows output) ∧
        code ≤ 2 ∧ (code = 1 ↔ misfits) ∧ (code = 2 ↔ inError)) ∨
      ∃ fault, ((reportErrors x).run s).outcome = .error fault ∧ escapes fault := by
  generalize houtcome : (x.run s).outcome = outcome at h
  cases h with
  | succeeds hin hmis hshown =>
    exact .inl ⟨0, _, reportErrors_ok houtcome, .inr hshown, by simp [hin, hmis]⟩
  | finds hin hmis hshown =>
    exact .inl ⟨1, _, reportErrors_ok houtcome, .inr hshown, by simp [hin, hmis]⟩
  | refuses hin hmis =>
    exact .inl ⟨2, _, reportErrors_ok houtcome, .inl rfl, by simp [hin, hmis]⟩
  | fails hin hmis =>
    exact .inl ⟨2, _, reportErrors_schema houtcome, .inl rfl, by simp [hin, hmis]⟩
  | escapes hescapes hnot => exact .inr ⟨_, reportErrors_error houtcome hnot, hescapes⟩

end Reported

end Command

/-! ## Exit codes -/

namespace CommandLine

open Command

/-- The log level that a line asks for: its own, unless it is empty, or that of the
environment. -/
def level (env : Environment) (line : CommandLine) : String :=
  match line.logLevel with
  | some level => if level.isEmpty then env.logLevel else level
  | none => env.logLevel

/-- **What stops a run without an exit code**: the log level is unknown, or else the command
is stopped, or else the standard output lacks a character of what it has to show. -/
inductive Escapes (machine : Machine) (env : Environment) (document : Option (List UInt8))
    (line : CommandLine) : Fault → Prop
  | unknownLogLevel : Level.threshold? (line.level env) = none →
      Escapes machine env document line (.unknownLogLevel (line.level env))
  | command {fault : Fault} : Level.threshold? (line.level env) ≠ none →
      line.command.Escapes machine env document fault → Escapes machine env document line fault
  | unprintable {output : String} {c : Char} : Level.threshold? (line.level env) ≠ none →
      line.command.Shows machine env document output → c ∈ output.toList →
      machine.prints c = false → Escapes machine env document line .unprintable

/-- Under a level that is unknown, nothing is done. -/
theorem run_of_unknown {line : CommandLine} {env : Environment} (machine : Machine)
    (document : Option (List UInt8)) (h : Level.threshold? (line.level env) = none) :
    line.run machine env document = .error (.unknownLogLevel (line.level env)) := by
  have hthreshold : line.threshold env = .error (.unknownLogLevel (line.level env)) := by
    cases hasked : line.logLevel <;> simp only [threshold, level, hasked] at h ⊢ <;> rw [h]
  rw [run, hthreshold]
  rfl

/-- The command of a line in a new session, with its errors reported. -/
def reported (line : CommandLine) (machine : Machine) (env : Environment)
    (document : Option (List UInt8)) : Step Fault Session (Nat × String) :=
  (reportErrors (perform machine env document line.command)).run (Session.blank env none)

/-- Under a level that is known, a run ends as its command does, once its answer is written. -/
theorem run_of_known {line : CommandLine} {env : Environment} {n : Nat} (machine : Machine)
    (document : Option (List UInt8)) (h : Level.threshold? (line.level env) = some n) :
    line.run machine env document = (line.reported machine env document).outcome.bind fun r =>
      if r.2.toList.all machine.prints then
        .ok ⟨r.1, r.2, visible n (line.reported machine env document).journal⟩
      else .error .unprintable := by
  have hthreshold : line.threshold env = .ok n := by
    cases hasked : line.logLevel <;> simp only [threshold, level, hasked] at h ⊢ <;> rw [h]
  rw [run, hthreshold]
  rfl

/-- Under a level that is known, the run is stopped where the command is, or where what it has to
show cannot be written. -/
theorem escapes_iff_of_known {line : CommandLine} {machine : Machine} {env : Environment}
    {document : Option (List UInt8)} {fault : Fault} {n : Nat}
    (h : Level.threshold? (line.level env) = some n) :
    line.Escapes machine env document fault ↔
      line.command.Escapes machine env document fault ∨
        fault = .unprintable ∧ ∃ output, line.command.Shows machine env document output ∧
          output.toList.all machine.prints = false := by
  have hknown : Level.threshold? (line.level env) ≠ none := by
    rw [h]
    exact Option.some_ne_none n
  simp only [List.all_eq_false, Bool.not_eq_true]
  constructor
  · intro hline
    cases hline with
    | unknownLogLevel hnone => exact absurd hnone hknown
    | command _ hcommand => exact .inl hcommand
    | unprintable _ hshown hc hlacks => exact .inr ⟨rfl, _, hshown, _, hc, hlacks⟩
  · rintro (hcommand | ⟨rfl, output, hshown, c, hc, hlacks⟩)
    · exact .command hknown hcommand
    · exact .unprintable hknown hshown hc hlacks

/-- **A run ends in one of two ways**: with a code that says what was found, or with the one
fault that stops it. -/
inductive Finishes (line : CommandLine) (machine : Machine) (env : Environment)
    (document : Option (List UInt8)) : Except Fault Report → Prop
  | reports {report : Report} : (∀ fault, ¬ line.Escapes machine env document fault) →
      report.exitCode ≤ 2 →
      (report.exitCode = 1 ↔ line.command.FindsFailures machine env document) →
      (report.exitCode = 2 ↔ line.command.InError machine env document) →
      Finishes line machine env document (.ok report)
  | stops {fault : Fault} : line.Escapes machine env document fault →
      (∀ fault', line.Escapes machine env document fault' → fault' = fault) →
      Finishes line machine env document (.error fault)

section Known

variable {line : CommandLine} {machine : Machine} {env : Environment}
  {document : Option (List UInt8)} {n : Nat}

/-- What stops the command of a line is what the line is reported to end with. -/
theorem reported_of_escapes {fault : Fault}
    (h : line.command.Escapes machine env document fault) :
    (line.reported machine env document).outcome = .error fault :=
  reportErrors_error (error_of_escapes h) h.not_schemaError

/-- So is what the command has to show. -/
theorem reported_of_shows {output : String}
    (h : line.command.Shows machine env document output) :
    ∃ code, (line.reported machine env document).outcome = .ok (code, output) := by
  obtain ⟨code, hcode⟩ := outcome_of_shows h
  exact ⟨code, reportErrors_ok hcode⟩

/-- A run whose command is stopped finishes with that. -/
theorem finishes_of_stopped {fault : Fault} (hlevel : Level.threshold? (line.level env) = some n)
    (hstopped : line.command.Escapes machine env document fault) :
    line.Finishes machine env document (line.run machine env document) := by
  have herror := reported_of_escapes hstopped
  rw [run_of_known machine document hlevel, herror]
  refine .stops ((escapes_iff_of_known hlevel).2 (.inl hstopped)) fun fault' h => ?_
  rcases (escapes_iff_of_known hlevel).1 h with h | ⟨-, output, hshows, -⟩
  · have herror' := reported_of_escapes h
    rw [herror] at herror'
    cases herror'
    rfl
  · -- a command that is stopped has nothing to show
    obtain ⟨code, hcode⟩ := reported_of_shows hshows
    rw [herror] at hcode
    cases hcode

/-- A run whose command gives a code finishes with it, if there is nothing to show or the answer
can be written. -/
theorem finishes_of_code {code : Nat} {output : String}
    (hlevel : Level.threshold? (line.level env) = some n)
    (hok : (line.reported machine env document).outcome = .ok (code, output))
    (hshown : output = "" ∨ line.command.Shows machine env document output) (hcode : code ≤ 2)
    (hfinds : code = 1 ↔ line.command.FindsFailures machine env document)
    (hrefuses : code = 2 ↔ line.command.InError machine env document) :
    line.Finishes machine env document (line.run machine env document) := by
  have hgoes (fault : Fault) : ¬ line.command.Escapes machine env document fault := by
    intro h
    have herror := reported_of_escapes h
    rw [hok] at herror
    cases herror
  rw [run_of_known machine document hlevel, hok]
  simp only [Except.bind]
  cases hprints : output.toList.all machine.prints with
  | true =>
    rw [if_pos rfl]
    refine .reports (fun fault h => ?_) hcode hfinds hrefuses
    rcases (escapes_iff_of_known hlevel).1 h with h | ⟨-, output', hshows, hlacks⟩
    · exact hgoes fault h
    · -- the command has one answer only, and that can be written
      obtain ⟨code', hok'⟩ := reported_of_shows hshows
      rw [hok] at hok'
      cases hok'
      rw [hprints] at hlacks
      cases hlacks
  | false =>
    rw [if_neg Bool.false_ne_true]
    have hanswer : line.command.Shows machine env document output := by
      rcases hshown with rfl | hshown
      · cases hprints
      · exact hshown
    refine .stops ((escapes_iff_of_known hlevel).2 (.inr ⟨rfl, output, hanswer, hprints⟩)) ?_
    intro fault' h
    rcases (escapes_iff_of_known hlevel).1 h with h | ⟨rfl, -⟩
    · exact absurd h (hgoes fault')
    · rfl

end Known

/-- Every run of a line that is read finishes so. -/
theorem run_finishes {words : List String} {line : CommandLine} (machine : Machine)
    (env : Environment) (document : Option (List UInt8)) (hline : parse words = .run line) :
    line.Finishes machine env document (line.run machine env document) := by
  -- a level that is not known stops the run before the command is looked at
  cases hlevel : Level.threshold? (line.level env) with
  | none =>
    rw [run_of_unknown machine document hlevel]
    refine .stops (.unknownLogLevel hlevel) fun fault' h => ?_
    cases h with
    | unknownLogLevel => rfl
    | command hknown | unprintable hknown => exact absurd hlevel hknown
  | some n =>
    have hends := @perform_ends machine env document line.command
      fun name => catalogue_of_parse hline
    rcases hends.reported with
      ⟨code, output, hok, hshown, hcode, hfinds, hrefuses⟩ | ⟨fault, -, hstopped⟩
    · exact finishes_of_code hlevel hok hshown hcode hfinds hrefuses
    · exact finishes_of_stopped hlevel hstopped

/-- **Exit codes.** Whatever the line that is read, the settings of the environment, the document
and the machine are, the run stops without an exit code exactly for what `Escapes` lists. In all
other cases it ends with 0, 1 or 2: with 1 exactly if a JSON document is checked and its value has
failures, and with 2 exactly if the document, an argument or a type is in error. -/
theorem exit_codes (words : List String) (line : CommandLine) (machine : Machine)
    (env : Environment) (document : Option (List UInt8)) (hline : parse words = .run line) :
    (∀ fault, line.run machine env document = .error fault ↔
        line.Escapes machine env document fault) ∧
      ∀ report, line.run machine env document = .ok report → report.exitCode ≤ 2 ∧
        (report.exitCode = 1 ↔ line.command.FindsFailures machine env document) ∧
        (report.exitCode = 2 ↔ line.command.InError machine env document) := by
  have hfinishes := run_finishes machine env document hline
  generalize line.run machine env document = outcome at hfinishes ⊢
  cases hfinishes with
  | reports hnone hcode hfinds hrefuses =>
    refine ⟨fun fault => ⟨fun h => ?_, fun h => absurd h (hnone fault)⟩, fun report h => ?_⟩
    · cases h
    · cases h
      exact ⟨hcode, hfinds, hrefuses⟩
  | stops hstopped honly =>
    refine ⟨fun fault => ⟨fun h => ?_, fun h => ?_⟩, fun report h => ?_⟩
    · cases h
      exact hstopped
    · rw [honly fault h]
    · cases h

/-- A check of a document. -/
def checkText : CommandLine := ⟨none, .validate none "Text" (some "d")⟩

/-- A document of one byte, which encodes no text, leaves the run without an exit code, although a
document that cannot be read does not. -/
theorem byte_leaves_run :
    parse ["validate", "Text", "d"] = .run checkText ∧
      (∃ report, checkText.run .roomy .empty none = .ok report ∧ report.exitCode = 2) ∧
      checkText.run .roomy .empty (some [0xFF]) = .error .undecodable ∧
      ¬ ∃ report, checkText.run .roomy .empty (some [0xFF]) = .ok report := by
  have hstops : checkText.run .roomy .empty (some [0xFF]) = .error .undecodable := rfl
  refine ⟨by decide, ⟨_, rfl, rfl⟩, hstops, ?_⟩
  rintro ⟨report, h⟩
  rw [hstops] at h
  cases h

/-- Types of a catalogue that only the environment names, and that is none. -/
def otherCatalogue : Environment := .ofList [("UITYPES_CATALOGUE", "oma")]

/-- They are not listed, and no exit code says so. A document that cannot be read is noticed
before the catalogue. -/
theorem other_catalogue_stops :
    CommandLine.run .roomy otherCatalogue ⟨none, .types none⟩ none =
        .error (.unknownCatalogue "oma" ["std", "pub"]) ∧
      ∀ report, checkText.run .roomy otherCatalogue none = .ok report → report.exitCode = 2 := by
  have hlevel : ∀ line : CommandLine, line.logLevel = none →
      Level.threshold? (line.level otherCatalogue) ≠ none := by
    rintro ⟨_, command⟩ rfl
    show Level.threshold? otherCatalogue.logLevel ≠ none
    decide
  have htypes := exit_codes ["types"] ⟨none, .types none⟩ .roomy otherCatalogue none (by decide)
  have hcheck := exit_codes ["validate", "Text", "d"] checkText .roomy otherCatalogue none
    (by decide)
  have hunknown : otherCatalogue.defaultCatalogue ∉ Catalogue.names := by decide
  refine ⟨?_, fun report h => ((hcheck.2 report h).2.2).2 (.inl (.inl rfl))⟩
  exact (htypes.1 _).2 (.command (hlevel _ rfl) (.unknownCatalogue rfl hunknown trivial))

end CommandLine

end WidgetSchema
