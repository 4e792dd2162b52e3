/-
Sessions that know which of their answers are one value.

A session with a ledger does each operation of the plain session and follows it in the ledger
afterwards. Two things have to be true of it. Following is only looking: the plain session, the
records and the answers are those that there would be without a ledger, operation by operation
(`Shows`) and so over every run of calls (`session_after`). And the ledger is to be relied on: a
name with the same completed arguments is one value as long as nothing is forgotten
(`one_value_until_forgotten`).

For the second one an alias has its entry from its first resolution on, and no call but the one that
forgets takes an entry out (`within_after`). The schema of a composition needs no entry: its
identity is its instantiation, which is the completed one in every sound memo.
-/
import WidgetSchema.Proofs.Histories
import WidgetSchema.Proofs.LedgerGrowth

set_option autoImplicit false

namespace WidgetSchema

namespace Following

variable {g : Guide}

/-! ## Identities -/

section Identities

variable {name : String} {args : List SharedExpr} {d : Definition} {bindings : Bindings}
  {key : Instantiation}

/-- Where the arguments fit, binding them gives the definition and the completed name; the
expression of an alias is always at hand. -/
theorem answer_bindArgs
    (hd : g.composer.complete ⟨name, args.map SharedExpr.expression⟩ = .ok (d, bindings, key))
    (l : Ledger) : ∃ b, (bindArgs g name args).answer l = some b ∧ b.definition = d ∧
      b.key = key ∧ (d.plainExpression?.isSome = true → b.body.isSome = true) ∧
      ((bindArgs g name args).left l).expressions = l.expressions := by
  unfold bindArgs
  rw [hd]
  cases d with
  | ofAlias d => exact ⟨_, rfl, rfl, rfl, fun _ => rfl, rfl⟩
  | ofStruct d =>
    refine ⟨_, rfl, rfl, rfl, ?_, rfl⟩
    intro hplain
    cases hplain

/-- The entry behind an alias is the value that it gave. -/
theorem lookup_left_first (key : Instantiation) (body : SharedExpr) (l : Ledger) :
    ((first key body).left l).expressions.lookup key =
      some ((l.expressions.lookup key).getD body.origins) := by
  rw [left_first]
  cases hknown : l.expressions.lookup key with
  | some origins => exact hknown
  | none =>
    show List.lookup key ((key, body.origins) :: l.expressions) = _
    rw [List.lookup_cons, beq_self_eq_true]
    rfl

/-- **An alias is the value in its entry**: the one that stood there before, or else the one that
stands there from now on. -/
theorem resolve_alias {e : TypeExpr}
    (hd : g.composer.complete ⟨name, args.map SharedExpr.expression⟩ = .ok (d, bindings, key))
    (hplain : d.plainExpression? = some e) (l : Ledger) :
    ∃ origins, ((resolve g name args).answer l).map SharedAnswer.identity =
        some (.expression origins.here) ∧
      ((resolve g name args).left l).expressions.lookup key = some origins := by
  obtain ⟨b, hb, hdefinition, hkey, hbody, -⟩ := answer_bindArgs hd l
  obtain ⟨body, hbody⟩ := Option.isSome_iff_exists.1 (hbody (by rw [hplain]; rfl))
  refine ⟨(((bindArgs g name args).left l).expressions.lookup key).getD body.origins, ?_, ?_⟩
  · unfold resolve
    rw [answer_bind, hb, Option.bind_some, hdefinition, hplain, hbody, hkey]
    dsimp only
    rw [answer_first]
    rfl
  · unfold resolve
    rw [left_bind, hb, Option.elim_some, hdefinition, hplain, hbody, hkey]
    exact lookup_left_first key body _

/-- The schema of a composition is the remembered one, if there is an answer. -/
theorem resolve_composition {answer : SharedAnswer}
    (hd : g.composer.complete ⟨name, args.map SharedExpr.expression⟩ = .ok (d, bindings, key))
    (hplain : d.plainExpression? = none) {l : Ledger}
    (hanswer : (resolve g name args).answer l = some answer) :
    ∃ s, answer = .schema s ∧ g.memo.schemas.lookup key = some s := by
  obtain ⟨b, hb, hdefinition, -⟩ := answer_bindArgs hd l
  unfold resolve at hanswer
  rw [answer_bind, hb, Option.bind_some, hdefinition, hplain] at hanswer
  dsimp only at hanswer
  -- the arguments are bound once more behind the composition, to the same name
  unfold resolveStruct at hanswer
  rw [answer_bind] at hanswer
  obtain ⟨-, -, hanswer⟩ := Option.bind_eq_some_iff.1 hanswer
  rw [answer_bind] at hanswer
  obtain ⟨b', hb', hanswer⟩ := Option.bind_eq_some_iff.1 hanswer
  obtain ⟨b'', hb'', -, hkey, -⟩ := answer_bindArgs hd _
  rw [hb''] at hb'
  cases hb'
  rw [hkey] at hanswer
  cases hschema : g.memo.schemas.lookup key with
  | none =>
    rw [hschema] at hanswer
    cases hanswer
  | some s =>
    rw [hschema] at hanswer
    cases hanswer
    exact ⟨s, rfl, rfl⟩

end Identities

/-- Arguments that are given are held as they are, and the ledger learns nothing of expressions
from them. -/
theorem answer_holdAll (args : List SourcedExpr) (l : Ledger) :
    ∃ held, (SharingSession.holdAll args).answer l = some held ∧
      held.map SharedExpr.expression = args.map SourcedExpr.expression := by
  unfold SharingSession.holdAll
  induction args generalizing l with
  | nil => exact ⟨[], rfl, rfl⟩
  | cons e rest ih =>
    obtain ⟨held, hheld, hsame⟩ := ih ((hold e).left l)
    refine ⟨.made l.occasions [] e.readings e.expression :: held, ?_, ?_⟩
    · rw [List.mapM_cons, answer_bind]
      show ((some _).bind fun a => _) = _
      rw [Option.bind_some, answer_bind, hheld]
      rfl
    · rw [List.map_cons, List.map_cons, hsame]
      rfl

theorem grows_holdAll (args : List SourcedExpr) : Grows (SharingSession.holdAll args) :=
  grows_mapM args grows_hold

end Following

namespace SharingSession

/-! ## Following is only looking -/

variable {α β γ : Type}

/-- An operation with a ledger ends as the plain one, with the same records and in the same
plain session. -/
structure Shows (y : Action Fault SharingSession α) (x : Action Fault Session α)
    (s : SharingSession) : Prop where
  session : (y.run s).state.session = (x.run s.session).state
  journal : (y.run s).journal = (x.run s.session).journal
  outcome : (y.run s).outcome = (x.run s.session).outcome

variable {x : Action Fault Session α} {y : Action Fault SharingSession α} {s : SharingSession}

/-- **Following an operation keeps its outcome**, whatever is followed and whether it comes
to an end. -/
theorem shows_followed (x : Action Fault Session α) (follow : Guide → Following β)
    (s : SharingSession) : Shows (Prod.fst <$> followed x follow) x s := by
  refine ⟨?_, Action.journal_map _, ?_⟩
  · rw [Action.state_map]
    rfl
  · rw [Action.outcome_map]
    show ((x.run s.session).outcome.map _).map Prod.fst = (x.run s.session).outcome
    cases (x.run s.session).outcome <;> rfl

/-- What following came to is returned beside the outcome. -/
theorem outcome_followed (x : Action Fault Session α) (follow : Guide → Following β)
    (s : SharingSession) :
    ((followed x follow).run s).outcome = (x.run s.session).outcome.map fun a =>
      (a, (follow { composer := (x.run s.session).state.composer,
                    memo := (x.run s.session).state.memo }).answer s.ledger) := rfl

/-- The ledger behind an operation is the one that following it left. -/
theorem ledger_followed (x : Action Fault Session α) (follow : Guide → Following β)
    (s : SharingSession) :
    ((followed x follow).run s).state.ledger =
      (follow { composer := (x.run s.session).state.composer,
                memo := (x.run s.session).state.memo }).left s.ledger := rfl

/-- What is made of an answer is made of the plain answer alike. -/
theorem Shows.map (f : α → γ) (h : Shows y x s) : Shows (f <$> y) (f <$> x) s where
  session := by rw [Action.state_map, Action.state_map, h.session]
  journal := by rw [Action.journal_map, Action.journal_map, h.journal]
  outcome := by rw [Action.outcome_map, Action.outcome_map, h.outcome]

/-- The session of a catalogue is built as without a ledger. -/
theorem shows_load (name : String) (allowDangling : Bool) (s : SharingSession) :
    Shows (load name allowDangling) (Session.load name allowDangling) s :=
  shows_followed _ _ s

/-- A call on a session with a ledger. -/
inductive Call where
  | register (name : String) (entry : Entry)
  | registerAll (table : List (Atom × Entry))
  | build (table : List (Atom × Entry)) (allowDangling : Bool)
  | freeze
  | resolve (name : String) (args : List SourcedExpr)
  | resolveStruct (name : String) (args : List SourcedExpr)
  | resolveExpression (e : SourcedExpr)
  | requiredFields (s : ResolvedSchema)
  | admitsAbsence (e : SourcedExpr)
  | validate (value : ValueGraph) (target : SharingTarget)
  | validateNamed (value : ValueGraph) (name : String)
  | clearMemo

namespace Call

/-- What a call does to a session with a ledger. -/
def perform : Call → Action Fault SharingSession Unit
  | register name entry => (fun _ => ()) <$> SharingSession.register name entry
  | registerAll table =>
    (fun _ => ()) <$> SharingSession.registerTable (flattenTable "" table)
  | build table allowDangling =>
    (fun _ => ()) <$> SharingSession.buildFrom (flattenTable "" table) allowDangling
  | freeze => plainly Session.freeze
  | resolve name args => (fun _ => ()) <$> Prod.fst <$> SharingSession.resolve name args
  | resolveStruct name args => (fun _ => ()) <$> SharingSession.resolveStruct name args
  | resolveExpression e => (fun _ => ()) <$> SharingSession.resolveExpression e
  | requiredFields s => (fun _ => ()) <$> SharingSession.requiredFields s
  | admitsAbsence e => (fun _ => ()) <$> SharingSession.admitsAbsence e
  | validate value target => (fun _ => ()) <$> SharingSession.validate value target
  | validateNamed value name => (fun _ => ()) <$> SharingSession.validateNamed value name
  | clearMemo => forget

/-- The call on a session that has no ledger. -/
def plain : Call → Session.Call
  | register name entry => .register name entry
  | registerAll table => .registerAll table
  | build table allowDangling => .build table allowDangling
  | freeze => .freeze
  | resolve name args => .resolve (request name args)
  | resolveStruct name args => .resolveStruct (request name args)
  | resolveExpression e => .resolveExpression e.expression
  | requiredFields s => .requiredFields s
  | admitsAbsence e => .admitsAbsence e.expression
  | validate value target => .validate value target.plain
  | validateNamed value name => .validateNamed value name
  | clearMemo => .clearMemo

end Call

/-- The session with its ledger after calls, each of which may have failed. -/
def after (s : SharingSession) : List Call → SharingSession
  | [] => s
  | call :: rest => after (call.perform.run s).state rest

/-- A new session with a ledger, with or without the prelude. -/
def opened (env : Environment) (maxDepth : Option Int) (prelude : Bool) : SharingSession :=
  if prelude then (addPrelude.run (blank env maxDepth)).state else blank env maxDepth

/-- **One call.** A ledger changes neither what it does to the session nor how it ends. -/
theorem shows_perform (call : Call) (s : SharingSession) :
    Shows call.perform call.plain.perform s := by
  cases call with
  | freeze | clearMemo => exact shows_followed _ _ s
  | register | registerAll | build | resolve | resolveStruct | resolveExpression
  | requiredFields | admitsAbsence | validate | validateNamed =>
    exact (shows_followed _ _ s).map _

/-- **Every run of calls leaves the session that there would be without a ledger.** -/
theorem session_after (s : SharingSession) (calls : List Call) :
    (s.after calls).session = s.session.after (calls.map Call.plain) := by
  induction calls generalizing s with
  | nil => rfl
  | cons call rest ih =>
    show (after (call.perform.run s).state rest).session = _
    rw [ih, (shows_perform call s).session]
    rfl

/-- A new session is the one that there would be without a ledger. -/
theorem session_opened (env : Environment) (maxDepth : Option Int) (prelude : Bool) :
    (opened env maxDepth prelude).session = .opened env maxDepth prelude := by
  unfold opened Session.opened
  split
  · exact (shows_followed _ _ _).session
  · rfl

/-! ## Entries stay -/

/-- Behind the operation, whatever its outcome, the ledger knows of expressions what it
knew before. -/
def Adds (y : Action Fault SharingSession α) : Prop :=
  ∀ s : SharingSession, s.ledger.Within (y.run s).state.ledger

/-- Where following only adds, the operation that is followed only adds. -/
theorem adds_followed (x : Action Fault Session α) {follow : Guide → Following β}
    (h : ∀ g, (follow g).Grows) : Adds (Prod.fst <$> followed x follow) := by
  intro s
  rw [Action.state_map, ledger_followed]
  exact h _ s.ledger

theorem Adds.map (f : α → γ) (h : Adds y) : Adds (f <$> y) := by
  intro s
  rw [Action.state_map]
  exact h s

/-- **One call.** Unless it forgets, what the ledger knows of expressions stays. -/
theorem adds_perform {call : Call} (hcall : call ≠ .clearMemo) : Adds call.perform := by
  -- definitions are declared in a table of their own
  have hdeclare (entries : List (String × Entry)) (g : Guide) :
      (modify (Ledger.declare g.composer.registry entries) : Following Unit).Grows :=
    Following.grows_of_left (Ledger.expressions_declare _ entries)
  cases call with
  | register | registerAll | build => exact (adds_followed _ (hdeclare _)).map _
  | freeze => exact adds_followed _ fun _ => Following.grows_pure ()
  | resolve name args =>
    refine (adds_followed _ fun g => ?_).map _
    exact (Following.grows_holdAll args).bind fun held =>
      (Following.grows_resolve name held).bind fun _ => Following.grows_pure _
  | resolveStruct name args =>
    refine (adds_followed _ fun g => ?_).map _
    exact (Following.grows_holdAll args).bind fun held => Following.grows_resolveStruct name held
  | resolveExpression e =>
    refine (adds_followed _ fun g => ?_).map _
    exact (Following.grows_hold e).bind Following.grows_resolveExpression
  | requiredFields schema =>
    exact (adds_followed _ fun g => Following.grows_requiredFields schema).map _
  | admitsAbsence e =>
    refine (adds_followed _ fun g => ?_).map _
    exact (Following.grows_hold e).bind Following.grows_admitsAbsence
  | validate value target =>
    refine (adds_followed _ fun g => ?_).map _
    cases target with
    | schema schema => exact Following.grows_checkAnswer _ _
    | expression e =>
      exact (Following.grows_hold e).bind fun _ => Following.grows_checkAnswer _ _
    | unsupported => exact Following.grows_pure ()
  | validateNamed value name =>
    refine (adds_followed _ fun g => ?_).map _
    exact (Following.grows_resolve name []).bind fun _ => Following.grows_checkAnswer _ _
  | clearMemo => exact absurd rfl hcall

/-- **Every run of calls without one that forgets.** -/
theorem within_after {calls : List Call} (hcalls : .clearMemo ∉ calls) (s : SharingSession) :
    s.ledger.Within (s.after calls).ledger := by
  induction calls generalizing s with
  | nil => exact .refl _
  | cons call rest ih =>
    rw [List.mem_cons, not_or] at hcalls
    exact (adds_perform (Ne.symm hcalls.1) s).trans (ih hcalls.2 _)

/-! ## One value -/

section OneValue

variable {name : String} {args : List SourcedExpr} {d : Definition} {bindings : Bindings}
  {key : Instantiation} {r : Resolved} {identity : Option Identity}

/-- The identity that comes with an answer is that of the followed resolution, of the arguments
that were given. -/
theorem outcome_resolve_eq_ok (hok : ((resolve name args).run s).outcome = .ok (r, identity)) :
    ∃ (memo : Memo) (held : List SharedExpr) (l : Ledger),
      memo = ((Session.resolve (request name args)).run s.session).state.memo ∧
      held.map SharedExpr.expression = args.map SourcedExpr.expression ∧
      s.ledger.Within l ∧
      identity = ((Following.resolve { composer := s.session.composer, memo } name held).answer
        l).map SharedAnswer.identity ∧
      ((resolve name args).run s).state.ledger =
        (Following.resolve { composer := s.session.composer, memo } name held).left l := by
  obtain ⟨held, hheld, hsame⟩ := Following.answer_holdAll args s.ledger
  have hwithin := Following.grows_holdAll args s.ledger
  refine ⟨_, held, (holdAll args).left s.ledger, rfl, hsame, hwithin, ?_, ?_⟩
  · unfold resolve at hok
    rw [outcome_followed] at hok
    obtain ⟨a, -, ha⟩ := map_eq_ok.1 hok
    rw [← (Prod.mk.inj ha).2, Following.answer_bind, hheld, Option.bind_some,
      Following.answer_bind]
    exact Option.map_eq_bind.symm
  · unfold resolve
    rw [ledger_followed, Following.left_bind, hheld, Option.elim_some, Following.left_bind]
    cases Following.answer _ _ <;> rfl

/-- The identity of an alias is the one in its entry. -/
theorem identity_alias {e : TypeExpr}
    (hd : s.session.composer.complete (request name args) = .ok (d, bindings, key))
    (hplain : d.plainExpression? = some e)
    (hok : ((resolve name args).run s).outcome = .ok (r, identity)) :
    ∃ origins, identity = some (.expression origins.here) ∧
      ((resolve name args).run s).state.ledger.expressions.lookup key = some origins ∧
      ∀ known, s.ledger.expressions.lookup key = some known → origins = known := by
  obtain ⟨memo, held, l, -, hsame, hwithin, hidentity, hledger⟩ := outcome_resolve_eq_ok hok
  unfold request at hd
  rw [← hsame] at hd
  obtain ⟨origins, hanswer, hentry⟩ :=
    Following.resolve_alias (g := { composer := s.session.composer, memo }) hd hplain l
  refine ⟨origins, by rw [hidentity, hanswer], by rw [hledger, hentry], fun known hknown => ?_⟩
  -- an entry that was there already is there behind the resolution
  have hstays := Following.grows_resolve (g := { composer := s.session.composer, memo }) name held
    l key known (hwithin key known hknown)
  rw [hentry] at hstays
  exact Option.some.inj hstays

/-- The identity of a composition is its completed instantiation. -/
theorem identity_composition (hsound : s.session.memo.SoundFor s.session.composer)
    (hd : s.session.composer.complete (request name args) = .ok (d, bindings, key))
    (hplain : d.plainExpression? = none) {i : Identity}
    (hok : ((resolve name args).run s).outcome = .ok (r, some i)) : i = .schema key := by
  obtain ⟨memo, held, l, hmemo, hsame, -, hidentity, -⟩ := outcome_resolve_eq_ok hok
  unfold request at hd
  rw [← hsame] at hd
  obtain ⟨answer, hanswer, hi⟩ := Option.map_eq_some_iff.1 hidentity.symm
  obtain ⟨schema, rfl, hschema⟩ :=
    Following.resolve_composition (g := { composer := s.session.composer, memo }) hd hplain hanswer
  -- what the memo holds under the key is a schema of that instantiation
  have hleft : memo.SoundFor s.session.composer := by
    rw [hmemo]
    exact (Composer.resolve_denotes hsound).1
  obtain ⟨hkey, -⟩ := hleft.schemas key schema (mem_of_lookup hschema)
  rw [← hi, SharedAnswer.identity, hkey]

/-- **One value until it is forgotten.** After any history, a name that was resolved and a name
that is resolved later, with any calls between of which none forgets, are one value if their
arguments complete alike. -/
theorem one_value_until_forgotten (env : Environment) (maxDepth : Option Int) (prelude : Bool)
    (history later : List Call) (name name' : String) (args args' : List SourcedExpr)
    (hlater : .clearMemo ∉ later) :
    let s := (opened env maxDepth prelude).after history
    let s' := s.after (.resolve name args :: later)
    ∀ r r' i i' d d' bindings bindings' key,
      ((resolve name args).run s).outcome = .ok (r, some i) →
      ((resolve name' args').run s').outcome = .ok (r', some i') →
      s.session.composer.complete (request name args) = .ok (d, bindings, key) →
      s'.session.composer.complete (request name' args') = .ok (d', bindings', key) →
      i' = i := by
  intro s s' r r' i i' d d' bindings bindings' key hok hok' hd hd'
  -- without the ledger this is a history of plain calls, which keep the memo sound
  have hsession : s.session = (Session.opened env maxDepth prelude).after
      (history.map Call.plain) := by
    rw [session_after, session_opened]
  have hsession' : s'.session = s.session.after
      ((Call.resolve name args :: later).map Call.plain) := session_after _ _
  have hsound : s.session.memo.SoundFor s.session.composer := by
    rw [hsession]
    exact Session.lasting_soundFor.after env maxDepth prelude _
  have hleads : Session.LeadsTo (fun c memo => memo.SoundFor c) s.session s'.session := by
    rw [hsession']
    exact Session.leadsTo_after Session.lasting_soundFor _ _
  -- the definition of the first resolution is that of the second
  obtain ⟨rfl, -⟩ := Composer.complete_eq_of_key_eq
    (Composer.complete_mono hleads.extends_registry hd) hd'
  cases hplain : d.plainExpression? with
  | none =>
    rw [identity_composition hsound hd hplain hok,
      identity_composition (hleads.keeps hsound) hd' hplain hok']
  | some e =>
    obtain ⟨origins, hi, hentry, -⟩ := identity_alias hd hplain hok
    obtain ⟨origins', hi', -, hknown⟩ := identity_alias hd' hplain hok'
    -- the entry of the first resolution is still there
    have hstays : s'.ledger.expressions.lookup key = some origins := by
      refine within_after hlater _ key origins ?_
      show List.lookup key (((fun _ => ()) <$> Prod.fst <$> resolve name args : Action _ _ _).run
        s).state.ledger.expressions = some origins
      rw [Action.state_map, Action.state_map]
      exact hentry
    rw [hknown origins hstays] at hi'
    cases hi
    cases hi'
    rfl

end OneValue

end SharingSession

end WidgetSchema
