/-
A session that knows which of its answers are one value.

Every operation is the operation of the plain session, followed afterwards in the
ledger; what it returns, what it notes and how it fails is the same. Arguments
and targets come with the texts they were read from, and what a name resolves to
comes with its identity.
-/
import WidgetSchema.Session
import WidgetSchema.Sharing.Checking

set_option autoImplicit false

namespace WidgetSchema

/-- A session and where its values come from. -/
structure SharingSession where
  session : Session
  ledger : Ledger

/-- What a check is asked about. -/
inductive SharingTarget where
  | schema (s : ResolvedSchema)
  | expression (e : SourcedExpr)
  /-- Something that is no type, as messages show it. -/
  | unsupported (shown : String)

/-- The target without the texts. -/
def SharingTarget.plain : SharingTarget → Target
  | schema s => .schema s
  | expression e => .expression e.expression
  | unsupported shown => .unsupported shown

namespace SharingSession

/-- The session before anything is registered. -/
def blank (env : Environment) (maxDepth : Option Int) : SharingSession :=
  { session := .blank env maxDepth, ledger := .empty }

/-- An operation of the plain session, and what follows it. -/
def followed {α β : Type} (x : Action Fault Session α) (follow : Guide → Following β) :
    Action Fault SharingSession (α × Option β) := fun s =>
  let step := x.run s.session
  let guide : Guide := { composer := step.state.composer, memo := step.state.memo }
  let (b, ledger) := (follow guide).run.run s.ledger
  { state := { session := step.state, ledger }
    journal := step.journal
    outcome := step.outcome.map fun a => (a, b) }

/-- An operation of the plain session that resolves nothing. -/
def plainly {α : Type} (x : Action Fault Session α) : Action Fault SharingSession α :=
  Prod.fst <$> followed x fun _ => (return () : Following Unit)

/-- An operation of the plain session that registers some of the entries. -/
def declaring {α : Type} (entries : List (String × Entry)) (x : Action Fault Session α) :
    Action Fault SharingSession α :=
  Prod.fst <$> followed x fun g => (modify (Ledger.declare g.composer.registry entries) :
    Following Unit)

/-! ## Registering -/

/-- Registers the prelude. -/
def addPrelude : Action Fault SharingSession Unit :=
  declaring Registry.prelude Session.addPrelude

/-- Registers one entry. -/
def register (name : String) (entry : Entry) : Action Fault SharingSession Definition :=
  declaring [(name, entry)] (Session.register name entry)

/-- Registers a flat table and leaves the registry open. -/
def registerTable (entries : List (String × Entry)) : Action Fault SharingSession (List String) :=
  declaring entries (Session.registerTable entries)

/-- Registers a flat table and ends the build phase. -/
def buildFrom (entries : List (String × Entry)) (allowDangling : Bool) :
    Action Fault SharingSession (List String) :=
  declaring entries (Session.buildFrom entries allowDangling)

/-- Builds the session of a catalogue. -/
def load (name : String) (allowDangling : Bool) : Action Fault SharingSession Unit :=
  let table := match Catalogue.find name with
    | .ok catalogue => flattenTable "" catalogue.table
    | .error _ => []
  declaring (Registry.prelude ++ table) (Session.load name allowDangling)

/-! ## Resolving -/

/-- Holds arguments that are given. -/
def holdAll (args : List SourcedExpr) : Following (List SharedExpr) := args.mapM Following.hold

/-- A name with given arguments, without the texts. -/
def request (name : String) (args : List SourcedExpr) : Instantiation :=
  { name, args := args.map SourcedExpr.expression }

/-- What a name with arguments resolves to, and its identity. -/
def resolve (name : String) (args : List SourcedExpr) :
    Action Fault SharingSession (Resolved × Option Identity) :=
  followed (Session.resolve (request name args)) fun g => do
    return (← Following.resolve g name (← holdAll args)).identity

/-- The schema of a name with arguments. -/
def resolveStruct (name : String) (args : List SourcedExpr) :
    Action Fault SharingSession ResolvedSchema :=
  Prod.fst <$> followed (Session.resolveStruct (request name args)) fun g => do
    Following.resolveStruct g name (← holdAll args)

/-- What an expression resolves to. -/
def resolveExpression (e : SourcedExpr) : Action Fault SharingSession Resolved :=
  Prod.fst <$> followed (Session.resolveExpression e.expression) fun g => do
    Following.resolveExpression g (← Following.hold e)

/-- Forgets everything that was resolved. -/
def forget : Action Fault SharingSession Unit :=
  Prod.fst <$> followed Session.forget fun _ => (modify Ledger.forget : Following Unit)

/-! ## Asking -/

/-- The verdict on a value against a target. -/
def validate (value : ValueGraph) (target : SharingTarget) :
    Action Fault SharingSession Verdict :=
  Prod.fst <$> followed (Session.validate value target.plain) fun g => do
    match target with
    | .schema s => Following.checkAnswer g value.heap value.root (.schema s)
    | .expression e =>
      Following.checkAnswer g value.heap value.root (.expression (← Following.hold e))
    | .unsupported _ => return ()

/-- The verdict on a value against a registered type. -/
def validateNamed (value : ValueGraph) (name : String) : Action Fault SharingSession Verdict :=
  Prod.fst <$> followed (Session.validateNamed value name) fun g => do
    Following.checkAnswer g value.heap value.root (← Following.resolve g name [])

/-- The fields that a value of a schema must carry. -/
def requiredFields (s : ResolvedSchema) : Action Fault SharingSession (List String) :=
  Prod.fst <$> followed (Session.requiredFields s) fun g => Following.requiredFields g s

/-- No value satisfies the expression. -/
def admitsAbsence (e : SourcedExpr) : Action Fault SharingSession Bool :=
  Prod.fst <$> followed (Session.admitsAbsence e.expression) fun g => do
    Following.admitsAbsence g (← Following.hold e)

end SharingSession

end WidgetSchema
