/-
A session: one registry, the memo of what was resolved on it, and the settings
both work under.

Types are registered first, then the registry is frozen and read. Every
operation is an action on the session, so what a failing one did before it
failed stays done: entries before the failing one are registered, and types
resolved on the way are remembered.
-/
import WidgetSchema.Catalogue.Directory
import WidgetSchema.Settings
import WidgetSchema.Verdict.Check

set_option autoImplicit false

namespace WidgetSchema

/-- An operation on a stack. How many calls fit inside one another is up to the
machine; where an operation needs more of them it ends with that fault. -/
def Action.onStack {σ α : Type} (overflows : Bool) (x : Action Fault σ α) : Action Fault σ α :=
  if overflows then .fail .stackOverflow else x

/-- A registry, what was resolved on it, and how tags and depth are treated. -/
structure Session where
  registry : Registry
  memo : Memo
  maxDepth : Nat
  strictTags : Bool

namespace Session

/-- The session before anything is registered. -/
def blank (env : Environment) (maxDepth : Option Int) : Session :=
  { registry := .empty
    memo := .empty
    maxDepth := env.maxDepth maxDepth
    strictTags := env.strictTags }

/-- The composer of a session. -/
def composer (s : Session) : Composer := { registry := s.registry, maxDepth := s.maxDepth }

/-! ## Parts of a session -/

/-- An action on the registry. -/
def onRegistry {α : Type} (x : Bool → Action SchemaError Registry α) :
    Action Fault Session α := fun s =>
  let step := x s.strictTags s.registry
  { state := { s with registry := step.state }
    journal := step.journal
    outcome := step.outcome.mapError Fault.schema }

/-- An action on the memo. -/
def onMemo {α : Type} (x : Composer → Action Fault Memo α) : Action Fault Session α := fun s =>
  let step := x s.composer s.memo
  { state := { s with memo := step.state }
    journal := step.journal
    outcome := step.outcome }

/-- A resolution, which fails only with an error in a type. -/
def resolving {α : Type} (x : Composer → Action SchemaError Memo α) : Action Fault Session α :=
  onMemo fun c => (x c).mapError Fault.schema

/-! ## Registering -/

/-- Registers the prelude. -/
def addPrelude : Action Fault Session Unit :=
  onRegistry fun strict => Registry.registerEach strict Registry.prelude

/-- Registers one entry. -/
def register (name : String) (entry : Entry) : Action Fault Session Definition :=
  onRegistry fun strict => Registry.register strict name entry

/-- Registers a flat table and leaves the registry open. -/
def registerTable (entries : List (String × Entry)) : Action Fault Session (List String) :=
  onRegistry fun strict => Registry.registerAll strict entries

/-- Ends the build phase. -/
def freeze : Action Fault Session Unit :=
  .modify fun s => { s with registry := s.registry.freeze }

/-- Notes the dangling names of each definition. -/
def noteDangling : List (String × List String) → Action Fault Session Unit
  | [] => return ()
  | (owner, dangling) :: rest => do
    .note .warning .engine
      (owner ++ " references unregistered types: " ++ ", ".intercalate dangling)
    noteDangling rest

/-- Registers a flat table, ends the build phase and notes dangling names. If
they are not allowed, the least of them is an error. -/
def buildFrom (entries : List (String × Entry)) (allowDangling : Bool) :
    Action Fault Session (List String) := do
  let names ← registerTable entries
  freeze
  let s ← .get
  let missing := s.registry.unresolvedReferences
  noteDangling missing
  match (LiteralSet.ofList (missing.flatMap Prod.snd)).toList with
  | [] => return names
  | least :: _ =>
    if allowDangling then return names else .fail (.schema (.unknownType least))

/-- Builds the session of a catalogue. -/
def load (name : String) (allowDangling : Bool) : Action Fault Session Unit := do
  addPrelude
  let catalogue ← .ofExcept (Catalogue.find name)
  let _ ← buildFrom (flattenTable "" catalogue.table) allowDangling
  let s ← .get
  .note .info .engine
    ("Loaded catalogue '" ++ name ++ "' with " ++ toString s.registry.definitions.size ++ " types")

/-- The name of the catalogue to load: the given one, unless it is empty. -/
def catalogueName (env : Environment) (given : Option String) : String :=
  match given with
  | some name => if name.isEmpty then env.defaultCatalogue else name
  | none => env.defaultCatalogue

/-! ## Asking -/

/-- The definition of a name. -/
def lookup (name : String) : Action Fault Session Definition :=
  onRegistry fun _ => do
    let r ← .get
    .ofExcept (r.lookup name)

/-- Forgets everything that was resolved. -/
def forget : Action Fault Session Unit := .modify fun s => { s with memo := .empty }

/-- The type of a name with arguments. -/
def resolve (i : Instantiation) : Action Fault Session Resolved :=
  resolving fun c => c.resolve i

/-- The schema of a name with arguments. -/
def resolveStruct (i : Instantiation) : Action Fault Session ResolvedSchema :=
  resolving fun c => c.resolveStruct i

/-- What an expression resolves to. -/
def resolveExpression (e : TypeExpr) : Action Fault Session Resolved :=
  resolving fun c => c.resolveExpression e

/-- The verdict on a value against a target. -/
def validate (value : ValueGraph) (target : Target) : Action Fault Session Verdict :=
  onMemo fun c => c.validate value.heap value.root target

/-- The verdict on a value against a registered type. -/
def validateNamed (value : ValueGraph) (name : String) : Action Fault Session Verdict :=
  onMemo fun c => c.validateNamed value.heap value.root name

/-- The fields that a value of a schema must carry. -/
def requiredFields (s : ResolvedSchema) : Action Fault Session (List String) :=
  onMemo fun c => c.requiredFields s

/-- No value satisfies the expression. -/
def admitsAbsence (e : TypeExpr) : Action Fault Session Bool :=
  onMemo fun c => c.admitsAbsence e

/-- The field of a schema. -/
def field (s : ResolvedSchema) (name : String) : Action Fault Session ResolvedField :=
  .ofExcept ((s.field name).mapError Fault.schema)

end Session

end WidgetSchema
