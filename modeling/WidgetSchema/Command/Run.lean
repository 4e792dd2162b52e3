/-
Commands at work.

A run takes the environment and the bytes of the document, if the command needs
one, and ends with an exit code, the text for the standard output and the journal
as far as the log level shows it. Errors in types and documents are reported in
the journal and end with the exit code 2; a value that does not fit its type
ends with 1.

How many calls fit inside one another is up to the machine that runs the command.
It decides how deep the containers of a document may nest, and whether there is
room for the work on what was read; where there is none the run ends without an
exit code. What a call takes of the stack is not modelled. The machine also decides
in which encoding the standard output is written; an answer with a character that
this encoding lacks ends a run in the same way.
-/
import WidgetSchema.Command.Line
import WidgetSchema.Json.Reader
import WidgetSchema.Json.Writer
import WidgetSchema.Session

set_option autoImplicit false

namespace WidgetSchema

/-- What a run depends on of the machine: how many calls fit inside one another, and what can
be written. -/
structure Machine where
  /-- The containers of a document that may stand inside one another. -/
  nesting : Nat
  /-- For what a command does once its catalogue is loaded there are too many calls. -/
  overflows : Environment → Option (List UInt8) → Command → Bool
  /-- The encoding of the standard output has the character. -/
  prints : Char → Bool := fun _ => true

/-- A machine on which all work fits, and on which every text can be written. -/
def Machine.roomy : Machine := { nesting := 1000, overflows := fun _ _ _ => false }

/-- The end of a run. -/
structure Report where
  exitCode : Nat
  output : String
  journal : List LogRecord

namespace Command

open Json (Tree)

/-! ## Answers -/

/-- A list of texts. -/
def textList (ss : List String) : Tree := .list (ss.map fun s : String => .text s)

/-- A schema as it is shown. -/
def schemaTree (s : ResolvedSchema) : Tree :=
  .object
    [("name", .text s.instantiation.name),
     ("args", textList (s.instantiation.args.map TypeExpr.render)),
     ("lineage", textList s.lineage.toList),
     ("fields", .object (s.fields.entries.map fun f => (f.1, .object
       [("type", .text f.2.expression.render),
        ("annotations", .object (f.2.tags.entries.map fun t => (t.1, .text t.2))),
        ("origin", .text f.2.origin)])))]

/-- A failure as it is shown. -/
def failureTree (f : Failure) : Tree :=
  .object
    [("path", .text f.path.render),
     ("reason", .text f.mismatch.reason),
     ("error_type", .text f.mismatch.kind.name)]

/-- A verdict as it is shown. -/
def verdictTree (v : Verdict) : Tree :=
  .object [("valid", .truth v.valid), ("failures", .list (v.failures.map failureTree))]

/-- What a type resolves to, as it is shown. -/
def resolvedText : Resolved → String
  | .schema s => (schemaTree s).render
  | .expression e => e.render

/-- The line about a catalogue, with its name in a column of six characters. -/
def catalogueLine (c : Catalogue) : String :=
  c.name ++ String.ofList (List.replicate (6 - c.name.length) ' ') ++ " " ++ c.description

/-- Texts on lines of their own. -/
def asLines (ss : List String) : String := String.join (ss.map (· ++ "\n"))

/-! ## Documents -/

/-- Why a document could not be used. -/
inductive DocumentFault where
  /-- It could not be read, or it is malformed. -/
  | unreadable
  /-- Its bytes encode no text. -/
  | undecodable
  /-- It holds an integer with too many digits. -/
  | tooManyDigits
  /-- Its containers nest too deep. -/
  | tooDeep

/-- A text that could not be read, as a document. -/
def DocumentFault.ofRead : Json.ReadFault → DocumentFault
  | .malformed => unreadable
  | .tooManyDigits => tooManyDigits
  | .tooDeep => tooDeep

/-- A file can have the name: it holds no null character. -/
def isPossiblePath (path : String) : Bool := !path.toList.contains '\x00'

/-- The value of a document with at most `nesting` containers inside one another,
given its bytes if they could be read. -/
def readDocument (nesting : Nat) (bytes : Option (List UInt8)) :
    Except DocumentFault ValueGraph :=
  match bytes with
  | none => .error .unreadable
  | some bytes =>
    match String.fromUTF8? (ByteArray.mk bytes.toArray) with
    | none => .error .undecodable
    | some text => ((Json.read nesting text).map ValueGraph.ofDatum).mapError .ofRead

/-! ## Commands -/

/-- The exit code and the output of a command in a session that is still blank. -/
abbrev Doing := Action Fault Session (Nat × String)

/-- Reads the arguments of a type, in order. -/
def parseArgs : List String → Except SchemaError (List TypeExpr)
  | [] => .ok []
  | raw :: rest => do
    let e ← (TypeExpr.parse raw).mapError SyntaxError.toSchemaError
    let es ← parseArgs rest
    .ok (e :: es)

/-- Builds the session of a catalogue; dangling names are not allowed. -/
def loadCatalogue (env : Environment) (given : Option String) : Action Fault Session Unit :=
  Session.load (Session.catalogueName env given) false

/-- Lists the types of a catalogue. -/
def doTypes (env : Environment) (catalogue : Option String) :
    Action Fault Session (Nat × String) := do
  loadCatalogue env catalogue
  let s ← .get
  return (0, asLines s.registry.names)

/-- Shows what a type resolves to. -/
def doResolve (env : Environment) (overflows : Bool) (catalogue : Option String) (name : String)
    (args : List String) : Action Fault Session (Nat × String) := do
  loadCatalogue env catalogue
  Action.onStack overflows do
    let args ← .ofExcept ((parseArgs args).mapError Fault.schema)
    let resolved ← Session.resolve { name, args }
    return (0, asLines [resolvedText resolved])

/-- Checks a value against a type. -/
def doValidate (env : Environment) (overflows : Bool) (catalogue : Option String) (name : String)
    (value : ValueGraph) : Action Fault Session (Nat × String) := do
  loadCatalogue env catalogue
  Action.onStack overflows do
    let verdict ← Session.validateNamed value name
    return (if verdict.valid then 0 else 1, asLines [(verdictTree verdict).render])

/-- Notes an error and ends with its exit code. -/
def refuse (message : String) : Action Fault Session (Nat × String) := do
  .note .error .commandLine message
  return (2, "")

/-- Carries out a command. The document is read before the catalogue. A document
that cannot be read is noted without the reason that the reader of files or of
JSON gives, which is in words of its own. -/
def perform (machine : Machine) (env : Environment) (document : Option (List UInt8))
    (command : Command) : Action Fault Session (Nat × String) :=
  let overflows := machine.overflows env document command
  match command with
  | .catalogues => return (0, asLines (Catalogue.all.map catalogueLine))
  | .types catalogue => doTypes env catalogue
  | .resolve catalogue name args => doResolve env overflows catalogue name args
  | .validate _ _ none => .fail .noDocument
  | .validate catalogue name (some path) =>
    if !isPossiblePath path then .fail (.impossiblePath path)
    else match readDocument machine.nesting document with
      | .error .unreadable => refuse "Cannot read input"
      | .error .undecodable => .fail .undecodable
      | .error .tooManyDigits => .fail .tooManyDigits
      | .error .tooDeep => .fail .tooDeep
      | .ok value => doValidate env overflows catalogue name value

/-- Ends with an error in a type as a refusal; any other fault stays one. -/
def reportErrors (x : Action Fault Session (Nat × String)) :
    Action Fault Session (Nat × String) := fun s =>
  let step := x.run s
  match step.outcome with
  | .error (.schema e) =>
    let last := (refuse (e.className ++ ": " ++ e.message)).run step.state
    { last with journal := step.journal ++ last.journal }
  | _ => step

end Command

namespace CommandLine

/-- The least level of the records to show: the one the line names, unless it is
empty, or else the one of the environment. -/
def threshold (env : Environment) (line : CommandLine) : Except Fault Nat :=
  let asked := match line.logLevel with
    | some level => if level.isEmpty then env.logLevel else level
    | none => env.logLevel
  match Level.threshold? asked with
  | some n => .ok n
  | none => .error (.unknownLogLevel asked)

/-- Runs a line on a machine. What is to be written is written last, after all that may go
wrong otherwise. -/
def run (machine : Machine) (env : Environment) (line : CommandLine)
    (document : Option (List UInt8)) : Except Fault Report := do
  let threshold ← line.threshold env
  let step := (Command.reportErrors (Command.perform machine env document line.command)).run
    (Session.blank env none)
  let (exitCode, output) ← step.outcome
  if output.toList.all machine.prints then
    return { exitCode, output, journal := visible threshold step.journal }
  else
    .error .unprintable

end CommandLine

end WidgetSchema
