/-
The command line: what is asked for.

A line has the log level, one of four commands and what the command works on.
Everything about a line that does not depend on types or documents is decided
here, so a line that is read can be run. A line that asks for help, or that is
refused, is told apart from the others; the texts that are printed for it are left
out.
-/
import WidgetSchema.Catalogue.Directory
import WidgetSchema.Command.Options

set_option autoImplicit false

namespace WidgetSchema

open Options

/-- What to do. -/
inductive Command where
  /-- Lists the catalogues. -/
  | catalogues
  /-- Lists the types of a catalogue. -/
  | types (catalogue : Option String)
  /-- Shows what a type with arguments resolves to. -/
  | resolve (catalogue : Option String) (name : String) (args : List String)
  /-- Checks a document against a type; no document can be named. -/
  | validate (catalogue : Option String) (name : String) (document : Option String)
deriving DecidableEq, Repr

/-- A command and the log level it is given under. -/
structure CommandLine where
  logLevel : Option String
  command : Command
deriving DecidableEq, Repr

/-- What a list of words asks for. -/
inductive Invocation where
  /-- An explanation of the command line. -/
  | help
  /-- Nothing that can be done. -/
  | refused
  | run (line : CommandLine)
deriving DecidableEq, Repr

namespace CommandLine

/-- The flags before the command. -/
def globalFlags : Flags := [("-h", .help), ("--help", .help), ("--log-level", .store none)]

/-- The flags of a command that works on no catalogue. -/
def plainFlags : Flags := [("-h", .help), ("--help", .help)]

/-- The flags of a command that works on a catalogue. -/
def catalogueFlags : Flags :=
  plainFlags ++ [("--catalogue", .store (some Catalogue.names)),
    ("-c", .store (some Catalogue.names))]

/-- The flags and operand slots of a command, and the command made of its option
and operands. -/
def grammar? : (name : String) →
    Option (Flags × List Slot × (Option String → List (List String) → Option Command))
  | "catalogues" => some (plainFlags, [], fun _ _ => some .catalogues)
  | "types" => some (catalogueFlags, [], fun c _ => some (.types c))
  | "resolve" => some (catalogueFlags, [.one, .many], fun c operands =>
      match operands with
      | [[name], args] => some (.resolve c name args)
      | _ => none)
  | "validate" => some (catalogueFlags, [.one, .one], fun c operands =>
      match operands with
      | [[name], document] => some (.validate c name document.head?)
      | _ => none)
  | _ => none

/-- Reads the command and its own words. `outside` is what was read before them. -/
def readCommand (outside : State) (name : String) (words : List String) : Invocation :=
  match grammar? name with
  | none => .refused
  | some (flags, slots, make) =>
    match Options.read flags slots words with
    | .help => .help
    | .refused => .refused
    | .read s =>
      match make s.value s.filled with
      | some command =>
        if outside.leftOver || s.leftOver then .refused
        else .run { logLevel := outside.value, command }
      | none => .refused

/-- Reads a whole line. -/
def parse (words : List String) : Invocation :=
  match Options.read globalFlags [.rest] words with
  | .help => .help
  | .refused => .refused
  | .read s =>
    match s.filled with
    | [name :: words] => readCommand s name words
    | _ => .refused

/-- The document that has to be read before a command runs; a hyphen is the
standard input. -/
def document? (line : CommandLine) : Option String :=
  match line.command with
  | .validate _ _ document => document
  | _ => none

end CommandLine

/-- The name of a file without what does not change where it leads: doubled and
closing slashes and steps that stay in place. -/
def plainPath (path : String) : String :=
  let parts := (path.splitOn "/").filter fun p => p ≠ "" ∧ p ≠ "."
  (if path.startsWith "/" then "/" else "") ++ "/".intercalate parts

end WidgetSchema
