/-
The program: reads the command line, the settings and the document, runs, and
writes the answer and the journal.
-/
import WidgetSchema.Command.Run

set_option autoImplicit false

namespace WidgetSchema

/-- The commands there are, on one line each. -/
def usage : String :=
  "usage: [--log-level LEVEL] COMMAND\n" ++
  "  catalogues\n" ++
  "  types [-c CATALOGUE]\n" ++
  "  resolve [-c CATALOGUE] NAME [ARG ...]\n" ++
  "  validate [-c CATALOGUE] NAME FILE"

/-- The settings of the environment the program runs in. -/
def readEnvironment : IO Environment := do
  let values ← Setting.all.mapM fun s => do
    return (← IO.getEnv s.name).map fun v => (s.name, v)
  return OrderedMap.ofList (values.filterMap id)

/-- The bytes of a document, unless it cannot be read. -/
def readBytes (source : String) : IO (Option (List UInt8)) := do
  try
    let bytes ←
      if source = "-" then (← IO.getStdin).readBinToEnd
      else IO.FS.readBinFile (plainPath source)
    return some bytes.toList
  catch _ => return none

end WidgetSchema

open WidgetSchema in
/-- Runs the command that the arguments ask for. -/
def main (args : List String) : IO UInt32 := do
  match CommandLine.parse args with
  | .help =>
    IO.println usage
    return 0
  | .refused =>
    IO.eprintln usage
    return 2
  | .run line =>
    let env ← readEnvironment
    let document ← match line.document? with
      | some source => readBytes source
      | none => pure none
    match line.run .roomy env document with
    | .error fault =>
      IO.eprintln fault.message
      return 1
    | .ok report =>
      for r in report.journal do
        IO.eprintln (r.topic.name ++ " - " ++ r.level.name ++ " - " ++ r.message)
      IO.print report.output
      return UInt32.ofNat report.exitCode
