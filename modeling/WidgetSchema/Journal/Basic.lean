/-
The journal: what the program reports beside its answers.

A record has a level, the part of the program it comes from and a message. Which
records reach the reader is a matter of the level chosen, so functions write all
of them and `visible` selects. The time of a record and the line it is printed as
are left to the program around.
-/
import WidgetSchema.Text.Character

set_option autoImplicit false

namespace WidgetSchema

/-- How grave a record is. -/
inductive Level where
  | debug | info | warning | error
deriving DecidableEq, Repr

namespace Level

/-- The name of a level in a record. -/
def name : Level → String
  | debug => "DEBUG"
  | info => "INFO"
  | warning => "WARNING"
  | error => "ERROR"

/-- The number of a level; graver levels have greater numbers. -/
def number : Level → Nat
  | debug => 10
  | info => 20
  | warning => 30
  | error => 40

/-- The levels that a reader may ask for, by name. -/
def thresholds : List (String × Nat) :=
  [("CRITICAL", 50), ("FATAL", 50), ("ERROR", 40), ("WARN", 30), ("WARNING", 30),
   ("INFO", 20), ("DEBUG", 10), ("NOTSET", 0)]

/-- The text in upper case. -/
def upperCase (s : String) : String := String.ofList (s.toList.flatMap Character.toUpper)

/-- The number a reader asks for by a level's name, in any case. -/
def threshold? (text : String) : Option Nat := thresholds.lookup (upperCase text)

end Level

/-- The part of the program that writes a record. -/
inductive Topic where
  | tags | registry | composer | validation | engine | commandLine
deriving DecidableEq, Repr

/-- The name all topics stand under. -/
def Topic.root : String := "uitypes"

/-- The full name of a topic given by its own name: no name stands for the root,
and a name that already stands under the root is kept. -/
def Topic.qualify (name : String) : String :=
  if name = "" then root
  else if name = root ∨ (root ++ ".").toList.isPrefixOf name.toList then name
  else root ++ "." ++ name

/-- The full name of a topic. -/
def Topic.name : Topic → String
  | tags => qualify "annotation"
  | registry => qualify "registry"
  | composer => qualify "composer"
  | validation => qualify "validation"
  | engine => qualify "engine"
  | commandLine => qualify "cli"

/-- One line of the journal. -/
structure LogRecord where
  level : Level
  topic : Topic
  message : String
deriving DecidableEq, Repr

/-- The records at or above a threshold, in order. -/
def visible (threshold : Int) (records : List LogRecord) : List LogRecord :=
  records.filter fun r => threshold ≤ r.level.number

end WidgetSchema
