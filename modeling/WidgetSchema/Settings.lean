/-
Settings from environment variables.

A setting has a name in the environment, a kind of value and a default. A value
given by the caller comes first, then the environment, then the default. A text
in the environment that is no value of the kind counts as not set. Where the
environment is read from is left to the program around.
-/
import WidgetSchema.Journal.Basic
import WidgetSchema.Number.Whole
import WidgetSchema.OrderedMap
import WidgetSchema.Text.Trimming
import WidgetSchema.Value.Atom

set_option autoImplicit false

namespace WidgetSchema

/-- The variables that are set, by name. -/
abbrev Environment := OrderedMap String

/-- The settings there are. -/
inductive Setting where
  | logLevel | maxDepth | catalogue | strictTags
deriving DecidableEq, Repr

/-- The kinds of values settings have. -/
inductive SettingKind where
  | text | whole | truth
deriving DecidableEq, Repr

/-- The name of a kind, as reports show it. -/
def SettingKind.name : SettingKind → String
  | text => "str"
  | whole => "int"
  | truth => "bool"

namespace Setting

/-- All settings, in the order they are listed. -/
def all : List Setting := [logLevel, maxDepth, catalogue, strictTags]

/-- The name of the environment variable. -/
def name : Setting → String
  | logLevel => "UITYPES_LOG_LEVEL"
  | maxDepth => "UITYPES_MAX_DEPTH"
  | catalogue => "UITYPES_CATALOGUE"
  | strictTags => "UITYPES_STRICT_ANNOTATIONS"

/-- The setting of an environment variable. -/
def ofName? (name : String) : Option Setting := all.find? (·.name == name)

/-- The kind of value. -/
def kind : Setting → SettingKind
  | logLevel | catalogue => .text
  | maxDepth => .whole
  | strictTags => .truth

/-- The value if nothing else is said. -/
def default : Setting → Atom
  | logLevel => .text "WARNING"
  | maxDepth => .int 64
  | catalogue => .text "std"
  | strictTags => .bool false

/-- What a setting is for. -/
def description : Setting → String
  | logLevel => "Log level applied by setup_logging() when none is given"
  | maxDepth => "Maximum nesting of supertype/generic resolution"
  | catalogue => "Built-in catalogue loaded by load_engine() (std, pub)"
  | strictTags => "Reject unrecognised values of known annotation keys"

/-- The group a setting is listed in. -/
def category : Setting → String
  | logLevel => "logging"
  | maxDepth => "resolution"
  | catalogue => "catalogue"
  | strictTags => "annotation"

/-- The settings of a group; without a group, all of them. -/
def inCategory : Option String → List Setting
  | none => all
  | some c => all.filter (·.category == c)

/-- A truth value by one of its words, in any case and with blanks around it. The
words are ASCII, and so is every character whose lower case occurs in them. -/
def readTruth? (s : String) : Option Bool :=
  let word := String.ofList ((Text.trim s.toList).map Char.toLower)
  if word = "true" ∨ word = "1" ∨ word = "yes" then some true
  else if word = "false" ∨ word = "0" ∨ word = "no" then some false
  else none

/-- The value that a text is, read as a kind. -/
def readAs? (k : SettingKind) (s : String) : Option Atom :=
  match k with
  | .text => some (.text s)
  | .whole => (Whole.read? s).map .int
  | .truth => (readTruth? s).map .bool

/-- The value of a setting in an environment. -/
def read (s : Setting) (env : Environment) : Atom :=
  ((env.get? s.name).bind (readAs? s.kind)).getD s.default

/-- The value of a setting that the caller may override by a value of any type. -/
def effective {α : Type} (s : Setting) (ofAtom : Atom → α) (override : Option α)
    (env : Environment) : α :=
  override.getD (ofAtom (s.read env))

end Setting

namespace Environment

/-- The bound on nested compositions that the caller or the environment chooses.
A bound below one is none, so the default takes its place. -/
def chosenDepth (env : Environment) (override : Option Atom) : Atom :=
  let chosen := Setting.maxDepth.effective id override env
  if chosen.isBelowOne then Setting.maxDepth.default else chosen

/-- The bound as a number. -/
def maxDepth (env : Environment) (override : Option Int) : Nat :=
  ((env.chosenDepth (override.map .int)).asInt?.getD 0).toNat

/-- The text of a setting whose value is one. -/
def text (env : Environment) (s : Setting) : String := (s.read env).keyText

/-- The log level asked for, in upper case. -/
def logLevel (env : Environment) : String := Level.upperCase (env.text .logLevel)

/-- The catalogue to load if none is named. -/
def defaultCatalogue (env : Environment) : String := env.text .catalogue

/-- Known tag keys take only the values they allow. -/
def strictTags (env : Environment) : Bool := (Setting.strictTags.read env).isTruthy

end Environment

end WidgetSchema
