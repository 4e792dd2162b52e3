/-
Verdicts: how a value fails to fit a type.

A failure has a path to the offending part, a cause and no more; the wording of
causes stands in `Mismatch.reason`. A path is a list of steps from the root, so
it can be followed as well as shown.
-/
import WidgetSchema.Expr.Rendering
import WidgetSchema.Value.Graph

set_option autoImplicit false

namespace WidgetSchema

/-! ## Paths -/

/-- A step from a container to one of its parts. -/
inductive PathStep where
  /-- To a field of a struct. -/
  | field (name : String)
  /-- To an entry of a mapping. -/
  | key (key : Scalar)
  /-- To an item of a sequence. -/
  | index (i : Nat)
deriving DecidableEq, Repr

/-- The text of a step. -/
def PathStep.render : PathStep → CodeText
  | field name => ("." ++ name : String)
  | key k => "." ++ k.pathText
  | index i => ("[" ++ toString i ++ "]" : String)

/-- The steps from the root to a part. -/
abbrev Path := List PathStep

namespace Path

/-- The path of the whole value. -/
def root : Path := []

/-- The path one step further. -/
def push (p : Path) (s : PathStep) : Path := p ++ [s]

/-- The text of a path. -/
def render (p : Path) : CodeText := "root" ++ p.flatMap PathStep.render

end Path

/-! ## Failures -/

/-- The category of a failure. -/
inductive FailureKind where
  | missing | missingField | typeMismatch | invalidLiteral | invalidEnum | noMatchingBranch
deriving DecidableEq, Repr

/-- The name of a category. -/
def FailureKind.name : FailureKind → String
  | missing => "missing"
  | missingField => "missing_field"
  | typeMismatch => "type_mismatch"
  | invalidLiteral => "invalid_literal"
  | invalidEnum => "invalid_enum"
  | noMatchingBranch => "no_matching_branch"

/-- Why a value does not fit. Types and values are given as they are shown; an
attempt repeats paths, so it is a text by code points. -/
inductive Mismatch where
  /-- No value where a scalar kind or a struct is required. -/
  | absent (required : String)
  /-- No value where any other type is required. -/
  | absentValue (type : String)
  /-- A struct without a field it has to have. -/
  | absentField (field schema : String)
  /-- A value of another kind. -/
  | otherKind (expected actual : String)
  /-- Another value than the literal. -/
  | notLiteral (value literal : String)
  /-- Another value than the literals of a set. -/
  | notInSet (value : String) (literals : List String)
  /-- No branch of a union fits: each branch, with its first failure. -/
  | noBranch (value : String) (attempts : List CodeText)
deriving DecidableEq, Repr

namespace Mismatch

/-- The category of a cause. -/
def kind : Mismatch → FailureKind
  | absent _ | absentValue _ => .missing
  | absentField .. => .missingField
  | otherKind .. => .typeMismatch
  | notLiteral .. => .invalidLiteral
  | notInSet .. => .invalidEnum
  | noBranch .. => .noMatchingBranch

/-- The wording of a cause. -/
def reason : Mismatch → CodeText
  | absent required => ("missing required " ++ required : String)
  | absentValue type => ("missing required value of type " ++ type : String)
  | absentField field schema =>
    ("missing required field '" ++ field ++ "' of " ++ schema : String)
  | otherKind expected actual => ("expected " ++ expected ++ ", got " ++ actual : String)
  | notLiteral value literal => (value ++ " is not the literal " ++ literal : String)
  | notInSet value literals => (value ++ " is not one of " ++ Quoted.ofStrings literals : String)
  | noBranch value attempts =>
    (value ++ " matches no branch: " : String) ++ CodeText.intercalate "; " attempts

end Mismatch

/-- A part that does not fit its type. -/
structure Failure where
  path : Path
  mismatch : Mismatch
deriving DecidableEq, Repr

/-- A failure as an attempt to fit a branch of a union. -/
def Failure.attempt (f : Failure) (branch : TypeExpr) : CodeText :=
  (branch.render ++ " (" : String) ++ f.path.render ++ ": " ++ f.mismatch.reason ++ ")"

/-- All failures of a value, in the order they were met. -/
structure Verdict where
  failures : List Failure
deriving DecidableEq, Repr

/-- The value fits: nothing failed. -/
def Verdict.valid (v : Verdict) : Bool := v.failures.isEmpty

end WidgetSchema
