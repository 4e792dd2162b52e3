/-
Type expressions.

An expression is a finite tree over ten kinds of nodes. Names are kept as they
were written: whether a reference means a registered type or a parameter is
settled by whoever resolves it. Nothing is demanded of a tree here, so an
expression that no text denotes, such as a union without members, is still a
tree that can be compared and written.

Equality of expressions is equality of trees. It is decided by `same`, by
recursion over both trees at once.
-/
import WidgetSchema.Expr.LiteralSet

set_option autoImplicit false

namespace WidgetSchema

/-- A type expression. -/
inductive TypeExpr where
  /-- A built-in scalar kind. -/
  | primitive (name : String)
  /-- A named type or a generic parameter. -/
  | reference (name : String)
  /-- One text literal. -/
  | literal (text : String)
  /-- One of several text literals. -/
  | enumSet (values : LiteralSet)
  /-- At least one of the members. -/
  | union (members : List TypeExpr)
  /-- All of the members. -/
  | intersection (members : List TypeExpr)
  /-- The inner type or nothing. -/
  | optional (inner : TypeExpr)
  /-- An ordered list of inner values. -/
  | sequence (inner : TypeExpr)
  /-- A dictionary with arbitrary keys and inner values. -/
  | mapping (inner : TypeExpr)
  /-- A generic type applied to arguments. -/
  | generic (base : String) (args : List TypeExpr)
deriving Inhabited

/-- The names of the built-in scalar kinds. -/
def primitiveNames : List String := ["boolean", "number", "string", "none"]

/-- A name that stands for a built-in scalar kind and so for no registered type. -/
def isPrimitiveName (name : String) : Bool := primitiveNames.contains name

namespace TypeExpr

/-! ## Equality -/

mutual
/-- Both trees are the same. -/
def same : TypeExpr → TypeExpr → Bool
  | primitive a, primitive b => a == b
  | reference a, reference b => a == b
  | literal a, literal b => a == b
  | enumSet a, enumSet b => a == b
  | union as, union bs => sameAll as bs
  | intersection as, intersection bs => sameAll as bs
  | optional a, optional b => same a b
  | sequence a, sequence b => same a b
  | mapping a, mapping b => same a b
  | generic a as, generic b bs => a == b && sameAll as bs
  | _, _ => false

/-- Both lists hold the same trees in the same order. -/
def sameAll : List TypeExpr → List TypeExpr → Bool
  | [], [] => true
  | a :: as, b :: bs => same a b && sameAll as bs
  | _, _ => false
end

mutual
theorem eq_of_same : (a b : TypeExpr) → same a b = true → a = b
  | primitive _, b, h => by cases b <;> simp_all [same]
  | reference _, b, h => by cases b <;> simp_all [same]
  | literal _, b, h => by cases b <;> simp_all [same]
  | enumSet _, b, h => by cases b <;> simp_all [same]
  | union as, b, h => by
    cases b <;> simp only [same, Bool.false_eq_true] at h
    exact congrArg union (eq_of_sameAll as _ h)
  | intersection as, b, h => by
    cases b <;> simp only [same, Bool.false_eq_true] at h
    exact congrArg intersection (eq_of_sameAll as _ h)
  | optional a, b, h => by
    cases b <;> simp only [same, Bool.false_eq_true] at h
    exact congrArg optional (eq_of_same a _ h)
  | sequence a, b, h => by
    cases b <;> simp only [same, Bool.false_eq_true] at h
    exact congrArg sequence (eq_of_same a _ h)
  | mapping a, b, h => by
    cases b <;> simp only [same, Bool.false_eq_true] at h
    exact congrArg mapping (eq_of_same a _ h)
  | generic base as, b, h => by
    cases b <;> simp only [same, Bool.false_eq_true, Bool.and_eq_true, beq_iff_eq] at h
    rw [h.1, eq_of_sameAll as _ h.2]

theorem eq_of_sameAll : (as bs : List TypeExpr) → sameAll as bs = true → as = bs
  | [], bs, h => by cases bs <;> simp_all [sameAll]
  | a :: as, bs, h => by
    cases bs <;> simp only [sameAll, Bool.false_eq_true, Bool.and_eq_true] at h
    rw [eq_of_same a _ h.1, eq_of_sameAll as _ h.2]
end

mutual
theorem same_self : (a : TypeExpr) → same a a = true
  | primitive _ | reference _ | literal _ | enumSet _ => by simp [same]
  | union as => by simpa only [same] using sameAll_self as
  | intersection as => by simpa only [same] using sameAll_self as
  | optional a => by simpa only [same] using same_self a
  | sequence a => by simpa only [same] using same_self a
  | mapping a => by simpa only [same] using same_self a
  | generic _ as => by simpa only [same, beq_self_eq_true, Bool.true_and] using sameAll_self as

theorem sameAll_self : (as : List TypeExpr) → sameAll as as = true
  | [] => by simp [sameAll]
  | a :: as => by simp only [sameAll, same_self a, sameAll_self as, Bool.and_self]
end

/-- **The comparison is equality of trees.** -/
theorem same_iff {a b : TypeExpr} : same a b = true ↔ a = b :=
  ⟨eq_of_same a b, fun h => h ▸ same_self a⟩

instance : DecidableEq TypeExpr := fun a b =>
  if h : same a b = true then .isTrue (same_iff.1 h) else .isFalse fun e => h (same_iff.2 e)

/-! ## Names -/

mutual
/-- Every type name an expression mentions, from left to right; the base of a
generic comes before the names in its arguments. -/
def references : TypeExpr → List String
  | reference name => [name]
  | generic base args => base :: referencesAll args
  | union members | intersection members => referencesAll members
  | optional inner | sequence inner | mapping inner => references inner
  | primitive _ | literal _ | enumSet _ => []

/-- Every type name the expressions of a list mention. -/
def referencesAll : List TypeExpr → List String
  | [] => []
  | e :: es => references e ++ referencesAll es
end

theorem referencesAll_eq (es : List TypeExpr) : referencesAll es = es.flatMap references := by
  induction es with
  | nil => rfl
  | cons e es ih => simp [referencesAll, ih]

/-! ## Shape -/

/-- The parts of an expression, from left to right. -/
def parts : TypeExpr → List TypeExpr
  | primitive _ | reference _ | literal _ | enumSet _ => []
  | optional e | sequence e | mapping e => [e]
  | union es | intersection es | generic _ es => es

/-- The expression names one type, with or without arguments. -/
def isTypeName : TypeExpr → Bool
  | reference _ | generic _ _ => true
  | _ => false

/-- The expression can only denote a composition of struct types: it is a type
name or an intersection of type names. -/
def isStructShaped : TypeExpr → Bool
  | intersection members => members.all isTypeName
  | e => e.isTypeName

/-- The operands of an intersection; any other expression is its only operand. -/
def operands : TypeExpr → List TypeExpr
  | intersection members => members
  | e => [e]

end TypeExpr

end WidgetSchema
