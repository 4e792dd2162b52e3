/-
Substitution of parameters.

Bindings are a list of names and expressions in which the first entry of a name
counts. All references to bound names are replaced at once; the base of a
generic is a type and never a parameter, so it stays.
-/
import WidgetSchema.Expr.Basic

set_option autoImplicit false

namespace WidgetSchema

/-- Names bound to expressions; the first binding of a name counts. -/
abbrev Bindings := List (String × TypeExpr)

namespace TypeExpr

mutual
/-- Replaces every reference to a bound name by its expression. -/
def substitute (bindings : Bindings) : TypeExpr → TypeExpr
  | reference name => (bindings.lookup name).getD (reference name)
  | generic base args => generic base (substituteAll bindings args)
  | union members => union (substituteAll bindings members)
  | intersection members => intersection (substituteAll bindings members)
  | optional inner => optional (substitute bindings inner)
  | sequence inner => sequence (substitute bindings inner)
  | mapping inner => mapping (substitute bindings inner)
  | primitive name => primitive name
  | literal text => literal text
  | enumSet values => enumSet values

/-- Replaces the bound names in each expression of a list. -/
def substituteAll (bindings : Bindings) : List TypeExpr → List TypeExpr
  | [] => []
  | e :: es => substitute bindings e :: substituteAll bindings es
end

@[simp] theorem substituteAll_eq (bindings : Bindings) (es : List TypeExpr) :
    substituteAll bindings es = es.map (substitute bindings) := by
  induction es with
  | nil => rfl
  | cons e es ih => simp [substituteAll, ih]

mutual
/-- Without bindings nothing is replaced. -/
theorem substitute_nil : (e : TypeExpr) → substitute [] e = e
  | primitive _ | literal _ | enumSet _ => by simp [substitute]
  | reference name => by simp [substitute]
  | generic base args => by
    simp only [substitute, substituteAll_nil args]
  | union members => by simp only [substitute, substituteAll_nil members]
  | intersection members => by simp only [substitute, substituteAll_nil members]
  | optional inner => by simp only [substitute, substitute_nil inner]
  | sequence inner => by simp only [substitute, substitute_nil inner]
  | mapping inner => by simp only [substitute, substitute_nil inner]

theorem substituteAll_nil : (es : List TypeExpr) → substituteAll [] es = es
  | [] => by simp only [substituteAll]
  | e :: es => by simp only [substituteAll, substitute_nil e, substituteAll_nil es]
end

end TypeExpr

end WidgetSchema
