/-
Arguments and parameters.

Arguments go to the parameters in order, and a parameter without argument takes
its default. A default may mention the parameters before it, so it is read with
what they are bound to.
-/
import WidgetSchema.Definition.Basic
import WidgetSchema.Expr.Substitution

set_option autoImplicit false

namespace WidgetSchema

/-- The bindings of parameters on top of those made before, and the arguments with all defaults
filled in; the parameter that is left without a value, if one is. -/
def bindFrom (bindings : Bindings) :
    List GenericParameter → List TypeExpr → Except GenericParameter (Bindings × List TypeExpr)
  | [], _ => .ok (bindings, [])
  | p :: ps, arg :: args => do
    let (bindings, full) ← bindFrom ((p.name, arg) :: bindings) ps args
    .ok (bindings, arg :: full)
  | p :: ps, [] =>
    match p.default with
    | none => .error p
    | some e => do
      let arg := e.substitute bindings
      let (bindings, full) ← bindFrom ((p.name, arg) :: bindings) ps []
      .ok (bindings, arg :: full)

/-- The bindings that arguments make for a definition, and the complete
arguments. -/
def Definition.bind (d : Definition) (args : List TypeExpr) :
    Except SchemaError (Bindings × List TypeExpr) :=
  let expected := d.parameters.length
  if expected < args.length then .error (.arity d.name expected args.length none)
  else (bindFrom [] d.parameters args).mapError fun p =>
    .arity d.name expected args.length <| some <|
      "Type '" ++ d.name ++ "' requires an argument for parameter '" ++ p.name ++ "'"

end WidgetSchema
