/-
References replaced at once, and replaced again.

A replacement looks at an expression and never at what it puts in. Two replacements, one after
the other, are therefore one, by bindings in which what the first ones bind has been replaced by
the second ones, and which bind all else as the second ones do (`Bindings.Composes`). Only what
each name is bound to counts, and in which order or how often it is listed does not.

A name is mentioned in one of two ways (`Mention`): by a reference, which makes way for what its
name is bound to, or as the base of a generic, which is a type and stays. Seen in this way the
names of an expression say which names are mentioned afterwards, in order and with repetitions
(`references_substitute`).
-/
import WidgetSchema.Proofs.MentionedNames
import WidgetSchema.Proofs.SpecializedArguments

set_option autoImplicit false

namespace WidgetSchema

/-! ## Two replacements -/

/-- Replacing by `b` and then by `c` gives each name what `d` binds it to. -/
structure Bindings.Composes (b c d : Bindings) : Prop where
  bound : ∀ name e, b.lookup name = some e → d.lookup name = some (e.substitute c)
  unbound : ∀ name, b.lookup name = none → d.lookup name = c.lookup name

/-- There are such bindings: what the first ones bind is replaced, and the second ones stand
behind them. -/
theorem Bindings.composes_append (b c : Bindings) : b.Composes c (b.substitute c ++ c) where
  bound name e h := by
    rw [List.lookup_append, lookup_substitute, h, Option.map_some, Option.some_or]
  unbound name h := by
    rw [List.lookup_append, lookup_substitute, h, Option.map_none, Option.none_or]

/-- All such bindings bind alike. -/
theorem Bindings.Composes.lookup_eq {b c d d' : Bindings} (h : b.Composes c d)
    (h' : b.Composes c d') (name : String) : d.lookup name = d'.lookup name := by
  cases hb : b.lookup name with
  | none => rw [h.unbound name hb, h'.unbound name hb]
  | some e => rw [h.bound name e hb, h'.bound name e hb]

/-! ## Ways to mention a name -/

/-- How an expression mentions a name. -/
inductive Mention where
  /-- By a reference, which stands for a type or a parameter. -/
  | reference (name : String)
  /-- As the base of a generic, which is a type. -/
  | base (name : String)
deriving DecidableEq

namespace Mention

/-- The name that is mentioned. -/
def name : Mention → String
  | reference name | base name => name

/-- The names that stand there once bound names are replaced. -/
def replaced (bindings : Bindings) : Mention → List String
  | reference name => (bindings.lookup name).elim [name] TypeExpr.references
  | base name => [name]

end Mention

namespace TypeExpr

mutual
/-- Every name an expression mentions, from left to right, and how. -/
def mentions : TypeExpr → List Mention
  | reference name => [.reference name]
  | generic base args => .base base :: mentionsAll args
  | union members | intersection members => mentionsAll members
  | optional inner | sequence inner | mapping inner => mentions inner
  | primitive _ | literal _ | enumSet _ => []

/-- Every name the expressions of a list mention, and how. -/
def mentionsAll : List TypeExpr → List Mention
  | [] => []
  | e :: es => mentions e ++ mentionsAll es
end

mutual
/-- These are the names that an expression refers to. -/
theorem map_name_mentions : (e : TypeExpr) → e.mentions.map Mention.name = e.references
  | primitive _ | literal _ | enumSet _ => by rw [mentions, references, List.map_nil]
  | reference name => by
    rw [mentions, references, List.map_singleton, Mention.name]
  | generic base args => by
    rw [mentions, references, List.map_cons, Mention.name, map_name_mentionsAll args]
  | union members | intersection members => by
    rw [mentions, references, map_name_mentionsAll members]
  | optional inner | sequence inner | mapping inner => by
    rw [mentions, references, map_name_mentions inner]

theorem map_name_mentionsAll :
    (es : List TypeExpr) → (mentionsAll es).map Mention.name = referencesAll es
  | [] => by rw [mentionsAll, referencesAll, List.map_nil]
  | e :: es => by
    rw [mentionsAll, referencesAll, List.map_append, map_name_mentions e, map_name_mentionsAll es]
end

mutual
/-- **What is mentioned after a replacement**: the names of what a reference is bound to where
there was one, and all other names where they were. -/
theorem references_substitute (b : Bindings) :
    (e : TypeExpr) → (e.substitute b).references = e.mentions.flatMap (Mention.replaced b)
  | primitive _ | literal _ | enumSet _ => by
    rw [substitute, references, mentions, List.flatMap_nil]
  | reference name => by
    rw [substitute, mentions, List.flatMap_singleton, Mention.replaced]
    cases b.lookup name with
    | none => rw [Option.getD_none, Option.elim_none, references]
    | some e => rw [Option.getD_some, Option.elim_some]
  | generic base args => by
    rw [substitute, references, mentions, List.flatMap_cons, Mention.replaced,
      List.singleton_append, references_substituteAll b args]
  | union members | intersection members => by
    rw [substitute, references, mentions, references_substituteAll b members]
  | optional inner | sequence inner | mapping inner => by
    rw [substitute, references, mentions, references_substitute b inner]

theorem references_substituteAll (b : Bindings) :
    (es : List TypeExpr) →
      referencesAll (substituteAll b es) = (mentionsAll es).flatMap (Mention.replaced b)
  | [] => by rw [substituteAll, referencesAll, mentionsAll, List.flatMap_nil]
  | e :: es => by
    rw [substituteAll, referencesAll, mentionsAll, List.flatMap_append, references_substitute b e,
      references_substituteAll b es]
end

/-- **Replacements are simultaneous and compose.** Let `d` bind each name that `b` binds to
what `c` makes of it, and every other name as `c` does. Replacing by `b` and then by `c` is
replacing by `d`. And of the names that an expression refers to, a replacement exchanges each
one that stems from a reference to a bound name for the names of what it is bound to, and
leaves all others alone, the bases of generics among them. -/
theorem replaced_at_once (e : TypeExpr) (b c d : Bindings) (hd : b.Composes c d) :
    (e.substitute b).substitute c = e.substitute d ∧
      e.references = e.mentions.map Mention.name ∧
      (e.substitute b).references = e.mentions.flatMap (Mention.replaced b) := by
  refine ⟨?_, (map_name_mentions e).symm, references_substitute b e⟩
  have halike (name : String) := (Bindings.composes_append b c).lookup_eq hd name
  rw [substitute_substitute]
  exact substitute_congr [] (fun name _ => halike name) e fun name _ => halike name

/-- A generic over its own parameter, whose argument is bound to something with a name that is
replaced in turn. -/
def ownParameter : TypeExpr :=
  union [generic "T" [reference "T", optional (reference "U")], sequence (reference "T")]

/-- The base stays, and `U` is replaced where it was put in for `T`, but `T` is not put in
again where `U` is replaced. -/
theorem ownParameter_replaced :
    let b : Bindings := [("T", generic "List" [reference "U"])]
    let c : Bindings := [("U", mapping (reference "T")), ("T", reference "V")]
    (ownParameter.substitute b).substitute c = ownParameter.substitute (b.substitute c ++ c) ∧
      ((ownParameter.substitute b).substitute c).render = "T(List(<T>),<T>?)|[List(<T>)]" ∧
      ownParameter.references = ["T", "T", "U", "T"] ∧
      (ownParameter.substitute b).references = ["T", "List", "U", "U", "List", "U"] := by
  intro b c
  obtain ⟨htwice, hbefore, hafter⟩ :=
    replaced_at_once ownParameter b c _ (Bindings.composes_append b c)
  refine ⟨htwice, ?_, hbefore.trans (by decide), hafter.trans (by decide)⟩
  rw [htwice]
  decide

end TypeExpr

end WidgetSchema
