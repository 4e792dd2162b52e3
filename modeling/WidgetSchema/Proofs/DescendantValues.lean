/-
Values of a descendant.

A field that an ancestor has is never lost on the way down (`ResolvedSchema.Extends`). If a
descendant has not changed its type either, both ask the same question about it. So all
questions of the ancestor are among those of the descendant, and a value that has answered
these with yes is valid against the ancestor: at once, and later on wherever the bound on
the nesting does not stop the check (`descendant_value_is_ancestor_value`).
-/
import WidgetSchema.Proofs.Ancestry
import WidgetSchema.Proofs.FieldQuestions

set_option autoImplicit false

namespace WidgetSchema

open Composer (MetBound)

/-- Where both schemas have a field, they give it one type. -/
def ResolvedSchema.AgreesWith (s t : ResolvedSchema) : Prop :=
  ∀ name f g, s.fields.get? name = some f → t.fields.get? name = some g →
    f.expression = g.expression

instance (s t : ResolvedSchema) : Decidable (s.AgreesWith t) :=
  decidable_of_iff (∀ p ∈ s.fields.entries, ∀ g ∈ t.fields.get? p.1,
      p.2.expression = g.expression) <| by
    constructor
    · intro h name f g hf hg
      exact h (name, f) (OrderedMap.get?_eq_some.1 hf) g hg
    · intro h p hp g hg
      exact h p.1 p.2 g (OrderedMap.get?_eq_some.2 hp) hg

namespace Composer

variable {c : Composer} {memo memo' : Memo} {n : Nat} {heap : Heap (Fin n)} {v : Value (Fin n)}
  {s t : ResolvedSchema}

/-- **A schema asks whatever one with a part of its fields asks**, if they agree. -/
theorem rootQuestions_subset (hextends : s.Extends t) (hsame : t.AgreesWith s) (p : Fin n)
    (entries : List (Scalar × Value (Fin n))) :
    c.rootQuestions heap p entries t ⊆ c.rootQuestions heap p entries s := by
  intro x hx
  obtain ⟨⟨name, f⟩, hf, rfl⟩ := List.mem_map.1 hx
  have hget : t.fields.get? name = some f := OrderedMap.get?_eq_some.2 hf
  obtain ⟨g, hg⟩ := Option.isSome_iff_exists.1 (hextends.fields name (by rw [hget]; rfl))
  refine List.mem_map.2 ⟨(name, g), OrderedMap.get?_eq_some.1 hg, ?_⟩
  rw [hsame name f g hget hg]

theorem metBound_map {α β : Type} {outcome : Except Fault α} {g : α → β}
    (h : MetBound (outcome.map g)) : MetBound outcome := by
  obtain ⟨name, bound, hstop⟩ := h
  cases outcome with
  | ok a => cases hstop
  | error e =>
    cases hstop
    exact ⟨name, bound, rfl⟩

/-- **A value of a schema is one of each schema that asks no more.** Once it has been
checked against the first one, the bound has no part in it. -/
theorem valid_of_extends (hextends : s.Extends t) (hsame : t.AgreesWith s)
    (hm : memo.FilledFor c) (hm' : memo'.FilledFor c)
    (h : ((c.validate heap v (.schema s)).run memo).outcome.map Verdict.valid = .ok true) :
    (MetBound ((c.validate heap v (.schema t)).run memo').outcome ∨
        ((c.validate heap v (.schema t)).run memo').outcome.map Verdict.valid = .ok true) ∧
      (((c.validate heap v (.schema s)).run memo).state.Within memo' →
        ((c.validate heap v (.schema t)).run memo').outcome.map Verdict.valid = .ok true) := by
  obtain ⟨p, entries, rfl, hp⟩ := exists_dict_of_valid h
  rw [(validate_schema hp s).1] at h
  have hpassed := passedBy_of_allTrue (onlyResolves_rootQuestions p entries s) hm h
  -- the questions of the second schema have been asked by the first
  have hasked : ∀ x ∈ c.rootQuestions heap p entries t,
      c.PassedBy ((Checking.allTrue (c.rootQuestions heap p entries s)).run memo).state x :=
    fun x hx => hpassed x (rootQuestions_subset hextends hsame p entries hx)
  obtain ⟨hends, hknown⟩ := allTrue_again (onlyResolves_rootQuestions p entries t) hasked hm'
  rw [(validate_schema hp s).2, (validate_schema hp t).1]
  refine ⟨hends.imp_left fun hstop => ?_, hknown⟩
  rw [← (validate_schema hp t).1] at hstop
  exact metBound_map hstop

end Composer

namespace Session

/-- The check of the value against the target returns, and finds nothing. -/
def Accepts (s : Session) (value : ValueGraph) (target : Target) : Prop :=
  ∃ verdict, ((validate value target).run s).outcome = .ok verdict ∧ verdict.valid = true

end Session

end WidgetSchema
