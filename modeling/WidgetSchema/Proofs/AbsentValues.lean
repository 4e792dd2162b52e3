/-
Two judgements on absence.

A name of an alias is unfolded until it leads to a struct or to a type that is no
name (`Unfolds`). Both judgements on an absent value, the test of the composer and
the check, unfold names alike, and then look at what they lead to:

* the check accepts an optional type and the empty kind and refuses all others;
* the test accepts these two as well, and it looks into unions and intersections,
  which the check refuses before their members are looked at. Names it tells apart
  by their texts, and it takes a text that it meets again for a cycle.

So they disagree on operators with members that admit absence, and where two types
on the way share a text (`absence_judgements`).
-/
import WidgetSchema.Proofs.VerdictMeaning

set_option autoImplicit false

namespace WidgetSchema

namespace Resolved

/-- An optional type or the empty kind. -/
def TakesAbsence : Resolved → Prop
  | expression (.optional _) => True
  | expression (.primitive kind) => kind = "none"
  | _ => False

/-- A union or an intersection. -/
def IsOperator : Resolved → Prop
  | expression (.union _) | expression (.intersection _) => True
  | _ => False

theorem TakesAbsence.not_isOperator {r : Resolved} (h : r.TakesAbsence) : ¬ r.IsOperator := by
  intro hop
  cases r with
  | schema s => exact h
  | expression e => cases e <;> first | exact h | exact hop

end Resolved

namespace Composer

variable {c : Composer} {P : Memo → Prop} {Good : TypeExpr → Prop} {E : Fault → Prop}

/-! ## What a name leads to -/

/-- The names met on the way from an expression, with the expression itself if it is
a name, and what they lead to. -/
inductive Unfolds (c : Composer) : TypeExpr → List TypeExpr → Resolved → Prop
  | plain {e : TypeExpr} (he : e.instantiation? = none) : Unfolds c e [] (.expression e)
  | struct {e : TypeExpr} {i : Instantiation} {s : ResolvedSchema}
      (hi : e.instantiation? = some i) (hr : c.Denotes i (.schema s)) :
      Unfolds c e [e] (.schema s)
  | next {e e' : TypeExpr} {i : Instantiation} {chain : List TypeExpr} {r : Resolved}
      (hi : e.instantiation? = some i) (hr : c.Denotes i (.expression e'))
      (h : Unfolds c e' chain r) : Unfolds c e (e :: chain) r

namespace Unfolds

variable {e e' : TypeExpr} {chain chain' : List TypeExpr} {r r' : Resolved}

theorem unique (h : c.Unfolds e chain r) (h' : c.Unfolds e chain' r') :
    chain = chain' ∧ r = r' := by
  induction h generalizing chain' r' with
  | plain he =>
    cases h' with
    | plain _ => exact ⟨rfl, rfl⟩
    | struct hi _ | next hi _ _ =>
      rw [he] at hi
      cases hi
  | struct hi hr =>
    cases h' with
    | plain he =>
      rw [hi] at he
      cases he
    | struct hi' hr' =>
      rw [hi] at hi'
      cases hi'
      cases hr.unique hr'
      exact ⟨rfl, rfl⟩
    | next hi' hr' _ =>
      rw [hi] at hi'
      cases hi'
      cases hr.unique hr'
  | next hi hr _ ih =>
    cases h' with
    | plain he =>
      rw [hi] at he
      cases he
    | struct hi' hr' =>
      rw [hi] at hi'
      cases hi'
      cases hr.unique hr'
    | next hi' hr' h' =>
      rw [hi] at hi'
      cases hi'
      cases hr.unique hr'
      obtain ⟨rfl, rfl⟩ := ih h'
      exact ⟨rfl, rfl⟩

/-- From a name on the way the rest of the way leads on. -/
theorem from_mem (h : c.Unfolds e chain r) (hmem : e' ∈ chain) :
    ∃ rest, c.Unfolds e' rest r ∧ rest.length ≤ chain.length := by
  induction h with
  | plain he => cases hmem
  | struct hi hr =>
    obtain rfl := List.mem_singleton.1 hmem
    exact ⟨_, .struct hi hr, Nat.le_refl _⟩
  | next hi hr h ih =>
    rcases List.mem_cons.1 hmem with rfl | hmem
    · exact ⟨_, .next hi hr h, Nat.le_refl _⟩
    · obtain ⟨rest, hrest, hlen⟩ := ih hmem
      exact ⟨rest, hrest, Nat.le_succ_of_le hlen⟩

/-- **No name is met twice on the way**, since it would lead on for ever. -/
theorem nodup (h : c.Unfolds e chain r) : chain.Nodup := by
  induction h with
  | plain he => exact List.nodup_nil
  | struct hi hr => exact List.nodup_cons.2 ⟨List.not_mem_nil, List.nodup_nil⟩
  | next hi hr h ih =>
    refine List.nodup_cons.2 ⟨fun hmem => ?_, ih⟩
    -- from its second place the same way would start again, and it is shorter
    obtain ⟨rest, hrest, hlen⟩ := h.from_mem hmem
    have hsame := (unique hrest (.next hi hr h)).1
    rw [hsame, List.length_cons] at hlen
    omega

end Unfolds

/-! ## The judgement of the test -/

/-- The types of a list have different texts, and none of them is in `seen`. -/
def FreshTexts (seen : List String) (chain : List TypeExpr) : Prop :=
  (chain.map TypeExpr.render).Nodup ∧ ∀ e ∈ chain, e.render ∉ seen

theorem freshTexts_cons {seen : List String} {e : TypeExpr} {chain : List TypeExpr} :
    FreshTexts seen (e :: chain) ↔ e.render ∉ seen ∧ FreshTexts (e.render :: seen) chain := by
  have hmem : e.render ∈ chain.map TypeExpr.render ↔ ∃ e' ∈ chain, e'.render = e.render :=
    List.mem_map
  rw [FreshTexts, FreshTexts, List.map_cons, List.nodup_cons, List.forall_mem_cons, hmem]
  simp only [List.mem_cons, not_or]
  constructor
  · rintro ⟨⟨hnew, hnodup⟩, he, hrest⟩
    exact ⟨he, hnodup, fun e' he' => ⟨fun heq => hnew ⟨e', he', heq⟩, hrest e' he'⟩⟩
  · rintro ⟨he, hnodup, hrest⟩
    refine ⟨⟨?_, hnodup⟩, he, fun e' he' => (hrest e' he').2⟩
    rintro ⟨e', he', heq⟩
    exact (hrest e' he').1 heq

/-- What the test says of a type that unfolds to `r`. -/
def TestAnswers (seen : List String) (chain : List TypeExpr) (r : Resolved) (b : Bool) : Prop :=
  (b = true → FreshTexts seen chain ∧ (r.TakesAbsence ∨ r.IsOperator)) ∧
    (FreshTexts seen chain → r.TakesAbsence → b = true)

theorem absentFits_name {named : TypeExpr → Asking} {e : TypeExpr} {i : Instantiation}
    (hi : e.instantiation? = some i) : absentFits named e = named e := by
  cases e with
  | reference | generic => rw [absentFits]
  | _ => cases hi

/-- A type that is no name is judged by its outermost part; only the answer for an
operator depends on what stands inside. -/
theorem absentFits_plain_yields (h : c.Contract P Good E) (steps : Nat) (seen : List String)
    {e : TypeExpr} (he : e.instantiation? = none) (hgood : Good e) :
    (absentFits (c.absentFitsName steps seen) e).Yields P
      (TestAnswers seen [] (.expression e)) (GivesUpOr E) := by
  have hfresh : FreshTexts seen [] := ⟨List.nodup_nil, fun e he => absurd he List.not_mem_nil⟩
  have hnamed := absentFitsName_yields h steps seen
  cases e with
  | reference | generic => cases he
  | optional | primitive | literal | enumSet | sequence | mapping =>
    rw [absentFits]
    refine Action.yields_pure ?_
    simp [TestAnswers, hfresh, Resolved.TakesAbsence, Resolved.IsOperator]
  | union members =>
    rw [absentFits]
    refine (absentFitsSome_yields h.parts hnamed members (h.parts _ hgood)).imp fun b _ => ?_
    exact ⟨fun _ => ⟨hfresh, .inr trivial⟩, fun _ hf => hf.elim⟩
  | intersection members =>
    rw [absentFits]
    refine (absentFitsEach_yields h.parts hnamed members (h.parts _ hgood)).imp fun b _ => ?_
    exact ⟨fun _ => ⟨hfresh, .inr trivial⟩, fun _ hf => hf.elim⟩

/-- A name whose text was seen is refused, and all that matters otherwise is what it denotes. -/
theorem absentFitsName_answers (h : c.Contract P Good E) {e : TypeExpr} {i : Instantiation}
    {rest : List TypeExpr} {r t : Resolved} {steps : Nat} {seen : List String}
    (hi : e.instantiation? = some i) (hgood : Good e) (hr : c.Denotes i r)
    (hbody : ∀ steps, r.All Good → (match r with
      | .schema _ => return false
      | .expression e' =>
        absentFits (c.absentFitsName steps (e.render :: seen)) e' : Asking).Yields P
        (TestAnswers (e.render :: seen) rest t) (GivesUpOr E)) :
    (c.absentFitsName steps seen e).Yields P (TestAnswers seen (e :: rest) t)
      (GivesUpOr E) := by
  -- a text that was seen is answered with no, and such names are not fresh
  have hseen (hmem : e.render ∈ seen) : TestAnswers seen (e :: rest) t false :=
    ⟨nofun, fun hfresh => absurd hmem (freshTexts_cons.1 hfresh).1⟩
  cases steps with
  | zero =>
    rw [absentFitsName]
    split
    · next hmem => exact Action.yields_pure (hseen hmem)
    · exact Action.yields_fail (.inr ⟨_, rfl⟩)
  | succ steps =>
    rw [absentFitsName]
    split
    · next hmem => exact Action.yields_pure (hseen hmem)
    · next hmem =>
      have hresolve : ((c.resolveExpression e).mapError Fault.schema).Yields P _ (GivesUpOr E) :=
        (h.resolveExpression hi hgood).allow fun _ => .inl
      refine hresolve.bind fun r' hr' => ?_
      obtain ⟨hdenotes, hall⟩ := hr'
      cases hr.unique hdenotes
      refine (hbody steps hall).imp fun b hb => ?_
      exact ⟨fun htrue => ⟨freshTexts_cons.2 ⟨hmem, (hb.1 htrue).1⟩, (hb.1 htrue).2⟩,
        fun hfresh => hb.2 (freshTexts_cons.1 hfresh).2⟩

/-- **The test follows the unfolding**, by induction on it. -/
theorem absentFits_answers (h : c.Contract P Good E) {e : TypeExpr} {chain : List TypeExpr}
    {r : Resolved} (hu : c.Unfolds e chain r) (hgood : Good e) (steps : Nat)
    (seen : List String) :
    (absentFits (c.absentFitsName steps seen) e).Yields P (TestAnswers seen chain r)
      (GivesUpOr E) := by
  induction hu generalizing steps seen with
  | plain he => exact absentFits_plain_yields h steps seen he hgood
  | struct hi hr =>
    rw [absentFits_name hi]
    refine absentFitsName_answers h hi hgood hr fun _ _ => ?_
    exact Action.yields_pure ⟨nofun, fun _ hf => hf.elim⟩
  | next hi hr _ ih =>
    rw [absentFits_name hi]
    exact absentFitsName_answers h hi hgood hr fun steps hall => ih hall steps _

end Composer

/-! ## The judgement of the check -/

namespace Checking

open Composer (Contract)

variable {n : Nat} {c : Composer} {heap : Heap (Fin n)} {P : Memo → Prop}
  {Good : TypeExpr → Prop} {E : Fault → Prop}

/-- What is left of the check where the value is absent. -/
def checkAbsent (path : Path) (named : TypeExpr → Check) :
    TypeExpr → Action Fault Memo (List Failure)
  | .optional _ => fits
  | .primitive kind => if kind = "none" then fits else refuse path (.absent kind)
  | .reference name => named (.reference name)
  | .generic base args => named (.generic base args)
  | e => refuse path (.absentValue e.render)

/-- What is left of the check of a name. -/
def checkAbsentNamed (c : Composer) (path : Path) :
    (depth : Nat) → TypeExpr → Action Fault Memo (List Failure)
  | 0, e => .fail (.schema (.resolutionDepth e.render c.maxDepth))
  | depth + 1, e => do
    match ← (c.resolveExpression e).mapError Fault.schema with
    | .schema schema => refuse path (.absent schema.label)
    | .expression e' => checkAbsent path (checkAbsentNamed c path depth) e'

theorem checkHere_of_absent {s : Site n} {named : TypeExpr → Check}
    (h : s.value.isAbsent = true) (e : TypeExpr) :
    checkHere s named e = checkAbsent s.path named e := by
  cases e <;> simp [checkHere, checkAbsent, checkPrimitive, Site.present, h]

theorem checkStruct_of_absent {part : PartCheck n} {active : List (Fin n)} {path : Path}
    {v : Value (Fin n)} (h : v.isAbsent = true) (schema : ResolvedSchema) :
    checkStruct c heap part active path v schema = refuse path (.absent schema.label) := by
  cases v with
  | container p => cases h
  | atom a =>
    have ha : a.isAbsent = true := h
    simp [checkStruct, ha]

theorem checkNamed_of_absent {s : Site n} {struct : ResolvedSchema → Check}
    (h : s.value.isAbsent = true)
    (hstruct : ∀ schema, struct schema = refuse s.path (.absent schema.label)) (depth : Nat)
    (e : TypeExpr) : checkNamed c s struct depth e = checkAbsentNamed c s.path depth e := by
  induction depth generalizing e with
  | zero => rw [checkNamed, checkAbsentNamed]
  | succ depth ih =>
    rw [checkNamed, checkAbsentNamed]
    congr 1
    funext r
    cases r with
    | schema schema => exact hstruct schema
    | expression e' =>
      dsimp only
      rw [checkHere_of_absent h, funext ih]

/-- **The check of an absent value depends on its type and its path alone**: not on
which absent value it is, nor on what stands around it. -/
theorem checkExpr_of_absent {part : PartCheck n} {active : List (Fin n)} {path : Path}
    {v : Value (Fin n)} (h : v.isAbsent = true) (e : TypeExpr) :
    checkExpr c heap part active path v e =
      checkAbsent path (checkAbsentNamed c path c.maxDepth) e := by
  unfold checkExpr
  rw [checkHere_of_absent h, funext (checkNamed_of_absent h (checkStruct_of_absent h) _)]

/-- The failures say whether what the expression leads to takes absence. -/
def JudgesAbsence (c : Composer) (e : TypeExpr) (failures : List Failure) : Prop :=
  ∃ chain r, c.Unfolds e chain r ∧ (failures = [] ↔ r.TakesAbsence)

theorem checkAbsent_yields {path : Path} {named : TypeExpr → Check} (e : TypeExpr)
    (hnamed : ∀ i, e.instantiation? = some i → (named e).Yields P (JudgesAbsence c e) E) :
    (checkAbsent path named e).Yields P (JudgesAbsence c e) E := by
  cases e with
  | reference | generic => exact hnamed _ rfl
  | optional inner => exact fits_yields ⟨_, _, .plain rfl, iff_of_true rfl trivial⟩
  | primitive kind =>
    rw [checkAbsent]
    split
    · next hkind => exact fits_yields ⟨_, _, .plain rfl, iff_of_true rfl hkind⟩
    · next hkind => exact refuse_yields ⟨_, _, .plain rfl, iff_of_false nofun hkind⟩
  | literal | enumSet | sequence | mapping | union | intersection =>
    exact refuse_yields ⟨_, _, .plain rfl, iff_of_false nofun id⟩

/-- **The check follows the unfolding**, by induction on the names that may still be unfolded. -/
theorem checkAbsentNamed_yields (h : c.Contract P Good E) (path : Path) (depth : Nat)
    {e : TypeExpr} {i : Instantiation} (hi : e.instantiation? = some i) (hgood : Good e) :
    (checkAbsentNamed c path depth e).Yields P (JudgesAbsence c e) E := by
  induction depth generalizing e i with
  | zero =>
    rw [checkAbsentNamed]
    exact Action.yields_fail (h.depth _ _)
  | succ depth ih =>
    rw [checkAbsentNamed]
    refine (h.resolveExpression hi hgood).bind fun r hr => ?_
    obtain ⟨hdenotes, hall⟩ := hr
    cases r with
    | schema schema =>
      exact refuse_yields ⟨_, _, .struct hi hdenotes, iff_of_false nofun id⟩
    | expression e' =>
      refine (checkAbsent_yields e' fun i' hi' => ih hi' hall).imp fun failures hjudged => ?_
      obtain ⟨chain, r, hu, hfailures⟩ := hjudged
      exact ⟨_, r, .next hi hdenotes hu, hfailures⟩

theorem checkExpr_absent_yields (h : c.Contract P Good E) {part : PartCheck n}
    {active : List (Fin n)} {path : Path} {v : Value (Fin n)} (hv : v.isAbsent = true)
    {e : TypeExpr} (he : Good e) :
    (checkExpr c heap part active path v e).Yields P (JudgesAbsence c e) E := by
  rw [checkExpr_of_absent hv]
  exact checkAbsent_yields e fun i hi => checkAbsentNamed_yields h path _ hi he

end Checking

end WidgetSchema
