/-
Where an absent value stands does matter.

As the whole value, as an item of a sequence and as a value of a mapping an absent
value is judged by the check; as a field of a struct it is judged by the test for
absence. `absence_judgements` says what each of them depends on, and so in which
types the places differ: in unions and intersections with members that admit
absence, and in names that share a text on their way.
-/
import Mathlib.Data.List.Nodup
import WidgetSchema.Proofs.AbsentValues

set_option autoImplicit false

namespace WidgetSchema

/-- The type of containers of this kind with parts of one type. -/
def Container.typeOver {A : Type} (e : TypeExpr) : Container A → TypeExpr
  | list _ | tuple _ => .sequence e
  | dict _ => .mapping e

namespace ValueGraph

/-- The value is a container with parts, all of them absent. -/
def HoldsAbsence (value : ValueGraph) (p : Fin value.size) : Prop :=
  value.root = .container p ∧ (value.heap p).parts ≠ [] ∧
    ∀ part ∈ (value.heap p).parts, part.isAbsent = true

/-- The value is a dictionary in which a field is absent or not there at all. -/
def LacksField (value : ValueGraph) (name : String) : Prop :=
  ∃ p entries, value.root = .container p ∧ value.heap p = .dict entries ∧
    ((Container.entry? entries name).getD (.atom .missing)).isAbsent = true

end ValueGraph

namespace Checking

open Composer (Contract)

variable {n : Nat} {c : Composer} {heap : Heap (Fin n)} {P : Memo → Prop}
  {Good : TypeExpr → Prop} {E : Fault → Prop} {e : TypeExpr} {chain : List TypeExpr}
  {r : Resolved}

/-! ## Containers of absent values -/

theorem checkPart_absent_yields (h : c.Contract P Good E) (hu : c.Unfolds e chain r)
    (he : Good e) (room : Nat) (active : List (Fin n)) (path : Path) (v : Value (Fin n))
    (hv : v.isAbsent = true) :
    (checkPart c heap room active path v e).Yields P (· = [] ↔ r.TakesAbsence) E := by
  cases room with
  | zero =>
    rw [checkPart]
    exact Action.yields_fail (h.cyclic _)
  | succ room =>
    rw [checkPart]
    refine (checkExpr_absent_yields h hv he).imp fun failures hjudged => ?_
    obtain ⟨chain', r', hu', hfailures⟩ := hjudged
    obtain ⟨-, rfl⟩ := hu.unique hu'
    exact hfailures

/-- One element is enough to ask for what does not depend on it. -/
theorem forall_mem_const {α : Type} {xs : List α} {p : Prop} (hne : xs ≠ []) :
    (∀ x ∈ xs, p) ↔ p := by
  obtain ⟨x, hx⟩ := List.exists_mem_of_ne_nil xs hne
  exact ⟨fun h => h x hx, fun hp _ _ => hp⟩

/-- **Items and values of mappings are judged as the value by itself is.** -/
theorem checkRoot_parts_yields (h : c.Contract P Good E) (hu : c.Unfolds e chain r) (he : Good e)
    {p : Fin n} (hne : (heap p).parts ≠ [])
    (habsent : ∀ w ∈ (heap p).parts, w.isAbsent = true)
    (hlong : (Value.container p).HoldsLong heap → E .tooManyDigits) :
    (checkRoot c heap (.container p) (.expression ((heap p).typeOver e))).Yields P
      (· = [] ↔ r.TakesAbsence) E := by
  have hpart : ∀ path, ∀ v ∈ (heap p).parts, (checkPart c heap n [p] path v e).Yields P
      (fun failures => True → (failures = [] ↔ r.TakesAbsence)) E := fun path v hv =>
    (checkPart_absent_yields h hu he n [p] path v (habsent v hv)).imp fun _ hjudged _ => hjudged
  have hitems (items : List (Value (Fin n))) (hparts : (heap p).parts = items) :
      (checkItems (checkPart c heap n [p]) .root e 0 items).Yields P
        (· = [] ↔ r.TakesAbsence) E := by
    rw [hparts] at hne hpart
    refine (checkItems_yields .root 0 hpart).imp fun failures hfailures => ?_
    rw [hfailures fun _ _ => trivial]
    exact forall_mem_const hne
  cases hp : heap p with
  | list items =>
    simp only [checkRoot, checkExpr, Container.typeOver, checkHere, Site.present, Value.isAbsent,
      checkSequence, hp]
    exact hitems items (by rw [hp]; rfl)
  | tuple items =>
    simp only [checkRoot, checkExpr, Container.typeOver, checkHere, Site.present, Value.isAbsent,
      checkSequence, hp]
    exact hitems items (by rw [hp]; rfl)
  | dict entries =>
    simp only [checkRoot, checkExpr, Container.typeOver, checkHere, Site.present, Value.isAbsent,
      checkMapping, hp]
    have hparts : (heap p).parts = entries.map Prod.snd := by rw [hp]; rfl
    rw [hparts] at hne hpart
    have hkeys : ∀ entry ∈ entries, entry.1.isWritable = false → E .tooManyDigits :=
      fun entry hentry hkey => hlong (.key .self hp hentry hkey)
    have hentry := fun path (entry : Scalar × Value (Fin n)) (hentry : entry ∈ entries) =>
      hpart path entry.2 (List.mem_map_of_mem hentry)
    refine (checkEntries_yields (H := fun _ => True) (R := fun _ => r.TakesAbsence) .root hkeys
      hentry).imp fun failures hfailures => ?_
    rw [hfailures fun _ _ => trivial]
    exact forall_mem_const (mt (fun hnil => by rw [hnil]; rfl) hne)

/-- **A field is judged by the test.** -/
theorem checkRoot_field_yields (h : c.Contract P Good E) {p : Fin n}
    {entries : List (Scalar × Value (Fin n))} {schema : ResolvedSchema} {name : String}
    {f : ResolvedField} (hp : heap p = .dict entries)
    (hfields : schema.fields.entries = [(name, f)]) (he : Good f.expression)
    (habsent : ((Container.entry? entries name).getD (.atom .missing)).isAbsent = true) :
    (checkRoot c heap (.container p) (.schema schema)).Yields P
      (· = [] ↔ c.AdmitsAbsence f.expression) E := by
  simp only [checkRoot, checkStruct, hp, hfields, checkFields, habsent]
  refine (Composer.admitsAbsence_yields h he).bind fun b hb => ?_
  cases b with
  | true => exact Action.yields_pure (by simp [← hb])
  | false => exact Action.yields_pure (by simp [← hb])

end Checking

namespace Composer

/-- Two types of the list differ and have one text. -/
def Collide (chain : List TypeExpr) : Prop :=
  ∃ e₁ ∈ chain, ∃ e₂ ∈ chain, e₁ ≠ e₂ ∧ e₁.render = e₂.render

/-- The texts on the way are told apart as far as the names are. -/
theorem Unfolds.freshTexts_iff {c : Composer} {e : TypeExpr} {chain : List TypeExpr}
    {r : Resolved} (h : c.Unfolds e chain r) : FreshTexts [] chain ↔ ¬ Collide chain := by
  have hnodup : (chain.map TypeExpr.render).Nodup ↔ ¬ Collide chain := by
    rw [List.nodup_map_iff_inj_on h.nodup]
    simp only [Collide, not_exists, not_and]
    constructor
    · exact fun hinj e₁ h₁ e₂ h₂ hne htext => hne (hinj e₁ h₁ e₂ h₂ htext)
    · exact fun hapart e₁ h₁ e₂ h₂ htext => by_contra fun hne => hapart e₁ h₁ e₂ h₂ hne htext
  rw [← hnodup]
  exact and_iff_left fun e _ => List.not_mem_nil

end Composer

namespace Session

/-- Absent values are checked alike. -/
theorem validate_of_absent {value value' : ValueGraph} (h : value.root.isAbsent = true)
    (h' : value'.root.isAbsent = true) (e : TypeExpr) :
    validate value (.expression e) = validate value' (.expression e) := by
  simp only [validate, Composer.validate, Checking.checkRoot, Checking.checkExpr_of_absent h,
    Checking.checkExpr_of_absent h']

open Composer Checking in
/-- **The two judgements on absence.** Let the test and the check both return, after
any history of calls on a new session.

The check returns the same verdict for both kinds of absent values, and what stands
for them in containers is judged alike; a field is judged by the test. Both depend
on what the type unfolds to. The check accepts optional types and the empty kind,
and the test says the same, except for two kinds of types: operators that the test
accepts, and types that the check accepts after two names with one text. -/
theorem absence_judgements (env : Environment) (maxDepth : Option Int) (prelude : Bool)
    (history : List Call) (e : TypeExpr) (b : Bool) (verdict : Verdict) :
    let s := (opened env maxDepth prelude).after history
    ((admitsAbsence e).run s).outcome = .ok b →
    ((validate (.ofDatum (.atom .null)) (.expression e)).run s).outcome = .ok verdict →
      ((validate (.ofDatum (.atom .missing)) (.expression e)).run s).outcome = .ok verdict ∧
      (∀ value p, ValueGraph.HoldsAbsence value p → ∀ inside,
        ((validate value (.expression ((value.heap p).typeOver e))).run s).outcome = .ok inside →
          inside.valid = verdict.valid) ∧
      (∀ value schema name f, ValueGraph.LacksField value name →
        schema.fields.entries = [(name, f)] → f.expression = e → ∀ inside,
          ((validate value (.schema schema)).run s).outcome = .ok inside → inside.valid = b) ∧
      ∃ chain r, s.composer.Unfolds e chain r ∧
        (verdict.valid = true ↔ r.TakesAbsence) ∧
        (b = verdict.valid ↔
          ¬ (b = true ∧ r.IsOperator) ∧ ¬ (r.TakesAbsence ∧ Collide chain)) := by
  intro s hb hverdict
  have hsound : s.memo.SoundFor s.composer := lasting_soundFor.after env maxDepth prelude history
  have h := contract_of_sound s.composer
  -- what the type unfolds to is known from the run of the check
  have hyields : (checkRoot s.composer (ValueGraph.ofDatum (.atom .null)).heap (.atom .null)
      (.expression e)).Yields (Memo.SoundFor · s.composer) (JudgesAbsence s.composer e)
        fun _ => True :=
    checkExpr_absent_yields h rfl trivial
  have hcheck := validate_follows hyields
  obtain ⟨chain, r, hu, hfailures⟩ := hcheck.returns s.memo hsound verdict hverdict
  have hvalid : verdict.valid = true ↔ r.TakesAbsence := Verdict.valid_iff.trans hfailures
  have hadmits : b = true ↔ s.composer.AdmitsAbsence e :=
    (admitsAbsence_yields h (e := e) trivial).returns s.memo hsound b hb
  obtain ⟨htrue, hfalse⟩ := (absentFits_answers h hu trivial _ []).returns s.memo hsound b hb
  refine ⟨?_, ?_, ?_, chain, r, hu, hvalid, ?_⟩
  · have hsame : validate (.ofDatum (.atom .missing)) (.expression e) =
        validate (.ofDatum (.atom .null)) (.expression e) := validate_of_absent rfl rfl e
    rw [hsame]
    exact hverdict
  · rintro value p ⟨hroot, hne, habsent⟩ inside hinside
    -- what is found in the container depends on what the type unfolds to, as at the root
    have hparts :=
      validate_follows (checkRoot_parts_yields h hu trivial hne habsent fun _ => trivial)
    rw [← hroot] at hparts
    rw [Bool.eq_iff_iff, hvalid, Verdict.valid_iff]
    exact hparts.returns s.memo hsound inside hinside
  · rintro value schema name f ⟨p, entries, hroot, hp, habsent⟩ hfields rfl inside hinside
    have hfield := validate_follows (checkRoot_field_yields h hp hfields trivial habsent)
    rw [← hroot] at hfield
    rw [Bool.eq_iff_iff, hadmits, Verdict.valid_iff]
    exact hfield.returns s.memo hsound inside hinside
  · -- both answers are now known in terms of the unfolding
    rw [hu.freshTexts_iff] at htrue hfalse
    rw [Bool.eq_iff_iff, hvalid]
    constructor
    · intro hsame
      refine ⟨?_, ?_⟩
      · rintro ⟨hb, hop⟩
        exact (hsame.1 hb).not_isOperator hop
      · rintro ⟨htakes, hcollide⟩
        exact (htrue (hsame.2 htakes)).1 hcollide
    · rintro ⟨hop, hcollide⟩
      constructor
      · intro hb
        exact (htrue hb).2.resolve_right fun h => hop ⟨hb, h⟩
      · intro htakes
        exact hfalse (fun h => hcollide ⟨htakes, h⟩) htakes

/-- A flag, called by another name. -/
def flagByName : List Call :=
  [.register "Flag" (.definition
     (.ofAlias { name := "Flag", expression := .optional (.primitive "boolean"), parameters := [] })
     .none),
   .register "Mark" (.definition
     (.ofAlias { name := "Mark", expression := .reference "Flag", parameters := [] }) .none)]

/-- A list of two absent flags is accepted as one of them is, and the name leads to
a type that takes absence. -/
theorem flags_absent_alike :
    let s := (opened .empty none false).after flagByName
    let flags : ValueGraph := .ofDatum (.list [.atom .null, .atom .missing])
    (∀ inside, ((validate flags (.expression (.sequence (.reference "Mark")))).run s).outcome =
        .ok inside → inside.valid = true) ∧
      ∃ chain r, s.composer.Unfolds (.reference "Mark") chain r ∧ r.TakesAbsence := by
  intro s flags
  have hb : ((admitsAbsence (.reference "Mark")).run s).outcome = .ok true := by decide
  have hverdict : ((validate (.ofDatum (.atom .null)) (.expression (.reference "Mark"))).run
      s).outcome = .ok { failures := [] } := by decide
  obtain ⟨-, hinside, -, chain, r, hu, htakes, -⟩ :=
    absence_judgements .empty none false flagByName (.reference "Mark") true _ hb hverdict
  have hflags : flags.HoldsAbsence ⟨0, by decide⟩ := by
    refine ⟨rfl, ?_, ?_⟩ <;> decide
  exact ⟨hinside flags ⟨0, by decide⟩ hflags, chain, r, hu, htakes.1 rfl⟩

/-- **The judgements disagree on a union** that an optional type is a member of: the
test says that it admits absence, and the check refuses an absent value. -/
theorem union_refuses_absence :
    let s := opened .empty none false
    let e : TypeExpr := .union [.optional (.primitive "number"), .primitive "string"]
    ((admitsAbsence e).run s).outcome = .ok true ∧
      ((validate (.ofDatum (.atom .null)) (.expression e)).run s).outcome =
        .ok { failures := [{ path := .root, mismatch := .absentValue "number?|string" }] } := by
  decide

/-- An alias of its second argument, which is itself applied to two names if it is
not given. -/
def secondOfTwo : List Call :=
  [.register "b" (.definition
     (.ofAlias
       { name := "b", expression := .optional (.primitive "number"), parameters := [] }) .none),
   .register "G" (.definition
     (.ofAlias
       { name := "G"
         expression := .reference "U"
         parameters :=
           [{ name := "T", default := none },
            { name := "U"
              default := some (.generic "G" [.reference "a", .reference "b"]) }] }) .none)]

/-- A name with a comma in it has the text of two names, so the test takes the
second application for the first one. -/
example :
    let s := (opened .empty none false).after secondOfTwo
    let e : TypeExpr := .generic "G" [.reference "a,b"]
    ((admitsAbsence e).run s).outcome = .ok false ∧
      ((validate (.ofDatum (.atom .null)) (.expression e)).run s).outcome =
        .ok { failures := [] } := by
  decide

end Session

end WidgetSchema
