/-
Failures are found where their paths say.

A check puts the failures of a value together from what it finds at the value itself and from
the failures of its parts (`Reports`). What is found at the value itself is one failure at
most for each type that is looked at. A union is such a type: whatever its branches find is
summed up in its one failure, and no failure of a branch is among those that are put together.

So a failure has the path on which the check came to the value (`Reports.foundIn`). Only a
field that a dictionary lacks is no value; it is reported at the dictionary, one step further.
-/
import WidgetSchema.Proofs.CyclicValues
import WidgetSchema.Proofs.VerdictMeaning

set_option autoImplicit false

namespace WidgetSchema

/-! ## Places -/

section Places

variable {A : Type} {heap : Heap A} {v w : Value A}

/-- The text says how to come from the value to a part of it. -/
inductive Value.LiesAt (heap : Heap A) (v : Value A) : CodeText → Value A → Prop
  | root : LiesAt heap v "root" v
  | field {place : CodeText} {name : String} {p : A} {entries : List (Scalar × Value A)}
      {w : Value A} (h : LiesAt heap v place (.container p)) (hp : heap p = .dict entries)
      (hw : Container.entry? entries name = some w) : LiesAt heap v (place ++ "." ++ name) w
  | key {place : CodeText} {key : Scalar} {p : A} {entries : List (Scalar × Value A)} {w : Value A}
      (h : LiesAt heap v place (.container p)) (hp : heap p = .dict entries)
      (hw : (key, w) ∈ entries) : LiesAt heap v (place ++ "." ++ key.pathText) w
  | item {place : CodeText} {i : Nat} {p : A} {items : List (Value A)} {w : Value A}
      (h : LiesAt heap v place (.container p)) (hp : heap p = .list items ∨ heap p = .tuple items)
      (hw : items[i]? = some w) : LiesAt heap v (place ++ "[" ++ toString i ++ "]") w

/-- Text is put together from code points as from characters. -/
theorem CodeText.ofString_append (s t : String) : ofString (s ++ t) = ofString s ++ ofString t := by
  rw [ofString, String.toList_append, List.map_append]
  rfl

/-- An index is written in brackets. -/
theorem PathStep.render_index (i : Nat) :
    (index i).render = ("[" : CodeText) ++ (toString i : String) ++ "]" := by
  rw [render, CodeText.ofString_append, CodeText.ofString_append]

/-- A step is written behind the path so far, which is what lets a path be read from the
value inwards. -/
theorem Path.render_push (path : Path) (step : PathStep) :
    (path.push step).render = path.render ++ step.render := by
  rw [Path.push, Path.render, Path.render, List.flatMap_append, List.flatMap_singleton,
    List.append_assoc]

/-- The text of a path says where it leads. -/
theorem Value.Leads.liesAt {path : Path} (h : v.Leads heap path w) :
    v.LiesAt heap path.render w := by
  induction h with
  | root => exact .root
  | @push path p step w _ hstep ih =>
    rw [Path.render_push]
    generalize hheld : heap p = held at hstep
    cases hstep with
    | field hw =>
      rw [PathStep.render, CodeText.ofString_append, ← List.append_assoc]
      exact .field ih hheld hw
    | key hw =>
      rw [PathStep.render, ← List.append_assoc]
      exact .key ih hheld hw
    | item hw =>
      rw [PathStep.render_index, ← List.append_assoc, ← List.append_assoc]
      exact .item ih (.inl hheld) hw
    | place hw =>
      rw [PathStep.render_index, ← List.append_assoc, ← List.append_assoc]
      exact .item ih (.inr hheld) hw

/-- The failure is found at its path: a part of the value lies there, or else a dictionary lies
one step before, and the failure says that it lacks the field of the last step. -/
structure Failure.FoundIn (heap : Heap A) (v : Value A) (f : Failure) : Prop where
  there : f.mismatch.kind ≠ .missingField → ∃ w, v.LiesAt heap f.path.render w
  lacking : f.mismatch.kind = .missingField → ∃ place, ∃ name : String, ∃ p entries,
    f.path.render = place ++ "." ++ name ∧ v.LiesAt heap place (.container p) ∧
      heap p = .dict entries ∧
      ∀ w, Container.entry? entries name = some w → w.isAbsent = true

end Places

/-! ## What is reported -/

/-- The categories of the failures that a type may find in a value itself. -/
def TypeExpr.refusals : TypeExpr → List FailureKind
  | primitive _ | sequence _ | mapping _ => [.missing, .typeMismatch]
  | literal _ => [.missing, .invalidLiteral]
  | enumSet _ => [.missing, .invalidEnum]
  | union _ => [.missing, .noMatchingBranch]
  | intersection _ => [.missing]
  | optional _ | reference _ | generic _ _ => []

/-- The categories of the failures that a target may find in a value itself. -/
def Target.refusals : Target → List FailureKind
  | schema _ => [.missing, .typeMismatch]
  | expression e => e.refusals
  | unsupported _ => [.missing]

/-- How the failures of a value are put together. Nothing is taken from the branches of
a union. -/
inductive Composer.Reports (c : Composer) {A : Type} (heap : Heap A) :
    Path → Value A → Target → List Failure → Prop
  | nothing {path : Path} {v : Value A} {t : Target} : Reports c heap path v t []
  | itself {path : Path} {v : Value A} {t : Target} {mismatch : Mismatch}
      (h : mismatch.kind ∈ t.refusals) : Reports c heap path v t [{ path, mismatch }]
  /-- A present value is checked against the inner type. -/
  | optional {path : Path} {v : Value A} {e : TypeExpr} {failures : List Failure}
      (h : Reports c heap path v (.expression e) failures) :
      Reports c heap path v (.expression (.optional e)) failures
  /-- A name stands for what it resolves to. -/
  | name {path : Path} {v : Value A} {e : TypeExpr} {i : Instantiation} {r : Resolved}
      {failures : List Failure} (hi : e.instantiation? = some i) (hr : c.Denotes i r)
      (h : Reports c heap path v (.ofResolved r) failures) :
      Reports c heap path v (.expression e) failures
  /-- The failures of the members of an intersection come one after the other. -/
  | member {path : Path} {v : Value A} {e : TypeExpr} {es : List TypeExpr}
      {here further : List Failure} (hhere : Reports c heap path v (.expression e) here)
      (hfurther : Reports c heap path v (.expression (.intersection es)) further) :
      Reports c heap path v (.expression (.intersection (e :: es))) (here ++ further)
  /-- So do those of the items of a sequence, -/
  | item {path : Path} {p : A} {i : Nat} {w : Value A} {inner : TypeExpr}
      {here further : List Failure} (hstep : (heap p).StepsTo (.index i) w)
      (hhere : Reports c heap (path.push (.index i)) w (.expression inner) here)
      (hfurther : Reports c heap path (.container p) (.expression (.sequence inner)) further) :
      Reports c heap path (.container p) (.expression (.sequence inner)) (here ++ further)
  /-- those of the entries of a mapping, -/
  | entry {path : Path} {p : A} {key : Scalar} {w : Value A} {inner : TypeExpr}
      {here further : List Failure} (hstep : (heap p).StepsTo (.key key) w)
      (hhere : Reports c heap (path.push (.key key)) w (.expression inner) here)
      (hfurther : Reports c heap path (.container p) (.expression (.mapping inner)) further) :
      Reports c heap path (.container p) (.expression (.mapping inner)) (here ++ further)
  /-- and those of the fields of a struct. -/
  | field {path : Path} {p : A} {s : ResolvedSchema} {name : String} {f : ResolvedField}
      {w : Value A} {here further : List Failure} (hf : (name, f) ∈ s.fields.entries)
      (hstep : (heap p).StepsTo (.field name) w)
      (hhere : Reports c heap (path.push (.field name)) w (.expression f.expression) here)
      (hfurther : Reports c heap path (.container p) (.schema s) further) :
      Reports c heap path (.container p) (.schema s) (here ++ further)
  /-- A field that is not there, or under which nothing is, is reported itself, unless its type
  admits that. -/
  | lacking {path : Path} {p : A} {s : ResolvedSchema} {name : String} {f : ResolvedField}
      {entries : List (Scalar × Value A)} {further : List Failure}
      (hf : (name, f) ∈ s.fields.entries) (hp : heap p = .dict entries)
      (habsent : ∀ w, Container.entry? entries name = some w → w.isAbsent = true)
      (hrequired : ¬ c.AdmitsAbsence f.expression)
      (hfurther : Reports c heap path (.container p) (.schema s) further) :
      Reports c heap path (.container p) (.schema s)
        ({ path := path.push (.field name), mismatch := .absentField name s.label } :: further)

/-- What a union leaves of its branches: nothing, or one failure with the path of the union. -/
def SummedUp (path : Path) (failures : List Failure) : Prop :=
  failures = [] ∨ ∃ mismatch, failures = [{ path, mismatch }] ∧
    mismatch.kind ∈ [FailureKind.missing, .noMatchingBranch]

/-- No target is refused as a missing field: this kind is reported by the schema around the value,
at the place of the value that is not there. -/
theorem Target.not_missingField {t : Target} {kind : FailureKind} (h : kind ∈ t.refusals) :
    kind ≠ .missingField := by
  rintro rfl
  cases t with
  | schema s => simp [Target.refusals] at h
  | expression e => cases e <;> simp [Target.refusals, TypeExpr.refusals] at h
  | unsupported shown => simp [Target.refusals] at h

namespace Composer.Reports

variable {c : Composer} {A : Type} {heap : Heap A} {v w : Value A} {t : Target} {path : Path}
  {members : List TypeExpr} {failures : List Failure}

/-- **Every failure is found at its path**, by induction on how it is reported. -/
theorem foundIn (h : c.Reports heap path w t failures) (hw : v.Leads heap path w) :
    ∀ f ∈ failures, f.FoundIn heap v := by
  induction h with
  | nothing => exact List.forall_mem_nil _
  | itself hkind =>
    intro f hf
    rw [List.mem_singleton.1 hf]
    exact ⟨fun _ => ⟨_, hw.liesAt⟩, fun hlacking => absurd hlacking (Target.not_missingField hkind)⟩
  | optional _ ih => exact ih hw
  | name _ _ _ ih => exact ih hw
  | member _ _ ih ih' => exact List.forall_mem_append.2 ⟨ih hw, ih' hw⟩
  | item hstep _ _ ih ih' => exact List.forall_mem_append.2 ⟨ih (hw.push hstep), ih' hw⟩
  | entry hstep _ _ ih ih' => exact List.forall_mem_append.2 ⟨ih (hw.push hstep), ih' hw⟩
  | field _ hstep _ _ ih ih' => exact List.forall_mem_append.2 ⟨ih (hw.push hstep), ih' hw⟩
  | @lacking path p s name f entries further _ hp habsent _ _ ih =>
    refine List.forall_mem_cons.2 ⟨⟨fun hthere => absurd rfl hthere, fun _ => ?_⟩, ih hw⟩
    refine ⟨path.render, name, p, entries, ?_, hw.liesAt, hp, habsent⟩
    rw [Path.render_push, PathStep.render, CodeText.ofString_append, ← List.append_assoc]

/-- **A union is reported as a whole**: nothing, or one failure at its own path. -/
theorem of_union (h : c.Reports heap path v (.expression (.union members)) failures) :
    SummedUp path failures := by
  cases h with
  | nothing => exact .inl rfl
  | itself hkind => exact .inr ⟨_, rfl, hkind⟩
  | name hi _ _ => cases hi

end Composer.Reports

/-! ## Checks report -/

namespace Checking

open Composer (Reports)

variable {n : Nat} {c : Composer} {heap : Heap (Fin n)} {path : Path} {v : Value (Fin n)}
  {active : List (Fin n)} {p : Fin n}

/-- From every sound memo the check returns what is reported of the value, if it returns. -/
def ReportsOn (c : Composer) (heap : Heap (Fin n)) (path : Path) (v : Value (Fin n)) (t : Target)
    (check : Check) : Prop :=
  check.Yields (Memo.SoundFor · c) (c.Reports heap path v t) fun _ => True

/-- A value that fits has nothing to report. -/
theorem reportsOn_fits {t : Target} : ReportsOn c heap path v t fits := fits_yields .nothing

/-- A refusal reports one failure, at the value itself and of a kind that belongs to the target. -/
theorem reportsOn_refuse {t : Target} {mismatch : Mismatch} (h : mismatch.kind ∈ t.refusals) :
    ReportsOn c heap path v t (refuse path mismatch) :=
  refuse_yields (.itself h)

/-- A cycle ends the check, so there is no verdict that would report anything. -/
theorem reportsOn_cyclic {t : Target} (path' : Path) : ReportsOn c heap path v t (cyclic path') :=
  Action.yields_fail trivial

/-- A primitive type refuses a value that is missing or of another kind. -/
theorem checkPrimitive_reports (kind : String) :
    ReportsOn c heap path v (.expression (.primitive kind)) (checkPrimitive heap path v kind) := by
  have hmissing : FailureKind.missing ∈ (Target.expression (.primitive kind)).refusals :=
    List.mem_cons_self
  have hmismatch : FailureKind.typeMismatch ∈ (Target.expression (.primitive kind)).refusals :=
    List.mem_cons_of_mem _ List.mem_cons_self
  unfold checkPrimitive
  split
  · split
    · exact reportsOn_fits
    · exact reportsOn_refuse hmismatch
  · split
    · exact reportsOn_refuse hmissing
    · split
      · split
        · exact reportsOn_fits
        · exact reportsOn_refuse hmismatch
      · exact reportsOn_refuse hmismatch

/-! ### Parts -/

section Parts

variable {part : Path → Value (Fin n) → TypeExpr → Check}
  (hpart : ∀ path v e, ReportsOn c heap path v (.expression e) (part path v e))

include hpart

/-- Items report below their indices. The induction is on the list of items, with the index of its
first one. -/
theorem checkItems_reports {inner : TypeExpr} {index : Nat} {items : List (Value (Fin n))}
    (hitems : ∀ i w, items[i]? = some w → (heap p).StepsTo (.index (index + i)) w) :
    ReportsOn c heap path (.container p) (.expression (.sequence inner))
      (checkItems part path inner index items) := by
  induction items generalizing index with
  | nil =>
    rw [checkItems]
    exact reportsOn_fits
  | cons w rest ih =>
    rw [checkItems]
    have hrest : ∀ i x, rest[i]? = some x → (heap p).StepsTo (.index (index + 1 + i)) x := by
      intro i x hx
      rw [Nat.add_right_comm]
      exact hitems (i + 1) x hx
    refine (hpart _ w inner).bind fun here hhere => (ih hrest).bind fun further hfurther => ?_
    exact Action.yields_pure (.item (hitems 0 w rfl) hhere hfurther)

/-- An entry is reported by its part, if its key can be repeated in a path. -/
theorem checkEntry_reports (inner : TypeExpr) (key : Scalar) (w : Value (Fin n)) :
    ReportsOn c heap (path.push (.key key)) w (.expression inner)
      (checkEntry part path inner key w) := by
  unfold checkEntry
  split
  · exact hpart _ w inner
  · exact Action.yields_fail trivial

/-- Entries report below their keys. -/
theorem checkEntries_reports {inner : TypeExpr} {entries : List (Scalar × Value (Fin n))}
    (hentries : ∀ e ∈ entries, (heap p).StepsTo (.key e.1) e.2) :
    ReportsOn c heap path (.container p) (.expression (.mapping inner))
      (checkEntries part path inner entries) := by
  induction entries with
  | nil =>
    rw [checkEntries]
    exact reportsOn_fits
  | cons e rest ih =>
    obtain ⟨hfirst, hrest⟩ := List.forall_mem_cons.1 hentries
    rw [checkEntries]
    refine (checkEntry_reports hpart inner e.1 e.2).bind fun here hhere => ?_
    refine (ih hrest).bind fun further hfurther => ?_
    exact Action.yields_pure (.entry hfirst hhere hfurther)

/-- Fields report below their names, or a field is missing and its place is reported. -/
theorem checkFields_reports {schema : ResolvedSchema} {entries : List (Scalar × Value (Fin n))}
    (hp : heap p = .dict entries) {fields : List (String × ResolvedField)}
    (hfields : fields ⊆ schema.fields.entries) :
    ReportsOn c heap path (.container p) (.schema schema)
      (checkFields c part path schema entries fields) := by
  induction fields with
  | nil =>
    rw [checkFields]
    exact reportsOn_fits
  | cons field rest ih =>
    obtain ⟨name, f⟩ := field
    obtain ⟨hf, hrest⟩ := List.cons_subset.1 hfields
    rw [checkFields]
    -- it is enough to say what this field puts before the failures of the others
    have hnext (check : Check)
        (hcheck : check.Yields (Memo.SoundFor · c) (fun here => ∀ further,
          c.Reports heap path (.container p) (.schema schema) further →
            c.Reports heap path (.container p) (.schema schema) (here ++ further)) fun _ => True) :
        ReportsOn c heap path (.container p) (.schema schema) (do
          let here ← check
          let further ← checkFields c part path schema entries rest
          return here ++ further) :=
      hcheck.bind fun here hhere => (ih hrest).bind fun further hfurther =>
        Action.yields_pure (hhere further hfurther)
    split
    · next habsent =>
      have hlacking : ∀ w, Container.entry? entries name = some w → w.isAbsent = true := by
        intro w hw
        rw [hw] at habsent
        exact habsent
      refine (Composer.admitsAbsence_yields (Composer.contract_of_sound c) trivial).bind
        fun admits hadmits => ?_
      cases admits with
      | true => exact hnext _ (fits_yields fun _ hfurther => hfurther)
      | false =>
        have hrequired : ¬ c.AdmitsAbsence f.expression := fun h => by cases hadmits.2 h
        exact hnext _ (refuse_yields fun _ hfurther => .lacking hf hp hlacking hrequired hfurther)
    · next hthere =>
      cases hentry : Container.entry? entries name with
      | none =>
        rw [hentry] at hthere
        exact absurd rfl hthere
      | some w =>
        have hstep : (heap p).StepsTo (.field name) w := hp ▸ .field hentry
        refine hnext _ ((hpart _ w f.expression).imp fun here hhere further hfurther => ?_)
        exact .field hf hstep hhere hfurther

end Parts

/-! ### Containers -/

section Containers

variable {part : PartCheck n}
  (hpart : ∀ active path v e, ReportsOn c heap path v (.expression e) (part active path v e))

include hpart

/-- A sequence refuses what is no list, and else reports what its items do. -/
theorem checkSequence_reports (inner : TypeExpr) :
    ReportsOn c heap path v (.expression (.sequence inner))
      (checkSequence heap part active path v inner) := by
  have hmismatch : FailureKind.typeMismatch ∈ (Target.expression (.sequence inner)).refusals :=
    List.mem_cons_of_mem _ List.mem_cons_self
  cases v with
  | atom a => exact reportsOn_refuse hmismatch
  | container p =>
    have hitems (items : List (Value (Fin n)))
        (hsteps : ∀ i w, items[i]? = some w → (heap p).StepsTo (.index (0 + i)) w) :
        ReportsOn c heap path (.container p) (.expression (.sequence inner))
          (if p ∈ active then cyclic path
            else checkItems (part (p :: active)) path inner 0 items) := by
      split
      · exact reportsOn_cyclic path
      · exact checkItems_reports (hpart (p :: active)) hsteps
    simp only [checkSequence]
    cases hp : heap p with
    | list items =>
      refine hitems items fun i w hw => ?_
      rw [hp, Nat.zero_add]
      exact .item hw
    | tuple items =>
      refine hitems items fun i w hw => ?_
      rw [hp, Nat.zero_add]
      exact .place hw
    | dict entries => exact reportsOn_refuse hmismatch

/-- A mapping refuses what is no dictionary, and else reports what its entries do. -/
theorem checkMapping_reports (inner : TypeExpr) :
    ReportsOn c heap path v (.expression (.mapping inner))
      (checkMapping heap part active path v inner) := by
  have hmismatch : FailureKind.typeMismatch ∈ (Target.expression (.mapping inner)).refusals :=
    List.mem_cons_of_mem _ List.mem_cons_self
  cases v with
  | atom a => exact reportsOn_refuse hmismatch
  | container p =>
    simp only [checkMapping]
    cases hp : heap p with
    | list items | tuple items => exact reportsOn_refuse hmismatch
    | dict entries =>
      dsimp only
      split
      · exact reportsOn_cyclic path
      · refine checkEntries_reports (hpart (p :: active)) fun e he => ?_
        rw [hp]
        exact .key he

/-- A schema likewise. -/
theorem checkStruct_reports (schema : ResolvedSchema) :
    ReportsOn c heap path v (.schema schema) (checkStruct c heap part active path v schema) := by
  have hmissing : FailureKind.missing ∈ (Target.schema schema).refusals := List.mem_cons_self
  have hmismatch : FailureKind.typeMismatch ∈ (Target.schema schema).refusals :=
    List.mem_cons_of_mem _ List.mem_cons_self
  cases v with
  | atom a =>
    simp only [checkStruct]
    split
    · exact reportsOn_refuse hmissing
    · exact reportsOn_refuse hmismatch
  | container p =>
    simp only [checkStruct]
    cases hp : heap p with
    | list items | tuple items => exact reportsOn_refuse hmismatch
    | dict entries =>
      dsimp only
      split
      · exact reportsOn_cyclic path
      · exact checkFields_reports (hpart (p :: active)) hp (List.Subset.refl _)

end Containers

/-! ### One value -/

section Here

variable {s : Site n} {named : TypeExpr → Check}

/-- A value that is missing is reported as such by every type that needs one. -/
theorem present_reports {type : TypeExpr} {check : Check}
    (hmissing : FailureKind.missing ∈ type.refusals)
    (h : ReportsOn c s.heap s.path s.value (.expression type) check) :
    ReportsOn c s.heap s.path s.value (.expression type) (s.present type check) := by
  unfold Site.present
  split
  · exact reportsOn_refuse hmissing
  · exact h

/-- A site refuses its value with one failure, if it can repeat the value at all. -/
theorem siteRefuse_reports {t : Target} {mismatch : String → Mismatch}
    (h : ∀ shown, (mismatch shown).kind ∈ t.refusals) :
    ReportsOn c s.heap s.path s.value t (s.refuse mismatch) := by
  unfold Site.refuse refuseShown
  split
  · exact reportsOn_refuse (h _)
  · exact Action.yields_fail trivial

/-- A set of literals reports one failure of its kind. -/
theorem checkLiterals_reports {type : TypeExpr} {fitting : List String}
    {mismatch : String → Mismatch} (h : ∀ shown, (mismatch shown).kind ∈ type.refusals) :
    ReportsOn c s.heap s.path s.value (.expression type) (s.checkLiterals fitting mismatch) := by
  unfold Site.checkLiterals
  split
  · split
    · exact reportsOn_fits
    · exact siteRefuse_reports h
  · exact siteRefuse_reports h

/-- What a site is left to at names, at sequences and at mappings returns what is reported. -/
structure SiteReports (c : Composer) (s : Site n) (named : TypeExpr → Check) : Prop where
  named : ∀ e i, e.instantiation? = some i →
    ReportsOn c s.heap s.path s.value (.expression e) (named e)
  sequence : ∀ inner,
    ReportsOn c s.heap s.path s.value (.expression (.sequence inner)) (s.atSequence inner)
  mapping : ∀ inner,
    ReportsOn c s.heap s.path s.value (.expression (.mapping inner)) (s.atMapping inner)

mutual
/-- **At one value the check returns what is reported**, one case for each kind of type. -/
theorem checkHere_reports (hs : SiteReports c s named) : (e : TypeExpr) →
    ReportsOn c s.heap s.path s.value (.expression e) (checkHere s named e)
  | .optional inner => by
    rw [checkHere]
    split
    · exact reportsOn_fits
    · exact (checkHere_reports hs inner).imp fun _ => .optional
  | .primitive kind => by
    rw [checkHere]
    exact checkPrimitive_reports kind
  | .reference name => by
    rw [checkHere]
    exact hs.named _ _ rfl
  | .generic base args => by
    rw [checkHere]
    exact hs.named _ _ rfl
  | .literal t => by
    rw [checkHere]
    exact present_reports List.mem_cons_self
      (checkLiterals_reports fun _ => List.mem_cons_of_mem _ List.mem_cons_self)
  | .enumSet values => by
    rw [checkHere]
    exact present_reports List.mem_cons_self
      (checkLiterals_reports fun _ => List.mem_cons_of_mem _ List.mem_cons_self)
  | .sequence inner => by
    rw [checkHere]
    exact present_reports List.mem_cons_self (hs.sequence inner)
  | .mapping inner => by
    rw [checkHere]
    exact present_reports List.mem_cons_self (hs.mapping inner)
  | .union members => by
    rw [checkHere]
    refine present_reports List.mem_cons_self ?_
    -- of the branches only their texts are kept
    refine (checkBranches_reports hs members).bind fun attempts _ => ?_
    cases attempts with
    | none => exact reportsOn_fits
    | some attempts =>
      exact siteRefuse_reports fun _ => List.mem_cons_of_mem _ List.mem_cons_self
  | .intersection members => by
    rw [checkHere]
    exact present_reports List.mem_cons_self (checkEach_reports hs members)

/-- The failures of the branches are not reported: a union whose branches all fail reports one
failure of its own. What is left to say is that the memo stays sound. -/
theorem checkBranches_reports (hs : SiteReports c s named) : (es : List TypeExpr) →
    (checkBranches s named es).Yields (Memo.SoundFor · c) (fun _ => True) fun _ => True
  | [] => by
    rw [checkBranches]
    exact Action.yields_pure trivial
  | e :: es => by
    rw [checkBranches]
    refine (checkHere_reports hs e).bind fun failures _ => ?_
    cases failures with
    | nil => exact Action.yields_pure trivial
    | cons f rest => exact (checkBranches_reports hs es).bind fun _ _ => Action.yields_pure trivial

/-- All operands of an intersection report, in order. -/
theorem checkEach_reports (hs : SiteReports c s named) : (es : List TypeExpr) →
    ReportsOn c s.heap s.path s.value (.expression (.intersection es)) (checkEach s named es)
  | [] => by
    rw [checkEach]
    exact reportsOn_fits
  | e :: es => by
    rw [checkEach]
    refine (checkHere_reports hs e).bind fun here hhere => ?_
    refine (checkEach_reports hs es).bind fun further hfurther => ?_
    exact Action.yields_pure (.member hhere hfurther)
end

/-- A name is reported as what it denotes, by induction on the names that may be unfolded. -/
theorem checkNamed_reports {struct : ResolvedSchema → Check}
    (hsequence : ∀ inner,
      ReportsOn c s.heap s.path s.value (.expression (.sequence inner)) (s.atSequence inner))
    (hmapping : ∀ inner,
      ReportsOn c s.heap s.path s.value (.expression (.mapping inner)) (s.atMapping inner))
    (hstruct : ∀ schema, ReportsOn c s.heap s.path s.value (.schema schema) (struct schema))
    (depth : Nat) {e : TypeExpr} {i : Instantiation} (hi : e.instantiation? = some i) :
    ReportsOn c s.heap s.path s.value (.expression e) (checkNamed c s struct depth e) := by
  induction depth generalizing e i with
  | zero =>
    rw [checkNamed]
    exact Action.yields_fail trivial
  | succ depth ih =>
    rw [checkNamed]
    refine ((Composer.contract_of_sound c).resolveExpression hi trivial).bind fun r hr => ?_
    obtain ⟨hdenotes, -⟩ := hr
    cases r with
    | schema schema => exact (hstruct schema).imp fun _ => .name hi hdenotes
    | expression e' =>
      have hsite : SiteReports c s (checkNamed c s struct depth) :=
        { named := fun _ _ hi => ih hi, sequence := hsequence, mapping := hmapping }
      exact (checkHere_reports hsite e').imp fun _ => .name hi hdenotes

end Here

/-! ### Whole values -/

/-- One value against an expression: the checks of the containers are put in. -/
theorem checkExpr_reports {part : PartCheck n}
    (hpart : ∀ active path v e, ReportsOn c heap path v (.expression e) (part active path v e))
    (active : List (Fin n)) (path : Path) (v : Value (Fin n)) (e : TypeExpr) :
    ReportsOn c heap path v (.expression e) (checkExpr c heap part active path v e) := by
  have hsequence (inner : TypeExpr) : ReportsOn c heap path v (.expression (.sequence inner))
      (checkSequence heap part active path v inner) :=
    checkSequence_reports hpart inner
  have hmapping (inner : TypeExpr) : ReportsOn c heap path v (.expression (.mapping inner))
      (checkMapping heap part active path v inner) :=
    checkMapping_reports hpart inner
  unfold checkExpr
  refine checkHere_reports (s := ⟨heap, path, v, _, _⟩) ⟨fun e i hi => ?_, hsequence, hmapping⟩ e
  exact checkNamed_reports hsequence hmapping (checkStruct_reports hpart) _ hi

/-- Parts report, by induction on the containers that may still be entered. -/
theorem checkPart_reports (room : Nat) (active : List (Fin n)) (path : Path) (v : Value (Fin n))
    (e : TypeExpr) :
    ReportsOn c heap path v (.expression e) (checkPart c heap room active path v e) := by
  induction room generalizing active path v e with
  | zero =>
    rw [checkPart]
    exact reportsOn_cyclic path
  | succ room ih =>
    rw [checkPart]
    exact checkExpr_reports ih active path v e

/-- A whole value is checked at the root of all paths. -/
theorem checkRoot_reports (v : Value (Fin n)) (t : Target) :
    ReportsOn c heap .root v t (checkRoot c heap v t) := by
  cases t with
  | schema s => exact checkStruct_reports (checkPart_reports n) s
  | expression e => exact checkExpr_reports (checkPart_reports n) [] .root v e
  | unsupported shown =>
    rw [checkRoot]
    split
    · exact reportsOn_refuse List.mem_cons_self
    · exact Action.yields_fail trivial

end Checking

/-! ## Verdicts -/

namespace Composer

variable {n : Nat} (c : Composer) (heap : Heap (Fin n)) (v : Value (Fin n))

/-- **A verdict reports what the target has to report about the value.** -/
theorem validate_reports (t : Target) :
    (c.validate heap v t).Yields (Memo.SoundFor · c)
      (fun verdict => c.Reports heap .root v t verdict.failures) fun _ => True :=
  validate_follows (Checking.checkRoot_reports v t)

/-- A registered type is reported as its name is. -/
theorem validateNamed_reports (name : String) :
    (c.validateNamed heap v name).Yields (Memo.SoundFor · c)
      (fun verdict => c.Reports heap .root v (.expression (.reference name)) verdict.failures)
      fun _ => True := by
  have hresolve : ((c.resolve { name, args := [] }).mapError Fault.schema).Yields
      (Memo.SoundFor · c) (fun r => c.Denotes { name, args := [] } r) fun _ => True :=
    ((contract_of_sound c).resolve (.reference name) _ rfl trivial).imp (fun _ hr => hr.1)
      |>.mapError
  refine hresolve.bind fun r hr => ?_
  exact (c.validate_reports heap v (.ofResolved r)).imp fun _ => .name rfl hr

end Composer

namespace Session

/-- The check of the value against the target returns the verdict. A registered type is a
target by its name. -/
def Judges (s : Session) (value : ValueGraph) (t : Target) (verdict : Verdict) : Prop :=
  ((validate value t).run s).outcome = .ok verdict ∨
    ∃ name, t = .expression (.reference name) ∧
      ((validateNamed value name).run s).outcome = .ok verdict

/-- **Failures are found where their paths say, and unions are reported as a whole.** After any
history, for every verdict on a value:

* each failure has the path of a part of the value; or else it says that a dictionary in the
  value lacks a field, and its path is that of the dictionary and then the field;
* the failures are put together from what is found at the parts of the value that the check
  comes to without going into a union;
* all that is put together of a union is one failure, with the path of the part at which the
  union was checked, or none;
* nor does a check of a union return anything else, at whatever part it is made. -/
theorem failures_point_into_value (env : Environment) (maxDepth : Option Int) (prelude : Bool)
    (history : List Call) (value : ValueGraph) (t : Target) (verdict : Verdict) :
    let s := (opened env maxDepth prelude).after history
    s.Judges value t verdict →
      (∀ f ∈ verdict.failures, f.FoundIn value.heap value.root) ∧
      s.composer.Reports value.heap .root value.root t verdict.failures ∧
      (∀ path w members failures,
        s.composer.Reports value.heap path w (.expression (.union members)) failures →
          SummedUp path failures) ∧
      ∀ room active path w members memo failures, memo.SoundFor s.composer →
        ((Checking.checkPart s.composer value.heap room active path w (.union members)).run
          memo).outcome = .ok failures → SummedUp path failures := by
  intro s hjudges
  have hm : s.memo.SoundFor s.composer := lasting_soundFor.after env maxDepth prelude history
  -- a verdict by a name is one against what the name denotes
  have hreports : s.composer.Reports value.heap .root value.root t verdict.failures := by
    rcases hjudges with h | ⟨name, rfl, h⟩
    · exact (s.composer.validate_reports value.heap value.root t).returns s.memo hm verdict h
    · exact (s.composer.validateNamed_reports value.heap value.root name).returns s.memo hm
        verdict h
  refine ⟨hreports.foundIn .root, hreports, fun _ _ _ _ h => h.of_union, ?_⟩
  intro room active path w members memo failures hmemo hrun
  have hcheck : Checking.ReportsOn s.composer value.heap path w (.expression (.union members)) _ :=
    Checking.checkPart_reports room active path w (.union members)
  exact (hcheck.returns memo hmemo failures hrun).of_union

/-- Panels hold labels in a list, and have a size, which may be given by a label. -/
def panels : List Call :=
  [.register "Label" (.table [(.text "text", .atom (.text "string"))]),
   .register "Panel" (.table [(.text "labels", .atom (.text "[Label]")),
      (.text "size", .atom (.text "Label|number"))])]

/-- A label without a text, and a size with a number for its text. -/
def halfPanel : ValueGraph :=
  .ofDatum (.dict [(.text "labels", .list [.dict []]),
    (.text "size", .dict [(.text "text", .atom (.int 5))])])

/-- The label lacks its text, and the size fits no branch. That its text is no text either is
said of the branch only. -/
theorem halfPanel_failures :
    let s := (opened .empty none false).after panels
    let size : Value (Fin halfPanel.size) := .container (3 : Fin 4)
    let path : Path := [.field "size"]
    ∃ verdict found, s.Judges halfPanel (.expression (.reference "Panel")) verdict ∧
      verdict.failures.map (fun f => (f.path.render, f.mismatch.kind)) =
        [(("root.labels[0].text" : CodeText), .missingField), ("root.size", .noMatchingBranch)] ∧
      (∀ f ∈ verdict.failures, f.FoundIn halfPanel.heap halfPanel.root) ∧
      ((Checking.checkPart s.composer halfPanel.heap 4 [] path size
        (.union [.reference "Label", .primitive "number"])).run s.memo).outcome = .ok found ∧
      SummedUp path found := by
  intro s size path
  have hnamed : ((validateNamed halfPanel "Panel").run s).outcome.toOption.map
      (fun verdict => verdict.failures.map fun f => (f.path.render, f.mismatch.kind)) =
        some [(("root.labels[0].text" : CodeText), .missingField),
          ("root.size", .noMatchingBranch)] := by
    decide +kernel
  have hunion : ((Checking.checkPart s.composer halfPanel.heap 4 [] path size
      (.union [.reference "Label", .primitive "number"])).run s.memo).outcome.isOk = true := by
    decide +kernel
  obtain ⟨verdict, hverdict, hfailures⟩ := exists_of_toOption_map hnamed
  obtain ⟨found, hfound⟩ := exists_of_isOk hunion
  have hjudges : s.Judges halfPanel (.expression (.reference "Panel")) verdict :=
    .inr ⟨"Panel", rfl, hverdict⟩
  have hm : s.memo.SoundFor s.composer := lasting_soundFor.after .empty none false panels
  obtain ⟨hplaces, -, -, hunions⟩ := failures_point_into_value .empty none false panels halfPanel
    (.expression (.reference "Panel")) verdict hjudges
  exact ⟨verdict, found, hjudges, hfailures, hplaces, hfound, hunions _ _ _ _ _ _ _ hm hfound⟩

end Session

end WidgetSchema
