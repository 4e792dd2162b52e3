/-
A check finds a failure exactly in a value that does not satisfy its type.

The check collects failures with their paths, remembers the containers around it,
counts the names it has unfolded and gives a union up at its first fitting branch.
Each part of it has one lemma here that says what its failures decide: none is
found if and only if the value satisfies the type (`Decides`). The lemmas go
together as the check does: along the expression at one value, along the names
that may still be unfolded, and along the containers that can still be entered.

A run that meets a container inside itself or the bound on unfolding returns
nothing, so what is returned does not depend on either. Nor does it return anything
where a number is too long to be written; every lemma asks that this fault be allowed
if the value holds such a number.
-/
import WidgetSchema.Proofs.AbsenceTest
import WidgetSchema.Proofs.Histories
import WidgetSchema.Proofs.LongNumbers

set_option autoImplicit false

namespace WidgetSchema

namespace Checking

open Composer (Contract)

variable {n : Nat} {c : Composer} {heap : Heap (Fin n)} {P : Memo → Prop}
  {Good : TypeExpr → Prop} {E : Fault → Prop}

/-- The failures found in a whole value are none exactly if it satisfies the type. -/
def Decides (c : Composer) (heap : Heap (Fin n)) (v : Value (Fin n)) (r : Resolved)
    (failures : List Failure) : Prop :=
  v.Whole heap → (failures = [] ↔ c.Satisfies heap v r)

/-- What is decided of an absent value does not matter. -/
theorem decides_of_absent {v : Value (Fin n)} {r : Resolved} {failures : List Failure}
    (h : v.isAbsent = true) : Decides c heap v r failures := by
  intro hv
  rw [hv.present] at h
  cases h

/-! ## Scalar kinds and literals -/

theorem fits_yields {Q : List Failure → Prop} (h : Q []) : (fits : Check).Yields P Q E :=
  Action.yields_pure h

theorem refuse_yields {Q : List Failure → Prop} {path : Path} {mismatch : Mismatch}
    (h : Q [{ path, mismatch }]) : (refuse path mismatch : Check).Yields P Q E :=
  Action.yields_pure h

theorem checkPrimitive_yields (path : Path) (v : Value (Fin n)) (kind : String) :
    (checkPrimitive heap path v kind).Yields P
      (Decides c heap v (.expression (.primitive kind))) E := by
  unfold checkPrimitive
  split
  · next hkind =>
    -- nothing but absence is of the empty kind
    split
    · next habsent => exact fits_yields (decides_of_absent habsent)
    · refine refuse_yields fun _ => ?_
      simp [Composer.Satisfies.primitive_iff, hkind]
  · next hkind =>
    split
    · next habsent => exact refuse_yields (decides_of_absent habsent)
    · cases v with
      | container p =>
        refine refuse_yields fun _ => ?_
        simp [Composer.Satisfies.primitive_iff]
      | atom a =>
        dsimp only
        split
        · next ha =>
          refine fits_yields fun _ => ?_
          simp [Composer.Satisfies.primitive_iff, hkind, ha]
        · next ha =>
          refine refuse_yields fun _ => ?_
          simp [Composer.Satisfies.primitive_iff, ha]

section Here

variable {s : Site n} {named : TypeExpr → Check}

/-- A failure that repeats the value is found, unless the value cannot be repeated. -/
theorem siteRefuse_yields {Q : List Failure → Prop} {mismatch : String → Mismatch}
    (hlong : s.value.HoldsLong s.heap → E .tooManyDigits)
    (h : ∀ shown, Q [{ path := s.path, mismatch := mismatch shown }]) :
    (s.refuse mismatch).Yields P Q E := by
  unfold Site.refuse
  cases hshown : s.value.shown? s.heap with
  | none => exact Action.yields_fail (hlong (.of_shown hshown))
  | some shown => exact refuse_yields (h shown)

/-- Asking for the value to be there changes nothing about a whole value. -/
theorem present_yields {r : Resolved} {check : Check} (type : TypeExpr)
    (h : check.Yields P (Decides c s.heap s.value r) E) :
    (s.present type check).Yields P (Decides c s.heap s.value r) E := by
  unfold Site.present
  split
  · next habsent => exact refuse_yields (decides_of_absent habsent)
  · exact h

/-- A text is looked up among the fitting ones; no other value fits. -/
theorem checkLiterals_yields {r : Resolved} (fitting : List String)
    (mismatch : String → Mismatch) (hlong : s.value.HoldsLong s.heap → E .tooManyDigits)
    (hr : c.Satisfies s.heap s.value r ↔ ∃ t ∈ fitting, s.value = .atom (.text t)) :
    (s.checkLiterals fitting mismatch).Yields P (Decides c s.heap s.value r) E := by
  unfold Site.checkLiterals
  split
  · next t hv =>
    split
    · next ht =>
      refine fits_yields fun _ => ?_
      rw [hr]
      exact ⟨fun _ => ⟨t, ht, hv⟩, fun _ => rfl⟩
    · next ht =>
      refine siteRefuse_yields hlong fun _ _ => ?_
      rw [hr]
      constructor
      · rintro ⟨⟩
      · rintro ⟨u, hu, hv'⟩
        rw [hv] at hv'
        cases hv'
        exact absurd hu ht
  · next hother =>
    refine siteRefuse_yields hlong fun _ _ => ?_
    rw [hr]
    constructor
    · rintro ⟨⟩
    · rintro ⟨t, -, hv⟩
      exact absurd hv (hother t)

/-! ## One value -/

/-- What a site is left to at names, at sequences and at mappings decides them. -/
structure SiteDecides (c : Composer) (P : Memo → Prop) (Good : TypeExpr → Prop)
    (E : Fault → Prop) (s : Site n) (named : TypeExpr → Check) : Prop where
  named : ∀ e i, e.instantiation? = some i → Good e →
    (named e).Yields P (Decides c s.heap s.value (.expression e)) E
  sequence : ∀ inner, Good inner →
    (s.atSequence inner).Yields P (Decides c s.heap s.value (.expression (.sequence inner))) E
  mapping : ∀ inner, Good inner →
    (s.atMapping inner).Yields P (Decides c s.heap s.value (.expression (.mapping inner))) E
  long : s.value.HoldsLong s.heap → E .tooManyDigits

mutual
/-- **The check decides the expression**, one case for each kind of type. -/
theorem checkHere_yields (h : c.Contract P Good E) (hs : SiteDecides c P Good E s named) :
    (e : TypeExpr) → Good e →
      (checkHere s named e).Yields P (Decides c s.heap s.value (.expression e)) E
  | .optional inner, he => by
    rw [checkHere]
    have hinner := checkHere_yields h hs inner (h.parts _ he inner (List.mem_singleton_self _))
    split
    · next habsent => exact fits_yields (decides_of_absent habsent)
    · refine hinner.imp fun failures hdecides hv => ?_
      rw [Composer.Satisfies.optional_iff]
      exact hdecides hv
  | .primitive kind, _ => by
    rw [checkHere]
    exact checkPrimitive_yields _ _ _
  | .reference name, he => by
    rw [checkHere]
    exact hs.named _ _ rfl he
  | .generic base args, he => by
    rw [checkHere]
    exact hs.named _ _ rfl he
  | .literal t, _ => by
    rw [checkHere]
    refine present_yields _ (checkLiterals_yields _ _ hs.long ?_)
    simp [Composer.Satisfies.literal_iff]
  | .enumSet values, _ => by
    rw [checkHere]
    refine present_yields _ (checkLiterals_yields _ _ hs.long ?_)
    exact Composer.Satisfies.enumSet_iff
  | .sequence inner, he => by
    rw [checkHere]
    exact present_yields _ (hs.sequence inner (h.parts _ he inner (List.mem_singleton_self _)))
  | .mapping inner, he => by
    rw [checkHere]
    exact present_yields _ (hs.mapping inner (h.parts _ he inner (List.mem_singleton_self _)))
  | .union members, he => by
    rw [checkHere]
    refine present_yields _ ?_
    refine (checkBranches_yields h hs members (h.parts _ he)).bind fun attempts hattempts => ?_
    -- no list of attempts means that a branch was met that fits
    cases attempts with
    | none =>
      refine fits_yields fun hv => ?_
      rw [Composer.Satisfies.union_iff]
      simpa using hattempts hv
    | some attempts =>
      refine siteRefuse_yields hs.long fun _ hv => ?_
      rw [Composer.Satisfies.union_iff]
      simpa using hattempts hv
  | .intersection members, he => by
    rw [checkHere]
    refine present_yields _ ?_
    refine (checkEach_yields h hs members (h.parts _ he)).imp fun failures hdecides hv => ?_
    rw [Composer.Satisfies.intersection_iff]
    exact hdecides hv

/-- No attempt is reported exactly if the value satisfies one of the branches. -/
theorem checkBranches_yields (h : c.Contract P Good E) (hs : SiteDecides c P Good E s named) :
    (es : List TypeExpr) → (∀ e ∈ es, Good e) →
      (checkBranches s named es).Yields P (fun attempts => s.value.Whole s.heap →
        (attempts = none ↔ ∃ e ∈ es, c.Satisfies s.heap s.value (.expression e))) E
  | [], _ => by
    rw [checkBranches]
    exact Action.yields_pure fun _ => by simp
  | e :: es, hes => by
    rw [checkBranches]
    obtain ⟨he, hes⟩ := List.forall_mem_cons.1 hes
    refine (checkHere_yields h hs e he).bind fun failures hfailures => ?_
    -- the first branch that fits ends the search, so the others do not count
    cases failures with
    | nil =>
      refine Action.yields_pure fun hv => ?_
      have hsat : c.Satisfies s.heap s.value (.expression e) := (hfailures hv).1 rfl
      simp [hsat]
    | cons f rest =>
      refine (checkBranches_yields h hs es hes).bind fun attempts hattempts => ?_
      refine Action.yields_pure fun hv => ?_
      have hsat : ¬ c.Satisfies s.heap s.value (.expression e) := by
        simpa using mt (hfailures hv).2
      simp [hattempts hv, hsat]

/-- No failure is found exactly if the value satisfies all the members. -/
theorem checkEach_yields (h : c.Contract P Good E) (hs : SiteDecides c P Good E s named) :
    (es : List TypeExpr) → (∀ e ∈ es, Good e) →
      (checkEach s named es).Yields P (fun failures => s.value.Whole s.heap →
        (failures = [] ↔ ∀ e ∈ es, c.Satisfies s.heap s.value (.expression e))) E
  | [], _ => by
    rw [checkEach]
    exact fits_yields fun _ => by simp
  | e :: es, hes => by
    rw [checkEach]
    obtain ⟨he, hes⟩ := List.forall_mem_cons.1 hes
    refine (checkHere_yields h hs e he).bind fun here hhere => ?_
    refine (checkEach_yields h hs es hes).bind fun further hfurther => ?_
    refine Action.yields_pure fun hv => ?_
    simp [hhere hv, hfurther hv]
end

end Here

/-! ## Parts of containers -/

section Parts

variable {part : Path → Value (Fin n) → TypeExpr → Check}

/-- If each item is judged right as far as `H` holds of it, then so are the items together. -/
theorem checkItems_yields {inner : TypeExpr} {H R : Value (Fin n) → Prop} (path : Path)
    (index : Nat) {items : List (Value (Fin n))}
    (hpart : ∀ path, ∀ v ∈ items,
      (part path v inner).Yields P (fun failures => H v → (failures = [] ↔ R v)) E) :
    (checkItems part path inner index items).Yields P
      (fun failures => (∀ v ∈ items, H v) → (failures = [] ↔ ∀ v ∈ items, R v)) E := by
  induction items generalizing index with
  | nil =>
    rw [checkItems]
    exact fits_yields fun _ => by simp
  | cons v rest ih =>
    rw [checkItems]
    have hrest := fun path w hw => hpart path w (List.mem_cons_of_mem v hw)
    refine (hpart _ v List.mem_cons_self).bind fun here hhere => ?_
    refine (ih _ hrest).bind fun further hfurther => ?_
    refine Action.yields_pure fun hall => ?_
    obtain ⟨hv, hall⟩ := List.forall_mem_cons.1 hall
    simp [hhere hv, hfurther hall]

/-- The same of the entries of a mapping, unless a key is too long for a path. -/
theorem checkEntries_yields {inner : TypeExpr} {H R : Value (Fin n) → Prop} (path : Path)
    {entries : List (Scalar × Value (Fin n))}
    (hkeys : ∀ entry ∈ entries, entry.1.isWritable = false → E .tooManyDigits)
    (hpart : ∀ path, ∀ entry ∈ entries,
      (part path entry.2 inner).Yields P (fun failures => H entry.2 → (failures = [] ↔ R entry.2))
        E) :
    (checkEntries part path inner entries).Yields P
      (fun failures => (∀ entry ∈ entries, H entry.2) →
        (failures = [] ↔ ∀ entry ∈ entries, R entry.2)) E := by
  induction entries with
  | nil =>
    rw [checkEntries]
    exact fits_yields fun _ => by simp
  | cons entry rest ih =>
    rw [checkEntries]
    have hrest := fun path e he => hpart path e (List.mem_cons_of_mem entry he)
    have hrestKeys := fun e he => hkeys e (List.mem_cons_of_mem entry he)
    have hentry : (checkEntry part path inner entry.1 entry.2).Yields P
        (fun failures => H entry.2 → (failures = [] ↔ R entry.2)) E := by
      unfold checkEntry
      split
      · exact hpart _ entry List.mem_cons_self
      · next hlong =>
        exact Action.yields_fail (hkeys entry List.mem_cons_self (Bool.eq_false_iff.2 hlong))
    refine hentry.bind fun here hhere => ?_
    refine (ih hrestKeys hrest).bind fun further hfurther => ?_
    refine Action.yields_pure fun hall => ?_
    obtain ⟨hentry, hall⟩ := List.forall_mem_cons.1 hall
    simp [hhere hentry, hfurther hall]

variable
  (hpart : ∀ path v e, Good e → (v.HoldsLong heap → E .tooManyDigits) →
    (part path v e).Yields P (Decides c heap v (.expression e)) E)

include hpart

/-- A field is decided by the entry of its name, if there is one, and otherwise by
its type alone. -/
theorem checkFields_yields (h : c.Contract P Good E) (path : Path) (schema : ResolvedSchema)
    (entries : List (Scalar × Value (Fin n))) (fields : List (String × ResolvedField))
    (hlong : ∀ entry ∈ entries, entry.2.HoldsLong heap → E .tooManyDigits)
    (hfields : ∀ field ∈ fields, Good field.2.expression) :
    (checkFields c part path schema entries fields).Yields P
      (fun failures => (∀ entry ∈ entries, entry.2.Whole heap) →
        (failures = [] ↔ ∀ field ∈ fields, c.FieldSatisfies heap entries field)) E := by
  induction fields with
  | nil =>
    rw [checkFields]
    exact fits_yields fun _ => by simp
  | cons field rest ih =>
    obtain ⟨hf, hrest⟩ := List.forall_mem_cons.1 hfields
    -- it is enough to decide this field
    have hnext (check : Check)
        (hcheck : check.Yields P (fun here => (∀ entry ∈ entries, entry.2.Whole heap) →
          (here = [] ↔ c.FieldSatisfies heap entries field)) E) :
        (do
          let here ← check
          let further ← checkFields c part path schema entries rest
          return here ++ further : Check).Yields P
            (fun failures => (∀ entry ∈ entries, entry.2.Whole heap) →
              (failures = [] ↔ ∀ f ∈ field :: rest, c.FieldSatisfies heap entries f)) E := by
      refine hcheck.bind fun here hhere => (ih hrest).bind fun further hfurther => ?_
      refine Action.yields_pure fun hwhole => ?_
      rw [List.append_eq_nil_iff, hhere hwhole, hfurther hwhole]
      exact List.forall_mem_cons.symm
    rw [checkFields]
    cases hentry : Container.entry? entries field.1 with
    | none =>
      have hmissing : c.FieldSatisfies heap entries field ↔
          c.AdmitsAbsence field.2.expression := by
        simp [Composer.FieldSatisfies, hentry]
      simp only [Option.getD_none, Value.isAbsent, Atom.isAbsent, if_true]
      refine (Composer.admitsAbsence_yields h hf).bind fun b hb => ?_
      cases b with
      | true => exact hnext _ (fits_yields fun _ => by simp [hmissing, ← hb])
      | false => exact hnext _ (refuse_yields fun _ => by simp [hmissing, ← hb])
    | some v =>
      have hthere : c.FieldSatisfies heap entries field ↔
          c.Satisfies heap v (.expression field.2.expression) := by
        simp [Composer.FieldSatisfies, hentry]
      obtain ⟨key, hmem⟩ := Container.entry?_mem hentry
      simp only [Option.getD_some]
      split
      · next habsent =>
        -- no entry of a whole dictionary is absent
        have hvacuous (here : List Failure) (hwhole : ∀ entry ∈ entries, entry.2.Whole heap) :
            here = [] ↔ c.FieldSatisfies heap entries field :=
          absurd habsent (by simp [(hwhole _ hmem).present])
        refine (Composer.admitsAbsence_yields h hf).bind fun b _ => ?_
        cases b with
        | true => exact hnext _ (fits_yields (hvacuous _))
        | false => exact hnext _ (refuse_yields (hvacuous _))
      · refine hnext _ ((hpart _ v _ hf (hlong _ hmem)).imp fun here hhere hwhole => ?_)
        rw [hthere]
        exact hhere (hwhole _ hmem)

end Parts

/-! ## Containers -/

section Containers

variable {part : PartCheck n}
  (hpart : ∀ active path v e, Good e → (v.HoldsLong heap → E .tooManyDigits) →
    (part active path v e).Yields P (Decides c heap v (.expression e)) E)

include hpart

/-- A sequence is decided item by item. -/
theorem checkSequence_yields (h : c.Contract P Good E) (active : List (Fin n)) (path : Path)
    (v : Value (Fin n)) (hlong : v.HoldsLong heap → E .tooManyDigits) {inner : TypeExpr}
    (hinner : Good inner) :
    (checkSequence heap part active path v inner).Yields P
      (Decides c heap v (.expression (.sequence inner))) E := by
  cases v with
  | atom a =>
    refine refuse_yields fun _ => ?_
    simp [Composer.Satisfies.sequence_iff]
  | container p =>
    -- lists and tuples are entered alike, unless they are being checked already
    have hitems (items : List (Value (Fin n))) (hp : heap p = .list items ∨ heap p = .tuple items) :
        (if p ∈ active then cyclic path
          else checkItems (part (p :: active)) path inner 0 items : Check).Yields P
            (Decides c heap (.container p) (.expression (.sequence inner))) E := by
      split
      · exact Action.yields_fail (h.cyclic _)
      · have hparts : (heap p).parts = items := by
          obtain hp | hp := hp <;> rw [hp] <;> rfl
        have hitem := fun path w (hw : w ∈ items) =>
          hpart (p :: active) path w inner hinner fun hheld => hlong (hheld.of_mem (hparts ▸ hw))
        refine (checkItems_yields path 0 hitem).imp fun failures hfailures hv => ?_
        rw [hfailures fun w hw => hv.part (hparts ▸ hw), Composer.Satisfies.sequence_iff]
        constructor
        · exact fun hall => ⟨p, items, rfl, hp, hall⟩
        · rintro ⟨q, items', hq, hp', hall⟩
          cases hq
          have hsame : items' = items := by
            obtain hp | hp := hp <;> simp_all
          exact hsame ▸ hall
    simp only [checkSequence]
    cases hp : heap p with
    | list items => exact hitems items (.inl hp)
    | tuple items => exact hitems items (.inr hp)
    | dict entries =>
      refine refuse_yields fun _ => ?_
      simp [Composer.Satisfies.sequence_iff, hp]

/-- A mapping is decided entry by entry. -/
theorem checkMapping_yields (h : c.Contract P Good E) (active : List (Fin n)) (path : Path)
    (v : Value (Fin n)) (hlong : v.HoldsLong heap → E .tooManyDigits) {inner : TypeExpr}
    (hinner : Good inner) :
    (checkMapping heap part active path v inner).Yields P
      (Decides c heap v (.expression (.mapping inner))) E := by
  cases v with
  | atom a =>
    refine refuse_yields fun _ => ?_
    simp [Composer.Satisfies.mapping_iff]
  | container p =>
    simp only [checkMapping]
    cases hp : heap p with
    | list items | tuple items =>
      refine refuse_yields fun _ => ?_
      simp [Composer.Satisfies.mapping_iff, hp]
    | dict entries =>
      dsimp only
      split
      · exact Action.yields_fail (h.cyclic _)
      · have hmem : ∀ entry ∈ entries, entry.2 ∈ (heap p).parts := fun entry hentry => by
          rw [hp]
          exact List.mem_map_of_mem hentry
        have hkeys : ∀ entry ∈ entries, entry.1.isWritable = false → E .tooManyDigits :=
          fun entry hentry hkey => hlong (.key .self hp hentry hkey)
        have hentry := fun path (e : Scalar × Value (Fin n)) (he : e ∈ entries) =>
          hpart (p :: active) path e.2 inner hinner fun hheld => hlong (hheld.of_mem (hmem e he))
        refine (checkEntries_yields (H := Value.Whole heap)
          (R := fun w => c.Satisfies heap w (.expression inner)) path hkeys hentry).imp
          fun failures hfailures hv => ?_
        rw [hfailures fun entry he => hv.part (hmem entry he), Composer.Satisfies.mapping_iff]
        simp [hp]

/-- A schema is decided field by field. -/
theorem checkStruct_yields (h : c.Contract P Good E) (active : List (Fin n)) (path : Path)
    (v : Value (Fin n)) (hlong : v.HoldsLong heap → E .tooManyDigits)
    {schema : ResolvedSchema} (hschema : (Resolved.schema schema).All Good) :
    (checkStruct c heap part active path v schema).Yields P
      (Decides c heap v (.schema schema)) E := by
  cases v with
  | atom a =>
    simp only [checkStruct]
    split
    · exact refuse_yields (decides_of_absent ‹_›)
    · refine refuse_yields fun _ => ?_
      simp [Composer.Satisfies.schema_iff]
  | container p =>
    simp only [checkStruct]
    cases hp : heap p with
    | list items | tuple items =>
      refine refuse_yields fun _ => ?_
      simp [Composer.Satisfies.schema_iff, hp]
    | dict entries =>
      dsimp only
      split
      · exact Action.yields_fail (h.cyclic _)
      · have hmem : ∀ entry ∈ entries, entry.2 ∈ (heap p).parts := fun entry hentry => by
          rw [hp]
          exact List.mem_map_of_mem hentry
        refine (checkFields_yields (hpart _) h path schema entries _
          (fun entry he hheld => hlong (hheld.of_mem (hmem entry he))) hschema).imp
          fun failures hfailures hv => ?_
        rw [hfailures fun entry he => hv.part (hmem entry he), Composer.Satisfies.schema_iff]
        simp [hp]

end Containers

/-! ## Names and nesting -/

/-- A name is decided as what it denotes. The induction is on the names that may
still be unfolded; with none left the check fails and decides nothing. -/
theorem checkNamed_yields (h : c.Contract P Good E) {s : Site n}
    {struct : ResolvedSchema → Check}
    (hsequence : ∀ inner, Good inner →
      (s.atSequence inner).Yields P (Decides c s.heap s.value (.expression (.sequence inner))) E)
    (hmapping : ∀ inner, Good inner →
      (s.atMapping inner).Yields P (Decides c s.heap s.value (.expression (.mapping inner))) E)
    (hstruct : ∀ schema, (Resolved.schema schema).All Good →
      (struct schema).Yields P (Decides c s.heap s.value (.schema schema)) E)
    (hlong : s.value.HoldsLong s.heap → E .tooManyDigits) (depth : Nat) {e : TypeExpr}
    {i : Instantiation} (hi : e.instantiation? = some i) (he : Good e) :
    (checkNamed c s struct depth e).Yields P (Decides c s.heap s.value (.expression e)) E := by
  induction depth generalizing e i with
  | zero =>
    rw [checkNamed]
    exact Action.yields_fail (h.depth _ _)
  | succ depth ih =>
    rw [checkNamed]
    refine (h.resolveExpression hi he).bind fun r hr => ?_
    obtain ⟨hdenotes, hgood⟩ := hr
    cases r with
    | schema schema =>
      refine (hstruct schema hgood).imp fun failures hfailures hv => ?_
      rw [Composer.Satisfies.named_iff hi hdenotes]
      exact hfailures hv
    | expression e' =>
      have hsite : SiteDecides c P Good E s (checkNamed c s struct depth) :=
        { named := fun _ _ hi he => ih hi he, sequence := hsequence, mapping := hmapping
          long := hlong }
      refine (checkHere_yields h hsite e' hgood).imp fun failures hfailures hv => ?_
      rw [Composer.Satisfies.named_iff hi hdenotes]
      exact hfailures hv

/-- An expression is decided, if the parts of containers are. -/
theorem checkExpr_yields (h : c.Contract P Good E) {part : PartCheck n}
    (hpart : ∀ active path v e, Good e → (v.HoldsLong heap → E .tooManyDigits) →
      (part active path v e).Yields P (Decides c heap v (.expression e)) E)
    (active : List (Fin n)) (path : Path) (v : Value (Fin n)) {e : TypeExpr} (he : Good e)
    (hlong : v.HoldsLong heap → E .tooManyDigits) :
    (checkExpr c heap part active path v e).Yields P (Decides c heap v (.expression e)) E := by
  have hsequence := fun inner (hinner : Good inner) =>
    checkSequence_yields hpart h active path v hlong hinner
  have hmapping := fun inner (hinner : Good inner) =>
    checkMapping_yields hpart h active path v hlong hinner
  unfold checkExpr
  refine checkHere_yields h (s := ⟨heap, path, v, _, _⟩) ⟨fun e i hi he => ?_, ?_, ?_, hlong⟩ e he
  · exact checkNamed_yields h hsequence hmapping
      (fun schema hschema => checkStruct_yields hpart h active path v hlong hschema) hlong _ hi he
  · exact hsequence
  · exact hmapping

/-- The parts of containers are decided, however many containers may still be entered. -/
theorem checkPart_yields (h : c.Contract P Good E) (room : Nat) (active : List (Fin n))
    (path : Path) (v : Value (Fin n)) (e : TypeExpr) (he : Good e)
    (hlong : v.HoldsLong heap → E .tooManyDigits) :
    (checkPart c heap room active path v e).Yields P (Decides c heap v (.expression e)) E := by
  induction room generalizing active path v e with
  | zero =>
    rw [checkPart]
    exact Action.yields_fail (h.cyclic _)
  | succ room ih =>
    rw [checkPart]
    exact checkExpr_yields h ih active path v he hlong

/-- A whole value is decided. -/
theorem checkRoot_yields (h : c.Contract P Good E) (v : Value (Fin n)) {r : Resolved}
    (hr : r.All Good) (hlong : v.HoldsLong heap → E .tooManyDigits) :
    (checkRoot c heap v (.ofResolved r)).Yields P (Decides c heap v r) E := by
  have hpart : ∀ active path v e, Good e → (v.HoldsLong heap → E .tooManyDigits) →
      (checkPart c heap n active path v e).Yields P (Decides c heap v (.expression e)) E :=
    checkPart_yields h n
  cases r with
  | schema s => exact checkStruct_yields hpart h [] .root v hlong hr
  | expression e => exact checkExpr_yields h hpart [] .root v hr hlong

end Checking

theorem Verdict.valid_iff {v : Verdict} : v.valid = true ↔ v.failures = [] := List.isEmpty_iff

namespace Composer

open Checking

variable {n : Nat} {c : Composer} {heap : Heap (Fin n)} {v : Value (Fin n)} {P : Memo → Prop}
  {Good : TypeExpr → Prop} {E : Fault → Prop}

/-- A verdict is made of the failures that are found. -/
theorem validate_follows {Q : List Failure → Prop} {target : Target}
    (hcheck : (checkRoot c heap v target).Yields P Q E) :
    (c.validate heap v target).Yields P (fun verdict => Q verdict.failures) E := by
  refine hcheck.bind fun failures hfailures => ?_
  exact (Action.yields_note _ _ _).bind fun _ _ => Action.yields_pure hfailures

/-- **The verdict on a whole value is the one that satisfaction gives.** -/
theorem validate_yields (h : c.Contract P Good E) {r : Resolved} (hr : r.All Good)
    (hlong : v.HoldsLong heap → E .tooManyDigits) :
    (c.validate heap v (.ofResolved r)).Yields P
      (fun verdict => v.Whole heap → (verdict.valid = true ↔ c.Satisfies heap v r)) E := by
  refine (validate_follows (checkRoot_yields h v hr hlong)).imp fun verdict hdecides hv => ?_
  rw [Verdict.valid_iff]
  exact hdecides hv

end Composer

namespace Session

/-- **The verdict is the declarative one.** After any history of calls on a new
session, a verdict that is returned on a whole value is positive exactly if the
value satisfies the type. A value that reaches one of its containers again inside
itself may be among them: as far as the check returns, it is judged alike. -/
theorem valid_iff_satisfies (env : Environment) (maxDepth : Option Int) (prelude : Bool)
    (history : List Call) (value : ValueGraph) (r : Resolved)
    (hwhole : value.root.Whole value.heap) :
    let s := (opened env maxDepth prelude).after history
    ∀ verdict, ((validate value (.ofResolved r)).run s).outcome = .ok verdict →
      (verdict.valid = true ↔ s.composer.Satisfies value.heap value.root r) := by
  intro s verdict hverdict
  have hsound : s.memo.SoundFor s.composer := lasting_soundFor.after env maxDepth prelude history
  have hall : r.All fun _ => True := r.all_of_forall fun _ => trivial
  have hyields : (s.composer.validate value.heap value.root (.ofResolved r)).Yields
      (Memo.SoundFor · s.composer) _ _ :=
    Composer.validate_yields (Composer.contract_of_sound s.composer) hall fun _ => trivial
  exact hyields.returns s.memo hsound verdict hverdict hwhole

open Composer.ofPlainTypes in
/-- A struct, and an alias that calls it by another name. -/
def pointsAndPlaces : List Call :=
  [.register "Point" (.definition (plain "Point" [] [("x", "number"), ("y", "number")]) .none),
   .register "Place" (.definition
     (.ofAlias { name := "Place", expression := .reference "Point", parameters := [] }) .none)]

/-- A list with a point and a text in it, of which a coordinate is given. -/
def placesWith (x : Scalar) : ValueGraph :=
  .ofDatum (.list [.dict [(.text "x", .atom x), (.text "y", .atom (.int 2))],
    .atom (.text "origin")])

/-- A sequence of places, each a point or a text. -/
def placesType : Resolved :=
  .expression (.sequence (.union [.primitive "string", .reference "Place"]))

/-- Coordinates are numbers, and a truth value is none. -/
theorem places_satisfied :
    let s := (opened .empty none false).after pointsAndPlaces
    s.composer.Satisfies (placesWith (.int 1)).heap (placesWith (.int 1)).root placesType ∧
      ¬ s.composer.Satisfies (placesWith (.bool true)).heap (placesWith (.bool true)).root
        placesType := by
  intro s
  have hverdict (x : Scalar) (hx : (placesWith x).root.Whole (placesWith x).heap) :=
    valid_iff_satisfies .empty none false pointsAndPlaces (placesWith x) placesType hx
  have hnumber : ((validate (placesWith (.int 1)) (.ofResolved placesType)).run s).outcome =
      .ok { failures := [] } := by decide
  have hbool : ((validate (placesWith (.bool true)) (.ofResolved placesType)).run s).outcome =
      .ok { failures := [
        { path := [.index 0]
          mismatch := .noBranch "\x7b'x': True, 'y': 2\x7d"
            ["string (root[0]: expected string, got dict)",
              "Place (root[0].x: expected number, got bool)"] }] } := by decide
  constructor
  · exact (hverdict _ (.of_heap rfl (by decide)) _ hnumber).1 rfl
  · intro hsat
    cases (hverdict _ (.of_heap rfl (by decide)) _ hbool).2 hsat

end Session

end WidgetSchema
