/-
What resolution keeps, questions and checks keep.

An action keeps a property of its state if the property holds afterwards whenever
it held before, however the action ends. Sequences and branches keep what their
parts keep, so a property has to be looked at only where the state is written.

The memo is written in two places, one for schemas and one for expressions.
Everything that asks or checks reaches the memo through `resolveExpression`
alone, and `OnlyResolves` says so of the test for absence, of the list of required
fields and of every check of a value. What resolution keeps they keep therefore, and
what holds of resolution and passes on to sequences holds of all of them.
-/
import WidgetSchema.Proofs.Actions
import WidgetSchema.Session

set_option autoImplicit false

namespace WidgetSchema

namespace Action

variable {ε ε' σ α β : Type} {P : σ → Prop} {x : Action ε σ α} {f : α → Action ε σ β}

/-- The property holds after the action if it held before. -/
def Keeps (x : Action ε σ α) (P : σ → Prop) : Prop := ∀ s, P s → P (x.run s).state

/-- An action that leaves the state alone keeps everything. -/
theorem keeps_of_state (h : ∀ s, (x.run s).state = s) : x.Keeps P := by
  intro s hs
  rw [h s]
  exact hs

@[simp] theorem keeps_pure (a : α) : (pure a : Action ε σ α).Keeps P := keeps_of_state fun _ => rfl

@[simp] theorem keeps_fail (e : ε) : (fail e : Action ε σ α).Keeps P := keeps_of_state fun _ => rfl

@[simp] theorem keeps_get : (get : Action ε σ σ).Keeps P := keeps_of_state fun _ => rfl

@[simp] theorem keeps_note (level : Level) (topic : Topic) (message : String) :
    (note level topic message : Action ε σ Unit).Keeps P := keeps_of_state fun _ => rfl

@[simp] theorem keeps_ofExcept (e : Except ε α) : (ofExcept e : Action ε σ α).Keeps P :=
  keeps_of_state fun _ => rfl

/-- A sequence keeps what its parts keep, also where the first one fails: then the state behind it
is the last one. -/
theorem Keeps.bind (hx : x.Keeps P) (hf : ∀ a, (f a).Keeps P) : (x >>= f).Keeps P := by
  intro s hs
  exact bind_invariant (hx s hs) fun a _ => hf a _ (hx s hs)

/-- How a failure is reported plays no part: the state is the same. -/
theorem Keeps.mapError (g : ε → ε') (hx : x.Keeps P) : (x.mapError g).Keeps P := hx

/-- What is made of the result plays no part either. -/
theorem Keeps.map (g : α → β) (hx : x.Keeps P) : (g <$> x).Keeps P :=
  hx.bind fun a => keeps_pure (g a)

end Action

namespace Composer

variable {c : Composer} {P : Memo → Prop}

/-! ## Resolution -/

section Resolution

variable {resolve : Instantiation → Resolving ResolvedSchema}
  (hschema : ∀ memo key s, P memo → P (memo.addSchema key s))

/-- The start of a composition looks the memo up and writes nothing to it. -/
theorem keeps_start (chain : List Instantiation) (i : Instantiation) :
    (c.start chain i).Keeps P := by
  refine Action.Keeps.bind (Action.keeps_ofExcept _) fun found => ?_
  obtain ⟨d, bindings, key⟩ := found
  refine Action.keeps_get.bind fun memo => ?_
  cases memo.schemas.lookup key with
  | some s => exact (Action.keeps_note _ _ _).bind fun _ => Action.keeps_pure _
  | none =>
    refine (Action.keeps_ofExcept _).bind fun parts => ?_
    split
    · exact Action.keeps_fail _
    · exact Action.keeps_pure _

/-- The members are resolved one after the other, and what is merged of them is held
outside the memo. -/
theorem keeps_mergeEach (hresolve : ∀ i, (resolve i).Keeps P) (owner : String)
    (members : List TypeExpr) (merged : Merged) :
    (mergeEach resolve owner members merged).Keeps P := by
  induction members generalizing merged with
  | nil => exact Action.keeps_pure _
  | cons member rest ih =>
    rw [mergeEach]
    cases member.instantiation? with
    | none => exact Action.keeps_fail _
    | some i =>
      refine (hresolve i).bind fun parent => ?_
      cases mergeMember merged.held parent with
      | error conflict => exact (Action.keeps_note _ _ _).bind fun _ => Action.keeps_fail _
      | ok held => exact ih _

include hschema in
/-- **A composition keeps what a new entry keeps.** -/
theorem keeps_compose (room : Nat) (chain : List Instantiation) (i : Instantiation) :
    (c.compose room chain i).Keeps P := by
  induction room generalizing chain i with
  | zero =>
    rw [compose]
    refine (keeps_start chain i).bind fun start => ?_
    cases start with
    | known schema => exact Action.keeps_pure _
    | fresh key bindings parts => exact Action.keeps_fail _
  | succ room ih =>
    rw [compose]
    refine (keeps_start chain i).bind fun start => ?_
    cases start with
    | known schema => exact Action.keeps_pure _
    | fresh key bindings parts =>
      -- the one place where a schema is entered
      refine (keeps_mergeEach (fun j => ih _ j) _ _ _).bind fun merged => ?_
      refine (Action.keeps_note _ _ _).bind fun _ => ?_
      refine Action.Keeps.bind ?_ fun _ => Action.keeps_pure _
      intro memo hmemo
      exact hschema memo key _ hmemo

end Resolution

/-! ## What only resolves -/

/-- Whatever the action does to the memo, it does by resolving expressions. -/
inductive OnlyResolves (c : Composer) : {α : Type} → Action Fault Memo α → Prop
  | pure {α : Type} (a : α) : OnlyResolves c (pure a : Action Fault Memo α)
  | fail {α : Type} (e : Fault) : OnlyResolves c (.fail e : Action Fault Memo α)
  | note (level : Level) (topic : Topic) (message : String) :
      OnlyResolves c (.note level topic message)
  | resolve (e : TypeExpr) : OnlyResolves c ((c.resolveExpression e).mapError Fault.schema)
  | bind {α β : Type} {x : Action Fault Memo α} {f : α → Action Fault Memo β}
      (hx : OnlyResolves c x) (hf : ∀ a, OnlyResolves c (f a)) : OnlyResolves c (x >>= f)

/-- **What resolution keeps is kept by whatever only resolves.** -/
theorem OnlyResolves.keeps {α : Type} {x : Action Fault Memo α} (h : c.OnlyResolves x)
    (hresolve : ∀ e, (c.resolveExpression e).Keeps P) : x.Keeps P := by
  induction h with
  | pure a => exact Action.keeps_pure a
  | fail e => exact Action.keeps_fail e
  | note level topic message => exact Action.keeps_note level topic message
  | resolve e => exact (hresolve e).mapError _
  | bind hx hf ihx ihf => exact ihx.bind ihf

/-! ## The test for absence -/

section Asking

variable {named : TypeExpr → Asking}

mutual
/-- The test for absence goes along the type as it is written and asks of the names in it, one case
for each kind of type. Only `named` can reach the memo. -/
theorem onlyResolves_absentFits (hnamed : ∀ e, c.OnlyResolves (named e)) :
    (e : TypeExpr) → c.OnlyResolves (absentFits named e)
  | .optional _ | .primitive _ | .literal _ | .enumSet _ | .sequence _ | .mapping _ => by
    rw [absentFits]
    exact .pure _
  | .reference name => by
    rw [absentFits]
    exact hnamed _
  | .generic base args => by
    rw [absentFits]
    exact hnamed _
  | .union members => by
    rw [absentFits]
    exact onlyResolves_absentFitsSome hnamed members
  | .intersection members => by
    rw [absentFits]
    exact onlyResolves_absentFitsEach hnamed members

theorem onlyResolves_absentFitsSome (hnamed : ∀ e, c.OnlyResolves (named e)) :
    (es : List TypeExpr) → c.OnlyResolves (absentFitsSome named es)
  | [] => by
    rw [absentFitsSome]
    exact .pure _
  | e :: es => by
    rw [absentFitsSome]
    refine (onlyResolves_absentFits hnamed e).bind fun fits => ?_
    cases fits with
    | true => exact .pure _
    | false => exact onlyResolves_absentFitsSome hnamed es

theorem onlyResolves_absentFitsEach (hnamed : ∀ e, c.OnlyResolves (named e)) :
    (es : List TypeExpr) → c.OnlyResolves (absentFitsEach named es)
  | [] => by
    rw [absentFitsEach]
    exact .pure _
  | e :: es => by
    rw [absentFitsEach]
    refine (onlyResolves_absentFits hnamed e).bind fun fits => ?_
    cases fits with
    | true => exact onlyResolves_absentFitsEach hnamed es
    | false => exact .pure _
end

variable (c)

/-- A type name is resolved and then asked of what it stands for. The induction is on the names that
may still be unfolded. -/
theorem onlyResolves_absentFitsName (steps : Nat) (seen : List String) (e : TypeExpr) :
    c.OnlyResolves (c.absentFitsName steps seen e) := by
  induction steps generalizing seen e with
  | zero =>
    rw [absentFitsName]
    split
    · exact .pure _
    · exact .fail _
  | succ steps ih =>
    rw [absentFitsName]
    split
    · exact .pure _
    · refine (OnlyResolves.resolve e).bind fun resolved => ?_
      cases resolved with
      | schema s => exact .pure _
      | expression e' => exact onlyResolves_absentFits (fun e => ih _ e) e'

/-- The whole test starts with no name unfolded and with steps for all of them. -/
theorem onlyResolves_admitsAbsence (e : TypeExpr) : c.OnlyResolves (c.admitsAbsence e) :=
  onlyResolves_absentFits (fun e => onlyResolves_absentFitsName c _ _ e) e

/-- The search for required fields asks of one field after the other whether it may be absent. -/
theorem onlyResolves_requiredFields (s : ResolvedSchema) :
    c.OnlyResolves (c.requiredFields s) := by
  unfold requiredFields
  induction s.fields.entries with
  | nil =>
    rw [requiredAmong]
    exact .pure _
  | cons field rest ih =>
    rw [requiredAmong]
    refine (onlyResolves_admitsAbsence c _).bind fun admits => ?_
    exact ih.bind fun required => .pure _

end Asking

end Composer

/-! ## Checks -/

namespace Checking

open Composer (OnlyResolves onlyResolves_admitsAbsence)

variable {n : Nat} {c : Composer} {heap : Heap (Fin n)}

section Parts

variable {part : Path → Value (Fin n) → TypeExpr → Check}
  (hpart : ∀ path v e, c.OnlyResolves (part path v e))

include hpart

/-- The items of a sequence are checked one after the other, each at its index. -/
theorem onlyResolves_checkItems (path : Path) (inner : TypeExpr) (index : Nat)
    (items : List (Value (Fin n))) : c.OnlyResolves (checkItems part path inner index items) := by
  induction items generalizing index with
  | nil => exact .pure _
  | cons v rest ih =>
    refine (hpart _ v inner).bind fun here => ?_
    exact (ih _).bind fun further => .pure _

/-- An entry is a part, or its key ends the check. -/
theorem onlyResolves_checkEntry (path : Path) (inner : TypeExpr) (key : Scalar)
    (v : Value (Fin n)) : c.OnlyResolves (checkEntry part path inner key v) := by
  unfold checkEntry
  split
  · exact hpart _ v inner
  · exact .fail _

/-- Each entry of a mapping is checked by itself, in order. -/
theorem onlyResolves_checkEntries (path : Path) (inner : TypeExpr)
    (entries : List (Scalar × Value (Fin n))) :
    c.OnlyResolves (checkEntries part path inner entries) := by
  induction entries with
  | nil => exact .pure _
  | cons entry rest ih =>
    refine (onlyResolves_checkEntry hpart path inner entry.1 entry.2).bind fun here => ?_
    exact ih.bind fun further => .pure _

/-- A field with a value is checked as a part of the value; one without is asked whether it may
be absent. -/
theorem onlyResolves_checkFields (path : Path) (schema : ResolvedSchema)
    (entries : List (Scalar × Value (Fin n))) (fields : List (String × ResolvedField)) :
    c.OnlyResolves (checkFields c part path schema entries fields) := by
  induction fields with
  | nil => exact .pure _
  | cons field rest ih =>
    rw [checkFields]
    have hrest (here : List Failure) : c.OnlyResolves (do
        let further ← checkFields c part path schema entries rest
        return here ++ further : Check) := ih.bind fun further => .pure _
    -- an absent value is judged by its type, a present one is checked
    dsimp only
    split
    · refine (onlyResolves_admitsAbsence c _).bind fun admits => ?_
      cases admits with
      | true => exact (OnlyResolves.pure _).bind hrest
      | false => exact (OnlyResolves.pure _).bind hrest
    · exact (hpart _ _ _).bind hrest

end Parts

section Here

variable {s : Site n} {named : TypeExpr → Check}

/-- The look whether there is a value at all comes before the check and reads no memo. -/
theorem onlyResolves_present {check : Check} (type : TypeExpr) (h : c.OnlyResolves check) :
    c.OnlyResolves (s.present type check) := by
  unfold Site.present
  split
  · exact .pure _
  · exact h

/-- A failure that repeats the value resolves nothing, and a value that cannot be repeated ends
the check. -/
theorem onlyResolves_refuse (mismatch : String → Mismatch) :
    c.OnlyResolves (s.refuse mismatch) := by
  unfold Site.refuse
  cases s.value.shown? s.heap with
  | none => exact .fail _
  | some shown => exact .pure _

/-- Literals are compared with the value alone. -/
theorem onlyResolves_checkLiterals (fitting : List String) (mismatch : String → Mismatch) :
    c.OnlyResolves (s.checkLiterals fitting mismatch) := by
  unfold Site.checkLiterals
  split
  · split
    · exact .pure _
    · exact onlyResolves_refuse mismatch
  · exact onlyResolves_refuse mismatch

/-- Primitive types are judged by the value alone. -/
theorem onlyResolves_checkPrimitive (path : Path) (v : Value (Fin n)) (kind : String) :
    c.OnlyResolves (checkPrimitive heap path v kind) := by
  unfold checkPrimitive
  split
  · split <;> exact .pure _
  · split
    · exact .pure _
    · cases v with
      | atom a =>
        dsimp only
        split <;> exact .pure _
      | container p => exact .pure _

mutual
/-- **One layer of a type.** What the check does at names, at sequences and at mappings is given to
it, so it reaches the memo only where these three do. -/
theorem onlyResolves_checkHere (hnamed : ∀ e, c.OnlyResolves (named e))
    (hsequence : ∀ e, c.OnlyResolves (s.atSequence e))
    (hmapping : ∀ e, c.OnlyResolves (s.atMapping e)) :
    (e : TypeExpr) → c.OnlyResolves (checkHere s named e)
  | .optional inner => by
    rw [checkHere]
    split
    · exact .pure _
    · exact onlyResolves_checkHere hnamed hsequence hmapping inner
  | .primitive kind => by
    rw [checkHere]
    exact onlyResolves_checkPrimitive _ _ _
  | .reference name => by
    rw [checkHere]
    exact hnamed _
  | .generic base args => by
    rw [checkHere]
    exact hnamed _
  | .literal t => by
    rw [checkHere]
    exact onlyResolves_present _ (onlyResolves_checkLiterals _ _)
  | .enumSet values => by
    rw [checkHere]
    exact onlyResolves_present _ (onlyResolves_checkLiterals _ _)
  | .sequence inner => by
    rw [checkHere]
    exact onlyResolves_present _ (hsequence inner)
  | .mapping inner => by
    rw [checkHere]
    exact onlyResolves_present _ (hmapping inner)
  | .union members => by
    rw [checkHere]
    have hbranches := onlyResolves_checkBranches hnamed hsequence hmapping members
    refine onlyResolves_present _ (hbranches.bind fun attempts => ?_)
    cases attempts with
    | none => exact .pure _
    | some attempts => exact onlyResolves_refuse _
  | .intersection members => by
    rw [checkHere]
    exact onlyResolves_present _ (onlyResolves_checkEach hnamed hsequence hmapping members)

/-- The branches of a union are checked up to the first that fits; the induction is mutual with the
one for a layer. -/
theorem onlyResolves_checkBranches (hnamed : ∀ e, c.OnlyResolves (named e))
    (hsequence : ∀ e, c.OnlyResolves (s.atSequence e))
    (hmapping : ∀ e, c.OnlyResolves (s.atMapping e)) :
    (es : List TypeExpr) → c.OnlyResolves (checkBranches s named es)
  | [] => by
    rw [checkBranches]
    exact .pure _
  | e :: es => by
    rw [checkBranches]
    refine (onlyResolves_checkHere hnamed hsequence hmapping e).bind fun failures => ?_
    cases failures with
    | nil => exact .pure _
    | cons f rest =>
      have hrest := onlyResolves_checkBranches hnamed hsequence hmapping es
      exact hrest.bind fun attempts => .pure _

/-- All operands of an intersection are checked. -/
theorem onlyResolves_checkEach (hnamed : ∀ e, c.OnlyResolves (named e))
    (hsequence : ∀ e, c.OnlyResolves (s.atSequence e))
    (hmapping : ∀ e, c.OnlyResolves (s.atMapping e)) :
    (es : List TypeExpr) → c.OnlyResolves (checkEach s named es)
  | [] => by
    rw [checkEach]
    exact .pure _
  | e :: es => by
    rw [checkEach]
    refine (onlyResolves_checkHere hnamed hsequence hmapping e).bind fun here => ?_
    have hrest := onlyResolves_checkEach hnamed hsequence hmapping es
    exact hrest.bind fun further => .pure _
end

end Here

section Whole

variable {part : PartCheck n} (hpart : ∀ active path v e, c.OnlyResolves (part active path v e))

include hpart

/-- Entering a sequence asks only whether it is being checked already. -/
theorem onlyResolves_checkSequence (active : List (Fin n)) (path : Path) (v : Value (Fin n))
    (inner : TypeExpr) : c.OnlyResolves (checkSequence heap part active path v inner) := by
  unfold checkSequence
  cases v with
  | atom a => exact .pure _
  | container p =>
    dsimp only
    -- lists and tuples are checked alike
    split
    · split
      · exact .fail _
      · exact onlyResolves_checkItems (hpart _) _ _ _ _
    · split
      · exact .fail _
      · exact onlyResolves_checkItems (hpart _) _ _ _ _
    · exact .pure _

/-- Entering a mapping asks the same question, and its keys are no types. -/
theorem onlyResolves_checkMapping (active : List (Fin n)) (path : Path) (v : Value (Fin n))
    (inner : TypeExpr) : c.OnlyResolves (checkMapping heap part active path v inner) := by
  unfold checkMapping
  cases v with
  | atom a => exact .pure _
  | container p =>
    dsimp only
    split
    · split
      · exact .fail _
      · exact onlyResolves_checkEntries (hpart _) _ _ _
    all_goals exact .pure _

/-- A schema is at hand when a value is checked against it, so its fields alone are left. -/
theorem onlyResolves_checkStruct (active : List (Fin n)) (path : Path) (v : Value (Fin n))
    (schema : ResolvedSchema) : c.OnlyResolves (checkStruct c heap part active path v schema) := by
  unfold checkStruct
  cases v with
  | atom a =>
    dsimp only
    split <;> exact .pure _
  | container p =>
    dsimp only
    split
    · split
      · exact .fail _
      · exact onlyResolves_checkFields (hpart _) _ _ _ _
    all_goals exact .pure _

/-- A value against an expression: the three ways on from a layer are put in. -/
theorem onlyResolves_checkExpr (active : List (Fin n)) (path : Path) (v : Value (Fin n))
    (e : TypeExpr) : c.OnlyResolves (checkExpr c heap part active path v e) := by
  unfold checkExpr
  have hsequence (inner : TypeExpr) :
      c.OnlyResolves (checkSequence heap part active path v inner) :=
    onlyResolves_checkSequence hpart active path v inner
  have hmapping (inner : TypeExpr) :
      c.OnlyResolves (checkMapping heap part active path v inner) :=
    onlyResolves_checkMapping hpart active path v inner
  refine onlyResolves_checkHere (fun name => ?_) hsequence hmapping e
  -- the induction is on the names that may still be unfolded at this value
  induction c.maxDepth generalizing name with
  | zero =>
    rw [checkNamed]
    exact .fail _
  | succ depth ih =>
    rw [checkNamed]
    refine (OnlyResolves.resolve name).bind fun resolved => ?_
    cases resolved with
    | schema schema => exact onlyResolves_checkStruct hpart _ _ _ _
    | expression e' => exact onlyResolves_checkHere ih hsequence hmapping e'

end Whole

variable (c)

/-- The check of a part, by induction on the containers that may still be entered. -/
theorem onlyResolves_checkPart (room : Nat) (active : List (Fin n)) (path : Path)
    (v : Value (Fin n)) (e : TypeExpr) :
    c.OnlyResolves (checkPart c heap room active path v e) := by
  induction room generalizing active path v e with
  | zero => exact .fail _
  | succ room ih =>
    rw [checkPart]
    exact onlyResolves_checkExpr ih _ _ _ _

/-- The check of a whole value, against any target. -/
theorem onlyResolves_checkRoot (v : Value (Fin n)) (target : Target) :
    c.OnlyResolves (checkRoot c heap v target) := by
  cases target with
  | schema s => exact onlyResolves_checkStruct (onlyResolves_checkPart c n) _ _ _ _
  | expression e => exact onlyResolves_checkExpr (onlyResolves_checkPart c n) _ _ _ _
  | unsupported shown =>
    unfold checkRoot
    dsimp only
    split
    · exact .pure _
    · exact .fail _

end Checking

namespace Composer

variable (c : Composer) {n : Nat} {heap : Heap (Fin n)}

/-- **Checking a value only resolves.** -/
theorem onlyResolves_validate (v : Value (Fin n)) (target : Target) :
    c.OnlyResolves (c.validate heap v target) := by
  refine (Checking.onlyResolves_checkRoot c v target).bind fun failures => ?_
  exact (OnlyResolves.note _ _ _).bind fun _ => .pure _

/-- A name is resolved first, and what it stands for is the target. -/
theorem onlyResolves_validateNamed (v : Value (Fin n)) (name : String) :
    c.OnlyResolves (c.validateNamed heap v name) :=
  -- a bare name is resolved as a reference to it is
  (OnlyResolves.resolve (.reference name)).bind fun _ => onlyResolves_validate c v _

end Composer

end WidgetSchema
