/-
What a check goes into it comes out of.

A check is told the containers around it and tells its parts one container more, so what it
is told is never changed. Here the same check keeps one set of containers for the whole run.
It puts a container in before it looks at the parts, and takes it out behind them, however
they end: with failures or without, or with an error from any depth. A union visits its value
once for each branch, and an intersection for each member, and each visit puts the container
in and takes it out again.

A container is only entered from outside, so taking it out restores the set that was there
(`Tracks.inside`). The set is therefore at every call the one that the check would be told,
and what the two find, note and remember is the same: `Tracks` says so of an action, and there
is one rule for each way to make a check. What the check fails with is followed along, since
it may name containers that it stands in; where these are is left open (`Guides`).
-/
import Mathlib.Data.Finset.Basic
import Mathlib.Data.Finset.Dedup
import WidgetSchema.Proofs.ActionOutcomes

set_option autoImplicit false

namespace WidgetSchema

/-- A part of a container, by the step that leads to it. -/
inductive Container.StepsTo {A : Type} : Container A → PathStep → Value A → Prop
  | field {entries : List (Scalar × Value A)} {name : String} {v : Value A}
      (h : entry? entries name = some v) : StepsTo (.dict entries) (.field name) v
  | key {entries : List (Scalar × Value A)} {key : Scalar} {v : Value A} (h : (key, v) ∈ entries) :
      StepsTo (.dict entries) (.key key) v
  | item {items : List (Value A)} {i : Nat} {v : Value A} (h : items[i]? = some v) :
      StepsTo (.list items) (.index i) v
  | place {items : List (Value A)} {i : Nat} {v : Value A} (h : items[i]? = some v) :
      StepsTo (.tuple items) (.index i) v

/-- The memo, and the containers that a check stands in. -/
structure Standing (n : Nat) where
  memo : Memo
  active : Finset (Fin n)

namespace Entering

open Checking (fits refuse refuseShown tooLong cyclic checkPrimitive)

variable {n : Nat} {α β : Type}

/-- An action that keeps track of the containers it stands in. -/
abbrev Tracked (n : Nat) (α : Type) := Action Fault (Standing n) α

/-- A check that does. -/
abbrev Check (n : Nat) := Tracked n (List Failure)

/-- A check of a part of a container. -/
abbrev PartCheck (n : Nat) := Path → Value (Fin n) → TypeExpr → Check n

/-! ## The set -/

/-- What is done to the memo alone. -/
def onMemo (x : Action Fault Memo α) : Tracked n α := fun s =>
  let step := x s.memo
  { state := { s with memo := step.state }, journal := step.journal, outcome := step.outcome }

/-- Puts a container in, unless it is there. -/
def enter (path : Path) (p : Fin n) : Tracked n Unit := do
  let s ← .get
  if p ∈ s.active then .fail (.schema (.cyclicValue path.render))
  else .modify fun s => { s with active := insert p s.active }

/-- Takes a container out behind an action, however it ends. -/
def leaving (p : Fin n) (x : Tracked n α) : Tracked n α := fun s =>
  let step := x s
  { step with state := { step.state with active := step.state.active.erase p } }

/-- An action inside a container. -/
def inside (path : Path) (p : Fin n) (x : Tracked n α) : Tracked n α := do
  enter path p
  leaving p x

/-! ## Containers -/

/-- The items of a sequence, from a position on. -/
def checkItems (part : PartCheck n) (path : Path) (inner : TypeExpr) :
    (index : Nat) → List (Value (Fin n)) → Check n
  | _, [] => onMemo fits
  | index, v :: rest => do
    let here ← part (path.push (.index index)) v inner
    let further ← checkItems part path inner (index + 1) rest
    return here ++ further

/-- An entry of a mapping. -/
def checkEntry (part : PartCheck n) (path : Path) (inner : TypeExpr) (key : Scalar)
    (v : Value (Fin n)) : Check n :=
  if key.isWritable then part (path.push (.key key)) v inner else onMemo tooLong

/-- The entries of a mapping. -/
def checkEntries (part : PartCheck n) (path : Path) (inner : TypeExpr) :
    List (Scalar × Value (Fin n)) → Check n
  | [] => onMemo fits
  | (key, v) :: rest => do
    let here ← checkEntry part path inner key v
    let further ← checkEntries part path inner rest
    return here ++ further

/-- The fields of a schema in the entries of a dictionary. -/
def checkFields (c : Composer) (part : PartCheck n) (path : Path) (schema : ResolvedSchema)
    (entries : List (Scalar × Value (Fin n))) : List (String × ResolvedField) → Check n
  | [] => onMemo fits
  | (name, f) :: rest => do
    let v := (Container.entry? entries name).getD (.atom .missing)
    let path' := path.push (.field name)
    let here ←
      if v.isAbsent then do
        if ← onMemo (c.admitsAbsence f.expression) then onMemo fits
        else onMemo (refuse path' (.absentField name schema.label))
      else part path' v f.expression
    let further ← checkFields c part path schema entries rest
    return here ++ further

/-- A present value against a sequence. -/
def checkSequence (heap : Heap (Fin n)) (part : PartCheck n) (path : Path) (v : Value (Fin n))
    (inner : TypeExpr) : Check n :=
  match v with
  | .atom a => onMemo (refuse path (.otherKind "sequence" a.kindName))
  | .container p =>
    match heap p with
    | .list items | .tuple items => inside path p (checkItems part path inner 0 items)
    | .dict _ => onMemo (refuse path (.otherKind "sequence" (heap p).kindName))

/-- A present value against a mapping. -/
def checkMapping (heap : Heap (Fin n)) (part : PartCheck n) (path : Path) (v : Value (Fin n))
    (inner : TypeExpr) : Check n :=
  match v with
  | .atom a => onMemo (refuse path (.otherKind "mapping" a.kindName))
  | .container p =>
    match heap p with
    | .dict entries => inside path p (checkEntries part path inner entries)
    | .list _ | .tuple _ => onMemo (refuse path (.otherKind "mapping" (heap p).kindName))

/-- A value against a schema. -/
def checkStruct (c : Composer) (heap : Heap (Fin n)) (part : PartCheck n) (path : Path)
    (v : Value (Fin n)) (schema : ResolvedSchema) : Check n :=
  match v with
  | .atom a =>
    if a.isAbsent then onMemo (refuse path (.absent schema.label))
    else onMemo (refuse path (.otherKind (schema.label ++ " object") a.kindName))
  | .container p =>
    match heap p with
    | .dict entries => inside path p (checkFields c part path schema entries schema.fields.entries)
    | .list _ | .tuple _ =>
      onMemo (refuse path (.otherKind (schema.label ++ " object") (heap p).kindName))

/-! ## One value -/

/-- The value being checked and what to do where its type leaves the expression. -/
structure Site (n : Nat) where
  heap : Heap (Fin n)
  path : Path
  value : Value (Fin n)
  atSequence : TypeExpr → Check n
  atMapping : TypeExpr → Check n

/-- Goes on if the value of a site is there. -/
def Site.present (s : Site n) (type : TypeExpr) (check : Check n) : Check n :=
  if s.value.isAbsent then onMemo (refuse s.path (.absentValue type.render)) else check

/-- One failure at a site that repeats the value. -/
def Site.refuse (s : Site n) (mismatch : String → Mismatch) : Check n :=
  onMemo (refuseShown s.path (s.value.shown? s.heap) mismatch)

/-- A present value against a set of literals. -/
def Site.checkLiterals (s : Site n) (fitting : List String) (mismatch : String → Mismatch) :
    Check n :=
  match s.value with
  | .atom (.text t) => if t ∈ fitting then onMemo fits else s.refuse mismatch
  | _ => s.refuse mismatch

mutual
/-- The value of a site against an expression, with type names checked by `named`. -/
def checkHere (s : Site n) (named : TypeExpr → Check n) : TypeExpr → Check n
  | .optional inner => if s.value.isAbsent then onMemo fits else checkHere s named inner
  | .primitive kind => onMemo (checkPrimitive s.heap s.path s.value kind)
  | .reference name => named (.reference name)
  | .generic base args => named (.generic base args)
  | .literal t =>
    s.present (.literal t) <| s.checkLiterals [t] fun shown =>
      .notLiteral shown (TypeExpr.literal t).render
  | .enumSet values =>
    s.present (.enumSet values) <| s.checkLiterals values.toList fun shown =>
      .notInSet shown values.toList
  | .sequence inner => s.present (.sequence inner) (s.atSequence inner)
  | .mapping inner => s.present (.mapping inner) (s.atMapping inner)
  | .union members =>
    s.present (.union members) do
      match ← checkBranches s named members with
      | none => onMemo fits
      | some attempts => s.refuse fun shown => .noBranch shown attempts
  | .intersection members => s.present (.intersection members) (checkEach s named members)

/-- The branches of a union, up to the first that fits. -/
def checkBranches (s : Site n) (named : TypeExpr → Check n) :
    List TypeExpr → Tracked n (Option (List CodeText))
  | [] => return some []
  | e :: es => do
    match ← checkHere s named e with
    | [] => return none
    | f :: _ => do
      let attempts ← checkBranches s named es
      return attempts.map fun further => f.attempt e :: further

/-- The members of an intersection, all at the same value. -/
def checkEach (s : Site n) (named : TypeExpr → Check n) : List TypeExpr → Check n
  | [] => onMemo fits
  | e :: es => do
    let here ← checkHere s named e
    let further ← checkEach s named es
    return here ++ further
end

/-- A type name at a site; `depth` names may be unfolded one after the other. -/
def checkNamed (c : Composer) (s : Site n) (struct : ResolvedSchema → Check n) :
    (depth : Nat) → TypeExpr → Check n
  | 0, e => onMemo (.fail (.schema (.resolutionDepth e.render c.maxDepth)))
  | depth + 1, e => do
    match ← onMemo ((c.resolveExpression e).mapError Fault.schema) with
    | .schema schema => struct schema
    | .expression e' => checkHere s (checkNamed c s struct depth) e'

/-! ## Nested values -/

/-- A value against an expression, inside the containers of the set; `depth` names may still be
unfolded at it. -/
def checkExpr (c : Composer) (heap : Heap (Fin n)) (part : PartCheck n) (depth : Nat) (path : Path)
    (v : Value (Fin n)) (e : TypeExpr) : Check n :=
  let s : Site n :=
    { heap, path, value := v
      atSequence := checkSequence heap part path v
      atMapping := checkMapping heap part path v }
  checkHere s (checkNamed c s (checkStruct c heap part path v) depth) e

/-- The parts of containers; `room` more containers can be entered. -/
def checkPart (c : Composer) (heap : Heap (Fin n)) : (room : Nat) → PartCheck n
  | 0, path, _, _ => onMemo (cyclic path)
  | room + 1, path, v, e => checkExpr c heap (checkPart c heap room) c.maxDepth path v e

/-- A whole value against a target. -/
def checkRoot (c : Composer) (heap : Heap (Fin n)) (v : Value (Fin n)) : Target → Check n
  | .schema s => checkStruct c heap (checkPart c heap n) .root v s
  | .expression e => checkExpr c heap (checkPart c heap n) c.maxDepth .root v e
  | .unsupported shown =>
    if v.isAbsent then onMemo (refuse .root (.absentValue shown))
    else onMemo (.fail (.unsupportedType shown))

/-! ## Tracking -/

/-- A step on the memo as a step that leaves the set as it was. -/
def unmoved (active : Finset (Fin n)) (step : Step Fault Memo α) : Step Fault (Standing n) α :=
  { state := { memo := step.state, active }
    journal := step.journal
    outcome := step.outcome }

/-- Inside the containers of the list, the first action does what the second one does, and
leaves the set as it was. The second one keeps `P` and fails with errors in `E` only. -/
structure Tracks (P : Memo → Prop) (E : Fault → Prop) (active : List (Fin n)) (x : Tracked n α)
    (y : Action Fault Memo α) : Prop where
  run : ∀ memo, x.run { memo, active := active.toFinset } = unmoved active.toFinset (y.run memo)
  yields : y.Yields P (fun _ => True) E

section Rules

variable {P : Memo → Prop} {E : Fault → Prop} {active : List (Fin n)} {x : Tracked n α}
  {y : Action Fault Memo α}

/-- Returning leaves the set alone. -/
theorem tracks_pure (a : α) :
    Tracks P E active (pure a) (pure a) where
  run _ := rfl
  yields := Action.yields_pure trivial

/-- What works on the memo only leaves the set alone. -/
theorem tracks_onMemo (h : y.Yields P (fun _ => True) E) : Tracks P E active (onMemo y) y where
  run _ := rfl
  yields := h

/-- Each part leaves the set as it found it, so the second one finds the containers of
the list too. -/
theorem Tracks.bind {f : α → Tracked n β} {g : α → Action Fault Memo β}
    (h : Tracks P E active x y) (hf : ∀ a, Tracks P E active (f a) (g a)) :
    Tracks P E active (x >>= f) (y >>= g) where
  run memo := by
    cases hy : (y.run memo).outcome with
    | error e =>
      have hx : (x.run { memo, active := active.toFinset }).outcome = .error e := by
        rw [h.run]
        exact hy
      rw [Action.run_bind_error hx, Action.run_bind_error hy, h.run]
      rfl
    | ok a =>
      have hx : (x.run { memo, active := active.toFinset }).outcome = .ok a := by
        rw [h.run]
        exact hy
      -- the second part starts with the set that the first one left
      rw [Action.run_bind_ok hx, Action.run_bind_ok hy, h.run]
      unfold unmoved
      rw [(hf a).run]
      rfl
  yields := h.yields.bind fun a _ => (hf a).yields

/-- Entering a container fails if it is in the set, and puts it there otherwise. -/
theorem run_enter (path : Path) (p : Fin n) (s : Standing n) :
    (enter path p).run s =
      if p ∈ s.active then
        { state := s
          journal := []
          outcome := .error (.schema (.cyclicValue path.render)) }
      else
        { state := { s with active := insert p s.active }
          journal := []
          outcome := .ok () } := by
  have hget : (Action.get.run s : Step Fault (Standing n) (Standing n)).outcome = .ok s := rfl
  unfold enter
  rw [Action.run_bind_ok hget, Action.run_get]
  by_cases hp : p ∈ s.active
  · rw [if_pos hp, if_pos hp]
    rfl
  · rw [if_neg hp, if_neg hp]
    rfl

/-- Leaving takes the container out, however what was done inside has ended. -/
theorem run_leaving (p : Fin n) (s : Standing n) :
    (leaving p x).run s =
      { state := { memo := (x.run s).state.memo, active := (x.run s).state.active.erase p }
        journal := (x.run s).journal
        outcome := (x.run s).outcome } := rfl

/-- A container that the check stands in is not entered again. -/
theorem tracks_again {path : Path} {p : Fin n} {x : Check n} (hp : p ∈ active)
    (herror : E (.schema (.cyclicValue path.render))) :
    Tracks P E active (inside path p x) (cyclic path) where
  run memo := by
    have hmem : p ∈ active.toFinset := List.mem_toFinset.2 hp
    have henter := run_enter path p { memo, active := active.toFinset }
    rw [if_pos hmem] at henter
    unfold Entering.inside
    rw [Action.run_bind_error (by rw [henter]), henter]
    rfl
  yields := Action.yields_fail herror

/-- **A container that is entered is left**, and nothing else is taken out: it was not
there before. -/
theorem Tracks.inside {path : Path} {p : Fin n} (hp : p ∉ active)
    (h : Tracks P E (p :: active) x y) : Tracks P E active (inside path p x) y where
  run memo := by
    have hmem : p ∉ active.toFinset := fun hmem => hp (List.mem_toFinset.1 hmem)
    have henter := run_enter path p { memo, active := active.toFinset }
    rw [if_neg hmem] at henter
    have hrun := h.run memo
    rw [List.toFinset_cons] at hrun
    unfold Entering.inside
    rw [Action.run_bind_ok (by rw [henter]), henter, run_leaving, hrun]
    simp only [unmoved]
    -- only a container that was not there is put in, so taking it out gives the old set
    rw [Finset.erase_insert hmem, List.nil_append]
  yields := h.yields

end Rules

/-! ## Where a check stands -/

/-- `I` is known at a check with room for so many containers, inside those of a list, at a path
and a value: it is handed on to the parts of a container that is entered. What is asked of
resolution keeps `P`, and all errors that there can be are in `E`. -/
structure Guides (c : Composer) (heap : Heap (Fin n)) (P : Memo → Prop) (E : Fault → Prop)
    (I : Nat → List (Fin n) → Path → Value (Fin n) → Prop) : Prop where
  resolves : ∀ e, ((c.resolveExpression e).mapError Fault.schema).Yields P (fun _ => True) E
  asks : ∀ e, (c.admitsAbsence e).Yields P (fun _ => True) E
  bound : ∀ label, E (.schema (.resolutionDepth label c.maxDepth))
  unsupported : ∀ shown, E (.unsupportedType shown)
  digits : E .tooManyDigits
  again : ∀ room active path p, I room active path (.container p) → p ∈ active →
    E (.schema (.cyclicValue path.render))
  beyond : ∀ active path v, I 0 active path v → E (.schema (.cyclicValue path.render))
  part : ∀ room active path p step v, I (room + 1) active path (.container p) → p ∉ active →
    (heap p).StepsTo step v → I room (p :: active) (path.push step) v

variable {c : Composer} {heap : Heap (Fin n)} {P : Memo → Prop} {E : Fault → Prop}
  {I : Nat → List (Fin n) → Path → Value (Fin n) → Prop} {active : List (Fin n)}

/-- A refusal is made from the value alone. -/
theorem tracks_refuse (path : Path) (mismatch : Mismatch) :
    Tracks P E active (onMemo (refuse path mismatch)) (refuse path mismatch) :=
  tracks_onMemo (Action.yields_pure trivial)

/-- A value that fits asks for nothing more. -/
theorem tracks_fits : Tracks P E active (onMemo fits) fits :=
  tracks_onMemo (Action.yields_pure trivial)

section Parts

variable {part : PartCheck n} {part' : Path → Value (Fin n) → TypeExpr → Checking.Check}
  {path : Path}

/-- The items, in order, at the same paths. They only have to be tracked at the places where
they stand. -/
theorem checkItems_tracks {inner : TypeExpr} {index : Nat} {items : List (Value (Fin n))}
    (h : ∀ i v, items[i]? = some v → Tracks P E active
      (part (path.push (.index (index + i))) v inner)
      (part' (path.push (.index (index + i))) v inner)) :
    Tracks P E active (checkItems part path inner index items)
      (Checking.checkItems part' path inner index items) := by
  induction items generalizing index with
  | nil => exact tracks_fits
  | cons v rest ih =>
    refine Tracks.bind (h 0 v rfl) fun here => ?_
    refine Tracks.bind (ih fun i w hw => ?_) fun further => tracks_pure _
    have hnext := h (i + 1) w hw
    rwa [Nat.add_comm i 1, ← Nat.add_assoc] at hnext

/-- An entry is a part, or its key ends the check. -/
theorem checkEntry_tracks {inner : TypeExpr} {key : Scalar} {v : Value (Fin n)}
    (hdigits : E .tooManyDigits) (h : Tracks P E active
      (part (path.push (.key key)) v inner) (part' (path.push (.key key)) v inner)) :
    Tracks P E active (checkEntry part path inner key v)
      (Checking.checkEntry part' path inner key v) := by
  unfold checkEntry Checking.checkEntry
  split
  · exact h
  · exact tracks_onMemo (Action.yields_fail hdigits)

/-- The entries, in order; a key that cannot be part of a path ends both checks with the
same fault. -/
theorem checkEntries_tracks {inner : TypeExpr} {entries : List (Scalar × Value (Fin n))}
    (hdigits : E .tooManyDigits) (h : ∀ key v, (key, v) ∈ entries → Tracks P E active
      (part (path.push (.key key)) v inner) (part' (path.push (.key key)) v inner)) :
    Tracks P E active (checkEntries part path inner entries)
      (Checking.checkEntries part' path inner entries) := by
  induction entries with
  | nil => exact tracks_fits
  | cons entry rest ih =>
    have hentry := checkEntry_tracks hdigits (h entry.1 entry.2 List.mem_cons_self)
    refine Tracks.bind hentry fun here => ?_
    refine Tracks.bind (ih fun key v hv => h key v (List.mem_cons_of_mem _ hv)) fun further => ?_
    exact tracks_pure _

/-- A field that is there is checked where it stands; any other is judged by its type. -/
theorem checkFields_tracks (hg : Guides c heap P E I) {schema : ResolvedSchema}
    {entries : List (Scalar × Value (Fin n))} {fields : List (String × ResolvedField)}
    (h : ∀ name v e, Container.entry? entries name = some v → Tracks P E active
      (part (path.push (.field name)) v e) (part' (path.push (.field name)) v e)) :
    Tracks P E active (checkFields c part path schema entries fields)
      (Checking.checkFields c part' path schema entries fields) := by
  induction fields with
  | nil => exact tracks_fits
  | cons field rest ih =>
    have hrest (here : List Failure) := ih.bind fun further => tracks_pure (here ++ further)
    rw [checkFields, Checking.checkFields]
    dsimp only
    by_cases habsent : ((Container.entry? entries field.1).getD (.atom .missing)).isAbsent = true
    · rw [if_pos habsent, if_pos habsent]
      refine (tracks_onMemo (hg.asks _)).bind fun admits => ?_
      cases admits with
      | true => exact tracks_fits.bind hrest
      | false => exact (tracks_refuse _ _).bind hrest
    · rw [if_neg habsent, if_neg habsent]
      refine Tracks.bind (h _ _ _ ?_) hrest
      -- a field without an entry would be absent
      cases hentry : Container.entry? entries field.1 with
      | some v => rfl
      | none =>
        rw [hentry] at habsent
        exact absurd rfl habsent

end Parts

section Whole

variable {path : Path} {v : Value (Fin n)} {p : Fin n} (hg : Guides c heap P E I) (room : Nat)

include hg

/-- A container is checked inside the others, unless it is one of them. -/
theorem inside_tracks {x : Check n} {y : Checking.Check}
    (hI : I (room + 1) active path (.container p)) (hagain : p ∈ active → y = cyclic path)
    (h : p ∉ active → Tracks P E (p :: active) x y) :
    Tracks P E active (inside path p x) y := by
  by_cases hp : p ∈ active
  · rw [hagain hp]
    exact tracks_again hp (hg.again _ _ _ _ hI hp)
  · exact (h hp).inside hp

variable {part : PartCheck n} {part' : Checking.PartCheck n}
  (hpart : ∀ active path v e, I room active path v →
    Tracks P E active (part path v e) (part' active path v e))
  (hI : I (room + 1) active path v)

include hpart

/-- A part of a container that is entered is checked alike. -/
theorem part_tracks {held : Container (Fin n)} {step : PathStep}
    (hI : I (room + 1) active path (.container p)) (hp : p ∉ active) (hheld : heap p = held)
    (hstep : held.StepsTo step v) (e : TypeExpr) :
    Tracks P E (p :: active) (part (path.push step) v e)
      (part' (p :: active) (path.push step) v e) := by
  rw [← hheld] at hstep
  exact hpart _ _ _ _ (hg.part _ _ _ _ _ _ hI hp hstep)

include hI

/-- The set has a container where the list has it, so the same one is met again. -/
theorem checkSequence_tracks (inner : TypeExpr) :
    Tracks P E active (checkSequence heap part path v inner)
      (Checking.checkSequence heap part' active path v inner) := by
  unfold checkSequence Checking.checkSequence
  cases v with
  | atom a => exact tracks_refuse _ _
  | container p =>
    cases hheld : heap p with
    | list items =>
      simp only [hheld]
      refine inside_tracks hg room hI (fun hp => if_pos hp) fun hp => ?_
      rw [if_neg hp]
      refine checkItems_tracks fun i v hv => ?_
      rw [Nat.zero_add]
      exact part_tracks hg room hpart hI hp hheld (.item hv) inner
    | tuple items =>
      simp only [hheld]
      refine inside_tracks hg room hI (fun hp => if_pos hp) fun hp => ?_
      rw [if_neg hp]
      refine checkItems_tracks fun i v hv => ?_
      rw [Nat.zero_add]
      exact part_tracks hg room hpart hI hp hheld (.place hv) inner
    | dict entries =>
      simp only [hheld]
      exact tracks_refuse _ _

/-- The same for mappings. -/
theorem checkMapping_tracks (inner : TypeExpr) :
    Tracks P E active (checkMapping heap part path v inner)
      (Checking.checkMapping heap part' active path v inner) := by
  unfold checkMapping Checking.checkMapping
  cases v with
  | atom a => exact tracks_refuse _ _
  | container p =>
    cases hheld : heap p with
    | dict entries =>
      simp only [hheld]
      refine inside_tracks hg room hI (fun hp => if_pos hp) fun hp => ?_
      rw [if_neg hp]
      refine checkEntries_tracks hg.digits fun key v hv => ?_
      exact part_tracks hg room hpart hI hp hheld (.key hv) inner
    | list items | tuple items =>
      simp only [hheld]
      exact tracks_refuse _ _

/-- The same for values of a schema, whose fields are looked up in the container just entered. -/
theorem checkStruct_tracks (schema : ResolvedSchema) :
    Tracks P E active (checkStruct c heap part path v schema)
      (Checking.checkStruct c heap part' active path v schema) := by
  unfold checkStruct Checking.checkStruct
  cases v with
  | atom a =>
    dsimp only
    split <;> exact tracks_refuse _ _
  | container p =>
    cases hheld : heap p with
    | dict entries =>
      simp only [hheld]
      refine inside_tracks hg room hI (fun hp => if_pos hp) fun hp => ?_
      rw [if_neg hp]
      refine checkFields_tracks hg fun name v e hv => ?_
      exact part_tracks hg room hpart hI hp hheld (.field hv) e
    | list items | tuple items =>
      simp only [hheld]
      exact tracks_refuse _ _

end Whole

/-! ## One value -/

section Here

variable {s : Site n} {s' : Checking.Site n} {named : TypeExpr → Check n}
  {named' : TypeExpr → Checking.Check}

/-- The two sites are at one value, and are left for checks that do the same. -/
structure TracksSite (P : Memo → Prop) (E : Fault → Prop) (active : List (Fin n)) (s : Site n)
    (s' : Checking.Site n) : Prop where
  heap : s.heap = s'.heap
  path : s.path = s'.path
  value : s.value = s'.value
  atSequence : ∀ inner, Tracks P E active (s.atSequence inner) (s'.atSequence inner)
  atMapping : ∀ inner, Tracks P E active (s.atMapping inner) (s'.atMapping inner)
  digits : E .tooManyDigits

/-- Whether there is a value is asked before any container is entered. -/
theorem present_tracks (hs : TracksSite P E active s s') (type : TypeExpr) {x : Check n}
    {y : Checking.Check} (h : Tracks P E active x y) :
    Tracks P E active (s.present type x) (s'.present type y) := by
  unfold Site.present Checking.Site.present
  rw [hs.value, hs.path]
  split
  · exact tracks_refuse _ _
  · exact h

/-- A failure that repeats the value is found alike, and so is that the value cannot be
repeated. -/
theorem refuse_tracks (hs : TracksSite P E active s s') (mismatch : String → Mismatch) :
    Tracks P E active (s.refuse mismatch) (s'.refuse mismatch) := by
  unfold Site.refuse Checking.Site.refuse
  rw [hs.heap, hs.path, hs.value]
  cases s'.value.shown? s'.heap with
  | none => exact tracks_onMemo (Action.yields_fail hs.digits)
  | some shown => exact tracks_refuse _ _

/-- Literals are compared with the value alone. -/
theorem checkLiterals_tracks (hs : TracksSite P E active s s') (fitting : List String)
    (mismatch : String → Mismatch) :
    Tracks P E active (s.checkLiterals fitting mismatch) (s'.checkLiterals fitting mismatch) := by
  have hrefuse := refuse_tracks hs mismatch
  unfold Site.checkLiterals Checking.Site.checkLiterals
  rw [hs.value]
  cases s'.value with
  | container p => exact hrefuse
  | atom a =>
    cases a with
    | text t =>
      dsimp only
      split
      · exact tracks_fits
      · exact hrefuse
    | _ => exact hrefuse

/-- A check against a scalar kind returns and does nothing else. -/
theorem checkPrimitive_returns (heap : Heap (Fin n)) (path : Path) (v : Value (Fin n))
    (kind : String) : (checkPrimitive heap path v kind).Yields P (fun _ => True) E := by
  unfold checkPrimitive
  split
  · split <;> exact Action.yields_pure trivial
  · split
    · exact Action.yields_pure trivial
    · cases v with
      | atom a =>
        dsimp only
        split <;> exact Action.yields_pure trivial
      | container p => exact Action.yields_pure trivial

mutual
/-- **The check at one value does the same**, one case for each kind of type. -/
theorem checkHere_tracks (hs : TracksSite P E active s s')
    (hnamed : ∀ e, Tracks P E active (named e) (named' e)) :
    (e : TypeExpr) → Tracks P E active (checkHere s named e) (Checking.checkHere s' named' e)
  | .optional inner => by
    rw [checkHere, Checking.checkHere, hs.value]
    split
    · exact tracks_fits
    · exact checkHere_tracks hs hnamed inner
  | .primitive kind => by
    rw [checkHere, Checking.checkHere, hs.heap, hs.path, hs.value]
    exact tracks_onMemo (checkPrimitive_returns _ _ _ _)
  | .reference name => by
    rw [checkHere, Checking.checkHere]
    exact hnamed _
  | .generic base args => by
    rw [checkHere, Checking.checkHere]
    exact hnamed _
  | .literal t => by
    rw [checkHere, Checking.checkHere]
    exact present_tracks hs _ (checkLiterals_tracks hs _ _)
  | .enumSet values => by
    rw [checkHere, Checking.checkHere]
    exact present_tracks hs _ (checkLiterals_tracks hs _ _)
  | .sequence inner => by
    rw [checkHere, Checking.checkHere]
    exact present_tracks hs _ (hs.atSequence inner)
  | .mapping inner => by
    rw [checkHere, Checking.checkHere]
    exact present_tracks hs _ (hs.atMapping inner)
  | .union members => by
    rw [checkHere, Checking.checkHere]
    refine present_tracks hs _ ((checkBranches_tracks hs hnamed members).bind fun attempts => ?_)
    cases attempts with
    | none => exact tracks_fits
    | some attempts => exact refuse_tracks hs _
  | .intersection members => by
    rw [checkHere, Checking.checkHere]
    exact present_tracks hs _ (checkEach_tracks hs hnamed members)

/-- A branch that fails has left what it entered, so the next one starts from the same set. -/
theorem checkBranches_tracks (hs : TracksSite P E active s s')
    (hnamed : ∀ e, Tracks P E active (named e) (named' e)) :
    (es : List TypeExpr) →
      Tracks P E active (checkBranches s named es) (Checking.checkBranches s' named' es)
  | [] => by
    rw [checkBranches, Checking.checkBranches]
    exact tracks_pure _
  | e :: es => by
    rw [checkBranches, Checking.checkBranches]
    refine (checkHere_tracks hs hnamed e).bind fun failures => ?_
    cases failures with
    | nil => exact tracks_pure _
    | cons f rest => exact (checkBranches_tracks hs hnamed es).bind fun attempts => tracks_pure _

/-- All operands of an intersection start from the same set. -/
theorem checkEach_tracks (hs : TracksSite P E active s s')
    (hnamed : ∀ e, Tracks P E active (named e) (named' e)) :
    (es : List TypeExpr) →
      Tracks P E active (checkEach s named es) (Checking.checkEach s' named' es)
  | [] => by
    rw [checkEach, Checking.checkEach]
    exact tracks_fits
  | e :: es => by
    rw [checkEach, Checking.checkEach]
    refine (checkHere_tracks hs hnamed e).bind fun here => ?_
    exact (checkEach_tracks hs hnamed es).bind fun further => tracks_pure _
end

/-- The induction is on the names that may still be unfolded. -/
theorem checkNamed_tracks (hg : Guides c heap P E I) (hs : TracksSite P E active s s')
    {struct : ResolvedSchema → Check n} {struct' : ResolvedSchema → Checking.Check}
    (hstruct : ∀ schema, Tracks P E active (struct schema) (struct' schema)) (depth : Nat)
    (e : TypeExpr) :
    Tracks P E active (checkNamed c s struct depth e)
      (Checking.checkNamed c s' struct' depth e) := by
  induction depth generalizing e with
  | zero =>
    rw [checkNamed, Checking.checkNamed]
    exact tracks_onMemo (Action.yields_fail (hg.bound _))
  | succ depth ih =>
    rw [checkNamed, Checking.checkNamed]
    refine (tracks_onMemo (hg.resolves e)).bind fun resolved => ?_
    cases resolved with
    | schema schema => exact hstruct schema
    | expression e' => exact checkHere_tracks hs ih e'

end Here

/-! ## Nested values -/

section Nested

variable (hg : Guides c heap P E I)

include hg

/-- **A value is checked alike**, with any number of names still to be unfolded at it. -/
theorem checkExpr_tracks (room : Nat) {path : Path} {v : Value (Fin n)} {part : PartCheck n}
    {part' : Checking.PartCheck n}
    (hpart : ∀ active path v e, I room active path v →
      Tracks P E active (part path v e) (part' active path v e))
    (hI : I (room + 1) active path v) (depth : Nat) (e : TypeExpr) :
    let s' : Checking.Site n :=
      { heap, path, value := v
        atSequence := Checking.checkSequence heap part' active path v
        atMapping := Checking.checkMapping heap part' active path v }
    Tracks P E active (checkExpr c heap part depth path v e)
      (Checking.checkHere s' (Checking.checkNamed c s'
        (Checking.checkStruct c heap part' active path v) depth) e) := by
  intro s'
  let s : Site n :=
    { heap, path, value := v
      atSequence := checkSequence heap part path v
      atMapping := checkMapping heap part path v }
  have hs : TracksSite P E active s s' :=
    { heap := rfl
      path := rfl
      value := rfl
      atSequence := checkSequence_tracks hg room hpart hI
      atMapping := checkMapping_tracks hg room hpart hI
      digits := hg.digits }
  exact checkHere_tracks hs (checkNamed_tracks hg hs (checkStruct_tracks hg room hpart hI) depth) e

/-- The induction is on the containers that may still be entered. -/
theorem checkPart_tracks (room : Nat) (active : List (Fin n)) (path : Path) (v : Value (Fin n))
    (e : TypeExpr) (hI : I room active path v) :
    Tracks P E active (checkPart c heap room path v e)
      (Checking.checkPart c heap room active path v e) := by
  induction room generalizing active path v e with
  | zero =>
    rw [checkPart, Checking.checkPart]
    exact tracks_onMemo (Action.yields_fail (hg.beyond _ _ _ hI))
  | succ room ih =>
    rw [checkPart, Checking.checkPart]
    exact checkExpr_tracks hg room ih hI c.maxDepth e

/-- **A whole value is checked alike** by the check that is told the containers around it and
by the one that keeps track of them. -/
theorem checkRoot_tracks {v : Value (Fin n)} (hI : I (n + 1) [] .root v) (target : Target) :
    Tracks P E [] (checkRoot c heap v target) (Checking.checkRoot c heap v target) := by
  cases target with
  | schema s => exact checkStruct_tracks hg n (checkPart_tracks hg n) hI s
  | expression e => exact checkExpr_tracks hg n (checkPart_tracks hg n) hI c.maxDepth e
  | unsupported shown =>
    unfold checkRoot Checking.checkRoot
    dsimp only
    split
    · exact tracks_refuse _ _
    · exact tracks_onMemo (Action.yields_fail (hg.unsupported shown))

end Nested

/-! ## The set is restored -/

/-- However the action ends, the set is the one that it was started with. -/
def Restores (x : Tracked n α) : Prop := ∀ s, (x.run s).state.active = s.active

/-- What follows a check with a list leaves the set as it was, since a list is only ever
passed inwards. -/
theorem restores_of_tracks {x : Tracked n α} {y : List (Fin n) → Action Fault Memo α}
    (h : ∀ active, Tracks P E active x (y active)) : Restores x := by
  intro s
  -- every set is that of some list
  have hset : s.active.toList.toFinset = s.active := Finset.toList_toFinset s.active
  have hrun := (h s.active.toList).run s.memo
  rw [hset] at hrun
  rw [hrun, unmoved]

/-- With all errors allowed and nothing kept, nothing need be known of where a check stands. -/
theorem guides_anywhere (c : Composer) (heap : Heap (Fin n)) :
    Guides c heap (fun _ => True) (fun _ => True) fun _ _ _ _ => True where
  resolves _ := ⟨fun _ _ => trivial, fun _ _ _ _ => trivial, fun _ _ _ _ => trivial⟩
  asks _ := ⟨fun _ _ => trivial, fun _ _ _ _ => trivial, fun _ _ _ _ => trivial⟩
  bound _ := trivial
  unsupported _ := trivial
  digits := trivial
  again _ _ _ _ _ _ := trivial
  beyond _ _ _ _ := trivial
  part _ _ _ _ _ _ _ _ _ := trivial

/-- **Every check restores the set**: a value against an expression, with any number of names
still to be unfolded, against a schema, a sequence or a mapping, with any containers around it. -/
theorem checks_restore (c : Composer) (heap : Heap (Fin n)) (room : Nat) (path : Path)
    (v : Value (Fin n)) :
    (∀ depth e, Restores (checkExpr c heap (checkPart c heap room) depth path v e)) ∧
    (∀ schema, Restores (checkStruct c heap (checkPart c heap room) path v schema)) ∧
    (∀ inner, Restores (checkSequence heap (checkPart c heap room) path v inner)) ∧
    ∀ inner, Restores (checkMapping heap (checkPart c heap room) path v inner) := by
  have hg := guides_anywhere c heap
  have hpart := checkPart_tracks hg room
  refine ⟨fun depth e => ?_, fun schema => ?_, fun inner => ?_, fun inner => ?_⟩
  · exact restores_of_tracks fun active => checkExpr_tracks hg room hpart trivial depth e
  · exact restores_of_tracks fun active => checkStruct_tracks hg room hpart trivial schema
  · exact restores_of_tracks fun active => checkSequence_tracks hg room hpart trivial inner
  · exact restores_of_tracks fun active => checkMapping_tracks hg room hpart trivial inner

end Entering

end WidgetSchema
