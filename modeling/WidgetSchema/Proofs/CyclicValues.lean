/-
A cyclic value is found where it comes back.

A check ends with a cyclic value at a container that it stands in. It came there on a path
from the root, and each container around it lies on that path (`Stands`), so the path of the
error comes back to a container that it has gone through (`Value.ComesBack`). A value that
does not contain itself has no such path.

Nothing else ends a check in this way. Types that are built on themselves are errors of
another kind, and the case without room, in which every container would count as a cycle, is
not reached: a check stands in different containers only, and there is room for all of them.

The set of containers that a check keeps is looked at by entering only, and is what it was
behind every part of a check; so a container counts as a cycle exactly inside of itself, and
not beside itself.
-/
import WidgetSchema.Proofs.AbsenceTermination
import WidgetSchema.Proofs.ActiveContainers
import WidgetSchema.Proofs.Independence
import WidgetSchema.Proofs.RaisedErrors
import WidgetSchema.Proofs.ValueCopies

set_option autoImplicit false

namespace WidgetSchema

/-! ## Paths through a value -/

section Paths

variable {A : Type} {heap : Heap A} {v w x : Value A} {p : A} {path before loop : Path}
  {step : PathStep}

/-- A path with a step is not the root. -/
theorem Path.push_ne_root (path : Path) (step : PathStep) : path.push step ≠ .root :=
  List.append_ne_nil_of_right_ne_nil path (List.cons_ne_nil step [])

/-- The path leads from the value to a part of it. -/
inductive Value.Leads (heap : Heap A) (v : Value A) : Path → Value A → Prop
  | root : Leads heap v .root v
  | push {path : Path} {p : A} {step : PathStep} {w : Value A}
      (h : Leads heap v path (.container p)) (hstep : (heap p).StepsTo step w) :
      Leads heap v (path.push step) w

/-- The path comes back to a container that it has gone through, at a proper prefix of it. -/
structure Value.ComesBack (heap : Heap A) (v : Value A) (before loop : Path) (p : A) : Prop where
  proper : loop ≠ []
  leads : v.Leads heap before (.container p)
  returns : (Value.container p).Leads heap loop (.container p)

/-- A step leads to a part. -/
theorem Container.StepsTo.mem_parts {held : Container A} (h : held.StepsTo step w) :
    w ∈ held.parts := by
  cases h with
  | field h =>
    obtain ⟨key, hkey⟩ := Container.entry?_mem h
    exact List.mem_map_of_mem hkey
  | key h => exact List.mem_map_of_mem h
  | item h => exact List.mem_of_getElem? h
  | place h => exact List.mem_of_getElem? h

/-- A dictionary has one entry under each key. -/
def Container.KeysDistinct : Container A → Prop
  | list _ | tuple _ => True
  | dict entries => (entries.map Prod.fst).Nodup

/-- Where the keys are distinct a step leads to one part only. -/
theorem Container.StepsTo.unique {held : Container A} (hkeys : held.KeysDistinct)
    (h : held.StepsTo step w) (h' : held.StepsTo step x) : w = x := by
  cases h with
  | field h =>
    cases h' with
    | field h' => exact Option.some.inj (h.symm.trans h')
  | key h =>
    cases h' with
    | key h' => exact congrArg Prod.snd (List.inj_on_of_nodup_map hkeys h h' rfl)
  | item h =>
    cases h' with
    | item h' => exact Option.some.inj (h.symm.trans h')
  | place h =>
    cases h' with
    | place h' => exact Option.some.inj (h.symm.trans h')

namespace Value

/-- **At a path there is one value**, if no dictionary has two entries under one key. -/
theorem Leads.unique (hkeys : ∀ p, (heap p).KeysDistinct) (h : v.Leads heap path w)
    (h' : v.Leads heap path x) : w = x := by
  induction h generalizing x with
  | root =>
    generalize hroot : Path.root = path at h'
    cases h' with
    | root => rfl
    | push => exact absurd hroot.symm (Path.push_ne_root _ _)
  | @push path p step w _ hstep ih =>
    generalize hpath : path.push step = path' at h'
    cases h' with
    | root => exact absurd hpath (Path.push_ne_root _ _)
    | @push path' p' step' _ h' hstep' =>
      -- both paths end with the same step
      obtain ⟨rfl, hlast⟩ := List.append_inj' hpath rfl
      cases hlast
      cases ih h'
      exact hstep.unique (hkeys p) hstep'

/-- Paths are put together. -/
theorem Leads.trans (h : v.Leads heap before w) (h' : w.Leads heap path x) :
    v.Leads heap (before ++ path) x := by
  induction h' with
  | root =>
    rw [Path.root, List.append_nil]
    exact h
  | push _ hstep ih =>
    rw [Path.push, ← List.append_assoc]
    exact ih.push hstep

/-- Where a path leads there is a part. -/
theorem Leads.hasPart (h : v.Leads heap path w) : v.HasPart heap w := by
  induction h with
  | root => exact .self
  | push _ hstep ih => exact .inside ih hstep.mem_parts

/-- What a path leads to from a container is the container, or stands in one of its parts. -/
theorem Leads.inside (h : (container p).Leads heap path w) :
    path = [] ∧ w = .container p ∨ ∃ x ∈ (heap p).parts, x.HasPart heap w := by
  induction h with
  | root => exact .inl ⟨rfl, rfl⟩
  | push _ hstep ih =>
    right
    rcases ih with ⟨-, hsame⟩ | ⟨x, hx, hpart⟩
    · -- the first step
      cases hsame
      exact ⟨_, hstep.mem_parts, .self⟩
    · exact ⟨x, hx, .inside hpart hstep.mem_parts⟩

/-- The container is found at both paths. -/
theorem ComesBack.found (h : v.ComesBack heap before loop p) :
    v.Leads heap (before ++ loop) (.container p) :=
  h.leads.trans h.returns

/-- **No path comes back in a value that does not contain itself.** -/
theorem ComesBack.not_acyclic (h : v.ComesBack heap before loop p) : ¬ v.Acyclic heap := by
  intro hacyclic
  rcases h.returns.inside with ⟨hnone, -⟩ | ⟨x, hx, hpart⟩
  · exact h.proper hnone
  · exact hacyclic p h.leads.hasPart x hx hpart

end Value

end Paths

/-! ## What resolution ends with -/

/-- If the error is a cyclic value, its text is one of these. -/
def Fault.CyclicOnly (Text : CodeText → Prop) (err : Fault) : Prop :=
  ∀ text, err = .schema (.cyclicValue text) → Text text

namespace Composer

variable {c : Composer} {memo : Memo} {chain : List Instantiation} {i : Instantiation}
  {err : SchemaError} {P : Memo → Prop} {E : Fault → Prop} {Text : CodeText → Prop}

/-- **No resolution ends with a cyclic value**: a type that is built on itself is an error
of its own. -/
theorem RaisedAt.ne_cyclicValue (h : c.RaisedAt memo chain i err) (text : CodeText) :
    err ≠ .cyclicValue text := by
  rintro rfl
  generalize herr : SchemaError.cyclicValue text = err at h
  induction h with
  | start h =>
    -- no plan, or a supertype that is being composed
    rcases start_error_cases h with hplan | ⟨p, -, -, hcycle⟩
    · rcases plan_error_cases hplan with ⟨n, hn⟩ | ⟨n, m, k, x, hn⟩ | ⟨n, x, hn⟩ <;>
        cases herr.trans hn
    · cases herr.trans hcycle
  | bound hstart => cases herr
  | member hp hpass ht => cases herr
  | conflict hp hpass hs hconflict => cases herr
  | inside hp hpass hj hraised ih => exact ih herr

/-- No resolution ends with a cyclic value, so nothing has to be said of the text. -/
theorem resolve_cyclicOnly (i : Instantiation) :
    ((c.resolve i).mapError Fault.schema).Yields (Memo.ClosedFor · c) (fun _ => True)
      (Fault.CyclicOnly Text) := by
  refine Action.Yields.mapError ⟨keeps_resolve_closedFor i, fun _ _ _ _ => trivial, ?_⟩
  intro memo hm err herr text hcyclic
  cases hcyclic
  exact absurd rfl ((resolve_raisedAt hm herr).ne_cyclicValue text)

theorem resolveExpression_cyclicOnly (e : TypeExpr) :
    ((c.resolveExpression e).mapError Fault.schema).Yields (Memo.ClosedFor · c) (fun _ => True)
      (Fault.CyclicOnly Text) := by
  unfold resolveExpression
  split
  · exact resolve_cyclicOnly _
  · exact Action.Yields.mapError (Action.yields_pure trivial)

/-- The test for absence ends as resolution does, or is given up. -/
theorem absentFitsName_asks
    (hresolves : ∀ e, ((c.resolveExpression e).mapError Fault.schema).Yields P (fun _ => True) E)
    (hends : ∀ label, E (.endlessAlias label)) (steps : Nat) (seen : List String) (e : TypeExpr) :
    (c.absentFitsName steps seen e).Yields P (fun _ => True) E := by
  induction steps generalizing seen e with
  | zero =>
    rw [absentFitsName]
    split
    · exact Action.yields_pure trivial
    · exact Action.yields_fail (hends _)
  | succ steps ih =>
    rw [absentFitsName]
    split
    · exact Action.yields_pure trivial
    · refine (hresolves e).bind fun resolved _ => ?_
      cases resolved with
      | schema s => exact Action.yields_pure trivial
      | expression e' => exact absentFits_asks e' fun _ _ => ih _ _

theorem admitsAbsence_cyclicOnly (e : TypeExpr) :
    (c.admitsAbsence e).Yields (Memo.ClosedFor · c) (fun _ => True) (Fault.CyclicOnly Text) :=
  absentFits_asks e fun _ _ =>
    absentFitsName_asks resolveExpression_cyclicOnly (fun _ _ => nofun) _ _ _

end Composer

/-! ## Where a check stands -/

section Standing

variable {n : Nat} {heap : Heap (Fin n)} {v w : Value (Fin n)} {room : Nat}
  {active : List (Fin n)} {path : Path} {p : Fin n} {step : PathStep}

/-- A check of a value has come to a part of it: the containers around the part are different
ones, all on the way to it, and there is room for those that are left. -/
structure Stands (heap : Heap (Fin n)) (v : Value (Fin n)) (room : Nat) (active : List (Fin n))
    (path : Path) (w : Value (Fin n)) : Prop where
  leads : v.Leads heap path w
  distinct : active.Nodup
  enough : n < active.length + room
  through : ∀ p ∈ active, ∃ before behind, path = before ++ behind ∧ behind ≠ [] ∧
    v.Leads heap before (.container p) ∧ (Value.container p).Leads heap behind w

/-- The check begins at the root. -/
theorem stands_root (heap : Heap (Fin n)) (v : Value (Fin n)) :
    Stands heap v (n + 1) [] .root v where
  leads := .root
  distinct := List.nodup_nil
  enough := by
    rw [List.length_nil, Nat.zero_add]
    exact Nat.lt_succ_self n
  through _ hp := absurd hp List.not_mem_nil

/-- **One container further**, the container that was entered is around the part with
the others. -/
theorem Stands.part (h : Stands heap v (room + 1) active path (.container p)) (hp : p ∉ active)
    (hstep : (heap p).StepsTo step w) : Stands heap v room (p :: active) (path.push step) w where
  leads := h.leads.push hstep
  distinct := List.nodup_cons.2 ⟨hp, h.distinct⟩
  enough := by
    have henough := h.enough
    rw [List.length_cons]
    omega
  through q hq := by
    rcases List.mem_cons.1 hq with rfl | hq
    · exact ⟨path, [step], rfl, List.cons_ne_nil _ _, h.leads, Value.Leads.root.push hstep⟩
    · -- from the others it is one step more
      obtain ⟨before, behind, rfl, -, hbefore, hbehind⟩ := h.through q hq
      refine ⟨before, behind.push step, ?_, behind.push_ne_root step, hbefore, hbehind.push hstep⟩
      rw [Path.push, Path.push, List.append_assoc]

/-- There is always room. -/
theorem Stands.ne_zero (h : Stands heap v room active path w) : room ≠ 0 := by
  rintro rfl
  have hlength := Checking.length_le_of_nodup h.distinct
  have henough := h.enough
  omega

/-- The text of a path that comes back. -/
def Value.ComesBackAt (heap : Heap (Fin n)) (v : Value (Fin n)) (text : CodeText) : Prop :=
  ∃ before loop p, text = Path.render (before ++ loop) ∧ v.ComesBack heap before loop p

/-- A container that the check stands in lies on the path. -/
theorem Stands.comesBackAt (h : Stands heap v room active path (.container p)) (hp : p ∈ active) :
    v.ComesBackAt heap path.render := by
  obtain ⟨before, behind, rfl, hproper, hbefore, hbehind⟩ := h.through p hp
  exact ⟨before, behind, p, rfl, hproper, hbefore, hbehind⟩

/-- **Every cyclic value that a check ends with comes back.** -/
theorem guides_stands (c : Composer) (heap : Heap (Fin n)) (v : Value (Fin n)) :
    Entering.Guides c heap (Memo.ClosedFor · c) (Fault.CyclicOnly (v.ComesBackAt heap))
      (Stands heap v) where
  resolves := Composer.resolveExpression_cyclicOnly
  asks := Composer.admitsAbsence_cyclicOnly
  bound _ _ := nofun
  unsupported _ _ := nofun
  digits _ := nofun
  again _ _ _ _ hstands hp text htext := by
    cases htext
    exact hstands.comesBackAt hp
  beyond _ _ _ hstands := absurd rfl hstands.ne_zero
  part _ _ _ _ _ _ hstands hp hstep := hstands.part hp hstep

/-- **A check ends early only where the value comes back to a container.** -/
theorem validate_cyclicOnly (c : Composer) (heap : Heap (Fin n)) (v : Value (Fin n))
    (target : Target) :
    (c.validate heap v target).Yields (Memo.ClosedFor · c) (fun _ => True)
      (Fault.CyclicOnly (v.ComesBackAt heap)) := by
  have htracks := Entering.checkRoot_tracks (guides_stands c heap v) (stands_root heap v) target
  unfold Composer.validate
  refine htracks.yields.bind fun failures _ => ?_
  exact (Action.yields_note _ _ _).bind fun _ _ => Action.yields_pure trivial

theorem validateNamed_cyclicOnly (c : Composer) (heap : Heap (Fin n)) (v : Value (Fin n))
    (name : String) :
    (c.validateNamed heap v name).Yields (Memo.ClosedFor · c) (fun _ => True)
      (Fault.CyclicOnly (v.ComesBackAt heap)) := by
  unfold Composer.validateNamed
  exact (Composer.resolve_cyclicOnly _).bind fun resolved _ => validate_cyclicOnly c heap v _

end Standing

/-! ## Sessions -/

namespace Session

/-- A check of the value, against a target or a registered name, ends with a cyclic value. -/
def EndsCyclic (s : Session) (value : ValueGraph) (text : CodeText) : Prop :=
  (∃ target, ((validate value target).run s).outcome = .error (.schema (.cyclicValue text))) ∨
    ∃ name, ((validateNamed value name).run s).outcome = .error (.schema (.cyclicValue text))

theorem comesBackAt_of_endsCyclic {s : Session} {value : ValueGraph} {text : CodeText}
    (hm : s.memo.ClosedFor s.composer) (h : s.EndsCyclic value text) :
    value.root.ComesBackAt value.heap text := by
  rcases h with ⟨target, h⟩ | ⟨name, h⟩
  · exact (validate_cyclicOnly s.composer value.heap value.root target).fails s.memo hm _ h text rfl
  · exact (validateNamed_cyclicOnly s.composer value.heap value.root name).fails s.memo hm _ h
      text rfl

open Entering (Restores unmoved) in
/-- **The set of containers is a frame, and cycles are real.** After any history, for every
value:

* every check that keeps a set of containers leaves the set as it was, however it ends;
* such a check does otherwise what the check does that is told the containers around it, and
  so does a check of the whole value with no container around it;
* where a check ends with a cyclic value, its path leads to a container that is found at a
  proper prefix of the path too;
* if the value does not contain itself, no check ends so. -/
theorem cycles_are_real (env : Environment) (maxDepth : Option Int) (prelude : Bool)
    (history : List Call) (value : ValueGraph) :
    let s := (opened env maxDepth prelude).after history
    let part := fun room => Entering.checkPart s.composer value.heap room
    (∀ room path v,
      (∀ depth e, Restores
        (Entering.checkExpr s.composer value.heap (part room) depth path v e)) ∧
      (∀ schema, Restores
        (Entering.checkStruct s.composer value.heap (part room) path v schema)) ∧
      (∀ inner, Restores (Entering.checkSequence value.heap (part room) path v inner)) ∧
      ∀ inner, Restores (Entering.checkMapping value.heap (part room) path v inner)) ∧
    (∀ room active path v e memo, (part room path v e).run { memo, active := active.toFinset } =
      unmoved active.toFinset
        ((Checking.checkPart s.composer value.heap room active path v e).run memo)) ∧
    (∀ target memo,
      (Entering.checkRoot s.composer value.heap value.root target).run { memo, active := ∅ } =
        unmoved ∅ ((Checking.checkRoot s.composer value.heap value.root target).run memo)) ∧
    (∀ text, s.EndsCyclic value text → ∃ before loop p,
      text = Path.render (before ++ loop) ∧ loop ≠ [] ∧
      value.root.Leads value.heap before (.container p) ∧
      value.root.Leads value.heap (before ++ loop) (.container p)) ∧
    (value.root.Acyclic value.heap → ∀ text, ¬ s.EndsCyclic value text) := by
  intro s part
  have hm : s.memo.ClosedFor s.composer := lasting_closedFor.after env maxDepth prelude history
  have hg := Entering.guides_anywhere s.composer value.heap
  refine ⟨fun room path v => ?_, fun room active path v e memo => ?_, fun target memo => ?_,
    fun text h => ?_, fun hacyclic text h => ?_⟩
  · exact Entering.checks_restore s.composer value.heap room path v
  · exact (Entering.checkPart_tracks hg room active path v e trivial).run memo
  · exact (Entering.checkRoot_tracks hg trivial target).run memo
  · obtain ⟨before, loop, p, htext, hback⟩ := comesBackAt_of_endsCyclic hm h
    exact ⟨before, loop, p, htext, hback.proper, hback.leads, hback.found⟩
  · obtain ⟨before, loop, p, -, hback⟩ := comesBackAt_of_endsCyclic hm h
    exact hback.not_acyclic hacyclic

/-- A list that holds itself. -/
def coil : ValueGraph := .ofDatum (.named "coil" (.list [.again "coil"]))

/-- Lists of such lists, to any depth. -/
def nests : List Call :=
  [.register "Nest" (.definition (.ofAlias
    { name := "Nest", expression := .sequence (.reference "Nest"), parameters := [] }) .none)]

/-- The list comes back to itself in its first item. A list that stands under two keys of a
dictionary does not. -/
theorem coil_comes_back :
    let s := (opened .empty none false).after nests
    s.EndsCyclic coil "root[0]" ∧
    (∃ before loop p, "root[0]" = Path.render (before ++ loop) ∧ loop ≠ [] ∧
      coil.root.Leads coil.heap before (.container p) ∧
      coil.root.Leads coil.heap (before ++ loop) (.container p)) ∧
    sharedList.root.Acyclic sharedList.heap ∧ ∀ text, ¬ s.EndsCyclic sharedList text := by
  intro s
  have hends : s.EndsCyclic coil "root[0]" := .inl ⟨.expression (.reference "Nest"), by rfl⟩
  have hacyclic : sharedList.root.Acyclic sharedList.heap := by
    apply Value.acyclic_of_rank fun p => sharedList.size - p.val
    decide
  obtain ⟨-, -, -, hreal, -⟩ := cycles_are_real .empty none false nests coil
  obtain ⟨-, -, -, -, hnone⟩ := cycles_are_real .empty none false nests sharedList
  exact ⟨hends, hreal _ hends, hacyclic, hnone hacyclic⟩

end Session

end WidgetSchema
