/-
How far up a resolution climbs.

While an instantiation is composed, those that wait for it stand on a chain, each a direct
supertype of the one before, and no two of them are the same. A composition that finds no
room has therefore climbed over more instantiations than the bound allows, and all of them
are different (`compose_ascends`). So the bound stops only what is really that far up.

The other way round nothing is ever composed that has no top. What is derived at a height
has its supertypes below that height, so every ascent from it is as short
(`Ascent.length_le`), and none goes on for ever (`Derives.not_endless`). That holds whatever
was resolved before and whatever the bound is.
-/
import Mathlib.Data.List.Chain
import Mathlib.Data.List.GetD
import Mathlib.Data.List.Nodup
import WidgetSchema.Proofs.RaisedErrors

set_option autoImplicit false

namespace WidgetSchema

namespace Composer

variable {c c' : Composer} {memo : Memo} {chain path : List Instantiation}
  {i j key : Instantiation} {s : ResolvedSchema} {name : String} {bound : Int}

/-- A way up from what an instantiation is completed to: each instantiation on it is a direct
supertype of the one before, and they are all different. -/
structure Ascent (c : Composer) (i : Instantiation) (path : List Instantiation) : Prop where
  starts : ∃ d bindings first, c.complete i = .ok (d, bindings, first) ∧ path.head? = some first
  steps : path.IsChain c.HasSupertype
  distinct : path.Nodup

/-- A way up that has no end. It may come back to where it was, or meet ever new
instantiations. -/
structure EndlessAscent (c : Composer) (i : Instantiation) (way : Nat → Instantiation) :
    Prop where
  starts : ∃ d bindings, c.complete i = .ok (d, bindings, way 0)
  steps : ∀ n, c.HasSupertype (way n) (way (n + 1))

/-! ## No room -/

/-- The loop over the members finds no room only inside a member. -/
theorem exists_member_of_depth {resolve : Instantiation → Resolving ResolvedSchema}
    {owner : String} {members : List TypeExpr} {merged : Merged}
    (h : ((mergeEach resolve owner members merged).run memo).outcome =
      .error (.resolutionDepth name bound)) :
    ∃ t ∈ members, ∃ j, t.instantiation? = some j ∧
      ∃ memo', ((resolve j).run memo').outcome = .error (.resolutionDepth name bound) := by
  induction members generalizing memo merged with
  | nil => cases h
  | cons t rest ih =>
    cases hj : t.instantiation? with
    | none =>
      rw [mergeEach_outcome_none owner rest merged hj] at h
      cases h
    | some j =>
      rw [mergeEach_outcome_some owner rest merged hj] at h
      cases hparent : ((resolve j).run memo).outcome with
      | error e =>
        -- the error of a member ends the loop
        simp only [hparent] at h
        cases h
        exact ⟨t, List.mem_cons_self, j, hj, memo, hparent⟩
      | ok parent =>
        simp only [hparent] at h
        cases hmerge : mergeMember merged.held parent with
        | error conflict =>
          simp only [hmerge] at h
          cases h
        | ok held =>
          simp only [hmerge] at h
          obtain ⟨u, hu, hrest⟩ := ih h
          exact ⟨u, List.mem_cons_of_mem t hu, hrest⟩

/-- An instantiation that cannot be begun is refused for another reason than the bound. -/
theorem start_ne_depth :
    ((c.start chain i).run memo).outcome ≠ .error (.resolutionDepth name bound) := by
  intro h
  rcases start_error_cases h with hplan | ⟨p, -, -, hcycle⟩
  · rcases plan_error_cases hplan with ⟨n, hn⟩ | ⟨n, m, k, x, hn⟩ | ⟨n, x, hn⟩ <;> cases hn
  · cases hcycle

/-- **A composition without room has climbed through all the room there was**, over instantiations
that are different from each other and from those below. The induction is on the room. -/
theorem compose_ascends (room : Nat)
    (h : ((c.compose room chain i).run memo).outcome = .error (.resolutionDepth name bound)) :
    ∃ path, c.Ascent i path ∧ path.length = room + 1 ∧ ∀ k ∈ path, k ∉ chain := by
  induction room generalizing chain i memo with
  | zero =>
    rcases compose_error_cases h with ⟨hstart, -⟩ | ⟨p, hstart, -⟩
    · exact absurd hstart start_ne_depth
    · obtain ⟨d, hd, -⟩ := plan_eq_ok.1 (start_eq_fresh hstart)
      obtain ⟨-, hfresh⟩ := new_of_fresh hstart
      refine ⟨[p.key], ⟨⟨d, p.bindings, p.key, hd, rfl⟩, .singleton _, List.nodup_singleton _⟩,
        rfl, ?_⟩
      intro k hk
      rw [List.mem_singleton.1 hk]
      exact hfresh
  | succ room ih =>
    rcases compose_error_cases h with ⟨hstart, -⟩ |
      ⟨p, hstart, ⟨hroom, -⟩ | ⟨room', hroom, hmerging, -⟩⟩
    · exact absurd hstart start_ne_depth
    · cases hroom
    · cases hroom
      have hp : c.plan i = .ok p := start_eq_fresh hstart
      obtain ⟨d, hd, -⟩ := plan_eq_ok.1 hp
      obtain ⟨-, hfresh⟩ := new_of_fresh hstart
      obtain ⟨t, ht, j, hj, memo', hinside⟩ := exists_member_of_depth hmerging
      obtain ⟨path, ⟨⟨d', bindings', first, hd', hhead⟩, hsteps, hdistinct⟩, hlength, hbeside⟩ :=
        ih hinside
      have hsuper : c.HasSupertype p.key first :=
        ⟨p, plan_key hp, t, ht, j, hj, d', bindings', hd'⟩
      -- what is above was composed on a chain with this instantiation on it
      have hnew : p.key ∉ path := by
        intro hmem
        exact hbeside p.key hmem (List.mem_append_right _ List.mem_cons_self)
      refine ⟨p.key :: path, ⟨⟨d, p.bindings, p.key, hd, rfl⟩, ?_, ?_⟩, ?_, ?_⟩
      · refine List.isChain_cons.2 ⟨?_, hsteps⟩
        intro k hk
        rw [hhead] at hk
        cases hk
        exact hsuper
      · exact List.nodup_cons.2 ⟨hnew, hdistinct⟩
      · rw [List.length_cons, hlength]
      · intro k hk
        rcases List.mem_cons.1 hk with rfl | hk
        · exact hfresh
        · exact fun hmem => hbeside k hk (List.mem_append_left _ hmem)

/-- A request without room has climbed over one instantiation more than the bound. -/
theorem resolveStruct_ascends
    (h : ((c.resolveStruct i).run memo).outcome = .error (.resolutionDepth name bound)) :
    ∃ path, c.Ascent i path ∧ path.length = c.maxDepth + 1 := by
  obtain ⟨path, hascent, hlength, -⟩ := compose_ascends c.maxDepth h
  exact ⟨path, hascent, hlength⟩

/-! ## What is derived has a top -/

/-- What stands on a way up from a derived instantiation is derived, at a height that is
smaller by at least the steps to it. -/
theorem exists_derive_of_steps {height : Nat} (way : Nat → Instantiation)
    (h : c.derive height i = some s) (h0 : way 0 = s.instantiation) (n : Nat)
    (hsteps : ∀ m < n, c.HasSupertype (way m) (way (m + 1))) :
    ∃ below t, below + n ≤ height ∧ c.derive below (way n) = some t ∧
      t.instantiation = way n := by
  induction n with
  | zero =>
    refine ⟨height, s, Nat.le_refl _, ?_, h0.symm⟩
    rw [h0]
    exact derive_instantiation h
  | succ n ih =>
    obtain ⟨below, t, hbelow, ht, hinst⟩ := ih fun m hm => hsteps m (by omega)
    have hstep : c.HasSupertype t.instantiation (way (n + 1)) := by
      rw [hinst]
      exact hsteps n (by omega)
    obtain ⟨lower, hlower, u, hu, huinst, -⟩ := exists_derive_of_supertype ht hstep
    exact ⟨lower, u, by omega, hu, huinst⟩

theorem derive_pos {height : Nat} (h : c.derive height i = some s) : 0 < height := by
  cases height with
  | zero => simp [derive] at h
  | succ height => exact Nat.succ_pos height

/-- **Every ascent from what is derived is as short as its height.** -/
theorem Ascent.length_le {height : Nat} (ha : c.Ascent i path) (h : c.derive height i = some s) :
    path.length ≤ height := by
  obtain ⟨⟨d, bindings, first, hd, hhead⟩, hsteps, -⟩ := ha
  obtain ⟨d', bindings', hd'⟩ := Derives.exists_complete ⟨height, h⟩
  rw [hd] at hd'
  cases hd'
  by_cases hempty : path.length = 0
  · omega
  · -- the last instantiation of the ascent is derived as well, at a positive height
    have h0 : path.getD 0 s.instantiation = s.instantiation := by
      cases path with
      | nil => rfl
      | cons k rest =>
        cases hhead
        rfl
    have hup : ∀ m < path.length - 1,
        c.HasSupertype (path.getD m s.instantiation) (path.getD (m + 1) s.instantiation) := by
      intro m hm
      have hstep := List.isChain_iff_getElem.1 hsteps m (by omega)
      rw [List.getD_eq_getElem _ _ (by omega), List.getD_eq_getElem _ _ (by omega)]
      exact hstep
    obtain ⟨below, t, hbelow, ht, -⟩ :=
      exists_derive_of_steps (fun m => path.getD m s.instantiation) h h0 _ hup
    have hpos := derive_pos ht
    omega

/-- **What is derived has no endless way up.** -/
theorem Derives.not_endless (h : c.Derives i s) (way : Nat → Instantiation) :
    ¬ c.EndlessAscent i way := by
  rintro ⟨⟨d, bindings, hd⟩, hsteps⟩
  obtain ⟨d', bindings', hd'⟩ := h.exists_complete
  have h0 : way 0 = s.instantiation := by
    rw [hd, Except.ok.injEq] at hd'
    exact congrArg (fun found => found.2.2) hd'
  obtain ⟨height, hheight⟩ := h
  obtain ⟨below, t, hbelow, ht, -⟩ :=
    exists_derive_of_steps way hheight h0 height fun m _ => hsteps m
  have hpos := derive_pos ht
  omega

/-! ## Further definitions -/

theorem HasSupertype.mono (hc : c'.registry.Extends c.registry) (h : c.HasSupertype i j) :
    c'.HasSupertype i j := by
  obtain ⟨p, hp, t, ht, k, hk, d, bindings, hd⟩ := h
  exact ⟨p, plan_mono hc hp, t, ht, k, hk, d, bindings, complete_mono hc hd⟩

/-- Definitions that are added later put no top on a way up. -/
theorem EndlessAscent.mono {way : Nat → Instantiation} (hc : c'.registry.Extends c.registry)
    (h : c.EndlessAscent i way) : c'.EndlessAscent i way := by
  obtain ⟨⟨d, bindings, hd⟩, hsteps⟩ := h
  exact ⟨⟨d, bindings, complete_mono hc hd⟩, fun n => (hsteps n).mono hc⟩

end Composer

/-! ## Sessions -/

namespace Session

/-- **The bound stops only what is beyond it, and what has no top is never resolved.** After
any calls on a new session:

* a request that ends with the error of the bound is for an instantiation with an ascent over
  more different instantiations than the bound;
* if there is an endless way up from an instantiation, no request for it ever returns a
  schema, whatever was resolved before and whatever is called in between. -/
theorem depth_errors_are_real (env : Environment) (maxDepth : Option Int) (prelude : Bool)
    (history : List Call) (i : Instantiation) :
    let s := (opened env maxDepth prelude).after history
    (∀ name bound,
      let stopped : Fault := .schema (.resolutionDepth name bound)
      ((resolve i).run s).outcome = .error stopped ∨
          ((resolveStruct i).run s).outcome = .error stopped →
        ∃ path, s.composer.Ascent i path ∧ s.maxDepth < path.length) ∧
    ∀ way, s.composer.EndlessAscent i way → ∀ later t,
      ((resolve i).run (s.after later)).outcome ≠ .ok (.schema t) ∧
        ((resolveStruct i).run (s.after later)).outcome ≠ .ok t := by
  intro s
  constructor
  · intro name bound stopped hstopped
    have hstruct : ((s.composer.resolveStruct i).run s.memo).outcome =
        .error (.resolutionDepth name bound) := by
      rcases hstopped with he | he
      · exact (Composer.resolve_error (outcome_resolving_schema he)).1
      · exact outcome_resolving_schema he
    obtain ⟨path, hascent, hlength⟩ := Composer.resolveStruct_ascends hstruct
    refine ⟨path, hascent, ?_⟩
    rw [hlength]
    exact Nat.lt_succ_self _
  · intro way hway later t
    let s' := s.after later
    -- no later call takes a step of the way back
    have hextends : s'.composer.registry.Extends s.composer.registry :=
      (leadsTo_after lasting_soundFor s later).extends_registry
    have hsound : s'.memo.SoundFor s'.composer := by
      have hlasts := (leadsTo_after lasting_soundFor s later).keeps
      exact hlasts (lasting_soundFor.after env maxDepth prelude history)
    have hway' : s'.composer.EndlessAscent i way := hway.mono hextends
    constructor
    · intro hresolved
      cases (Composer.resolve_denotes hsound).2 _ (outcome_resolving.1 hresolved) with
      | schema _ _ hderives => exact hderives.not_endless way hway'
    · intro hresolved
      have hderives := Composer.resolveStruct_derives hsound.schemas
        (outcome_resolving.1 hresolved)
      exact hderives.not_endless way hway'

/-- A type over itself, applied to a sequence of its argument. -/
def tower : StructDef :=
  { name := "Tower"
    fields := .empty
    supertype := some (.generic "Tower" [.sequence (.reference "T")])
    parameters := [{ name := "T", default := none }] }

def buildingTower : List Call := [.register "Tower" (.definition (.ofStruct tower) .none)]

/-- A tower of one type. -/
def towerOf (e : TypeExpr) : Instantiation := ⟨"Tower", [e]⟩

/-- A tower of numbers has no top: three of its floors are above a bound of two, and there is
always one more. -/
theorem tower_has_no_top :
    let s := (opened .empty (some 2) false).after buildingTower
    let i := towerOf (.primitive "number")
    ((resolve i).run s).outcome = .error (.schema (.resolutionDepth "Tower" 2)) ∧
      (∃ path, s.composer.Ascent i path ∧ s.maxDepth < path.length) ∧
      ∃ way, s.composer.EndlessAscent i way ∧ ∀ t,
        ((resolve i).run s).outcome ≠ .ok (.schema t) ∧
          ((resolveStruct i).run s).outcome ≠ .ok t := by
  intro s i
  obtain ⟨hbound, hendless⟩ := depth_errors_are_real .empty (some 2) false buildingTower i
  have hstopped : ((resolve i).run s).outcome = .error (.schema (.resolutionDepth "Tower" 2)) := by
    decide
  have hcomplete (e : TypeExpr) : s.composer.complete (towerOf e) =
      .ok (.ofStruct tower, [("T", e)], towerOf e) := rfl
  have hplan (e : TypeExpr) : s.composer.plan (towerOf e) =
      .ok ⟨towerOf e, [("T", e)], { supertype := tower.supertype, fields := .empty }⟩ := rfl
  have hway : s.composer.EndlessAscent i fun n =>
      towerOf (TypeExpr.sequence^[n] (.primitive "number")) := by
    refine ⟨⟨_, _, hcomplete _⟩, fun n => ?_⟩
    rw [Function.iterate_succ_apply']
    exact ⟨_, hplan _, _, List.mem_singleton_self _, _, rfl, _, _, hcomplete _⟩
  exact ⟨hstopped, hbound _ _ (.inl hstopped), _, hway, hendless _ hway []⟩

end Session

end WidgetSchema
