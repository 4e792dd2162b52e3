/-
The structs that a check comes to.

At one value a check goes along aliases and through the members of intersections until it
comes to struct types (`ArrivesAt`). Composition goes the same way, but it makes one schema
of all that it meets. Both are compared here, for an expression whose operands are derived:

* every field of the composed schema is that of a struct which the check comes to
  (`exists_arrival_of_field`), and every such struct has its fields among those of the
  schema (`ArrivesAt.extended_by`);
* the check finds nothing exactly if each of these structs finds nothing
  (`checkHere_arrivals`).

The check may come to several structs where composition has one name only: the argument of
an alias may be an intersection, and an alias that stands for its parameter leads to it.
Where aliases of type names take no arguments, as in registries of raw entries, a name
leads to one struct, which has the fields of its schema (`arrives_at_one`).
-/
import WidgetSchema.Proofs.CheckTermination
import WidgetSchema.Proofs.FieldQuestions
import WidgetSchema.Proofs.Supertypes

set_option autoImplicit false

namespace WidgetSchema

namespace Composer

variable {c : Composer} {e e' member : TypeExpr} {members : List TypeExpr} {i : Instantiation}
  {s t : ResolvedSchema} {parents : List ResolvedSchema}

/-! ## Names as operands -/

theorem operands_of_instantiation (hi : e.instantiation? = some i) : e.operands = [e] := by
  cases e with
  | reference | generic => rfl
  | _ => cases hi

/-- A name is the only operand of itself. -/
theorem derivesEach_name (hi : e.instantiation? = some i) :
    c.DerivesEach e.operands parents ↔ ∃ s, parents = [s] ∧ c.Derives i s := by
  rw [operands_of_instantiation hi]
  constructor
  · intro h
    cases h with
    | cons hfirst hrest =>
      cases hrest
      obtain ⟨j, hj, hs⟩ := hfirst
      rw [hi] at hj
      cases hj
      exact ⟨_, rfl, hs⟩
  · rintro ⟨s, rfl, hs⟩
    exact .cons ⟨i, hi, hs⟩ .nil

/-- Each member of a list names an instantiation that has one of the schemas. -/
theorem DerivesEach.of_mem (h : c.DerivesEach members parents) (hmem : member ∈ members) :
    ∃ j, member.instantiation? = some j ∧ ∃ s ∈ parents, c.Derives j s := by
  induction h with
  | nil => cases hmem
  | cons hfirst _ ih =>
    rcases List.mem_cons.1 hmem with rfl | hrest
    · obtain ⟨j, hj, hs⟩ := hfirst
      exact ⟨j, hj, _, List.mem_cons_self, hs⟩
    · obtain ⟨j, hj, s, hs, hderives⟩ := ih hrest
      exact ⟨j, hj, s, List.mem_cons_of_mem _ hs, hderives⟩

/-- An alias that resolves to an expression composes the operands of that expression and
declares nothing. -/
theorem plan_of_denotes_expression {p : Plan} (hr : c.Denotes i (.expression e))
    (hp : c.plan i = .ok p) : p.members = e.operands ∧ p.parts.fields = .empty := by
  obtain ⟨d, hd, hparts⟩ := plan_eq_ok.1 hp
  cases hr with
  | expression hd' hplain =>
    rw [hd] at hd'
    cases hd'
    cases d with
    | ofStruct d => cases hplain
    | ofAlias d =>
      have hbody := List.mem_singleton.1 (plainExpression_body hplain)
      simp only [Definition.composition] at hparts
      split at hparts
      · have hfound := Except.ok.inj hparts
        unfold Plan.members
        rw [← hfound, hbody]
        exact ⟨rfl, rfl⟩
      · cases hparts

/-! ## Arrivals -/

/-- Along aliases and through the members of intersections the check of the expression
comes to the struct type of the schema. -/
inductive ArrivesAt (c : Composer) : TypeExpr → ResolvedSchema → Prop
  | struct {e : TypeExpr} {i : Instantiation} {t : ResolvedSchema}
      (hi : e.instantiation? = some i) (hr : c.Denotes i (.schema t)) : ArrivesAt c e t
  | next {e e' : TypeExpr} {i : Instantiation} {t : ResolvedSchema}
      (hi : e.instantiation? = some i) (hr : c.Denotes i (.expression e'))
      (h : ArrivesAt c e' t) : ArrivesAt c e t
  | member {members : List TypeExpr} {member : TypeExpr} {t : ResolvedSchema}
      (hmem : member ∈ members) (h : ArrivesAt c member t) : ArrivesAt c (.intersection members) t

theorem arrivesAt_intersection :
    c.ArrivesAt (.intersection members) t ↔ ∃ member ∈ members, c.ArrivesAt member t := by
  constructor
  · intro h
    cases h with
    | struct hi _ | next hi _ _ => cases hi
    | member hmem h => exact ⟨_, hmem, h⟩
  · rintro ⟨member, hmem, h⟩
    exact .member hmem h

/-- The name of a struct leads to that struct. -/
theorem arrivesAt_schema (hi : e.instantiation? = some i) (hr : c.Denotes i (.schema s)) :
    c.ArrivesAt e t ↔ t = s := by
  constructor
  · intro h
    cases h with
    | struct hi' hr' =>
      rw [hi] at hi'
      cases hi'
      cases hr.unique hr'
      rfl
    | next hi' hr' _ =>
      -- no name denotes a schema and an expression as well
      rw [hi] at hi'
      cases hi'
      cases hr.unique hr'
    | member => cases hi
  · rintro rfl
    exact .struct hi hr

/-- Any other alias leads to where its expression leads. -/
theorem arrivesAt_expression (hi : e.instantiation? = some i)
    (hr : c.Denotes i (.expression e')) : c.ArrivesAt e t ↔ c.ArrivesAt e' t := by
  constructor
  · intro h
    cases h with
    | struct hi' hr' =>
      rw [hi] at hi'
      cases hi'
      cases hr.unique hr'
    | next hi' hr' h =>
      rw [hi] at hi'
      cases hi'
      cases hr.unique hr'
      exact h
    | member => cases hi
  · exact .next hi hr

theorem arrivesAt_of_operand (hmem : member ∈ e.operands) (h : c.ArrivesAt member t) :
    c.ArrivesAt e t := by
  cases e with
  | intersection members => exact .member hmem h
  | _ =>
    rw [List.mem_singleton.1 hmem] at h
    exact h

/-! ## Fields on the way -/

/-- **A field of a composed schema is found where the check goes.** The induction is on the
height at which the schema is derived: an alias hands on what its expression composes. -/
theorem exists_arrival_of_field {height : Nat} {f : String} {x : ResolvedField}
    (h : c.derive height i = some s) (hi : e.instantiation? = some i)
    (hx : s.fields.get? f = some x) : ∃ t, c.ArrivesAt e t ∧ t.fields.get? f = some x := by
  induction height generalizing i e s with
  | zero => simp [derive] at h
  | succ height ih =>
    obtain ⟨p, parents, hp, hparents, hs⟩ := derive_succ_eq_some.1 h
    obtain ⟨d, hd, -⟩ := plan_eq_ok.1 hp
    cases hplain : d.plainExpression? with
    | none => exact ⟨s, .struct hi (.schema hd hplain ⟨_, h⟩), hx⟩
    | some body =>
      have hr : c.Denotes i (.expression (body.substitute p.bindings)) := .expression hd hplain
      obtain ⟨hmembers, hown⟩ := plan_of_denotes_expression hr hp
      -- an alias has no field of its own, so the field comes from a member
      rcases Plan.combine_field hs hx with ⟨fd, hfd, -⟩ | ⟨m, hm, hfield⟩
      · rw [hown] at hfd
        cases hfd
      · obtain ⟨j, ⟨member, hmember, hj⟩, hm⟩ := exists_derive_of_mem hparents hm
        obtain ⟨t, ht, hfound⟩ := ih hm hj hfield
        rw [hmembers] at hmember
        exact ⟨t, .next hi hr (arrivesAt_of_operand hmember ht), hfound⟩

/-- **Composition passes by whatever the check comes to.** -/
theorem ArrivesAt.extended_by (ha : c.ArrivesAt e t) (h : c.DerivesEach e.operands parents) :
    ∃ s ∈ parents, s.Extends t := by
  induction ha generalizing parents with
  | struct hi hr =>
    obtain ⟨s, rfl, hs⟩ := (derivesEach_name hi).1 h
    cases hr with
    | schema _ _ ht =>
      rw [hs.unique ht]
      exact ⟨_, List.mem_singleton_self _, .refl _⟩
  | next hi hr _ ih =>
    obtain ⟨s, rfl, hs⟩ := (derivesEach_name hi).1 h
    obtain ⟨p, ps, hp, hps, hcombine⟩ := derives_iff.1 hs
    -- the schema of an alias extends that of each operand of its expression
    rw [(plan_of_denotes_expression hr hp).1] at hps
    obtain ⟨m, hm, hextends⟩ := ih hps
    exact ⟨s, List.mem_singleton_self s, (Plan.combine_extends hcombine hm).trans hextends⟩
  | member hmem _ ih =>
    obtain ⟨j, hj, m, hm, hderives⟩ := h.of_mem hmem
    obtain ⟨s, hs, hextends⟩ := ih ((derivesEach_name hj).2 ⟨m, rfl, hderives⟩)
    rw [List.mem_singleton.1 hs] at hextends
    exact ⟨m, hm, hextends⟩

end Composer

/-! ## Checks on the way -/

namespace Checking

open Composer (Contract)

variable {n : Nat} {c : Composer} {s : Site n} {P : Memo → Prop} {E : Fault → Prop}
  {struct : ResolvedSchema → Check} {named : TypeExpr → Check} {fit : ResolvedSchema → Prop}
  {e : TypeExpr} {members : List TypeExpr} {i : Instantiation} {parents : List ResolvedSchema}

/-- No failure is found exactly if all structs fit that the check comes to. -/
def JudgesArrivals (c : Composer) (fit : ResolvedSchema → Prop) (e : TypeExpr)
    (failures : List Failure) : Prop :=
  failures = [] ↔ ∀ t, c.ArrivesAt e t → fit t

/-- At a type name the check is that of the name. -/
theorem checkHere_name (hi : e.instantiation? = some i) : checkHere s named e = named e := by
  cases e with
  | reference | generic => rw [checkHere]
  | _ => cases hi

/-- The members of an intersection come to all that one of them comes to. -/
theorem checkEach_arrivals
    (hmembers : ∀ e ∈ members, (checkHere s named e).Yields P (JudgesArrivals c fit e) E) :
    (checkEach s named members).Yields P (JudgesArrivals c fit (.intersection members)) E := by
  unfold JudgesArrivals
  simp only [Composer.arrivesAt_intersection]
  induction members with
  | nil =>
    rw [checkEach]
    exact fits_yields (by simp)
  | cons e es ih =>
    obtain ⟨hfirst, hrest⟩ := List.forall_mem_cons.1 hmembers
    rw [checkEach]
    refine hfirst.bind fun here hhere => (ih hrest).bind fun further hfurther => ?_
    refine Action.yields_pure ?_
    unfold JudgesArrivals at hhere
    rw [List.append_eq_nil_iff, hhere, hfurther]
    constructor
    · rintro ⟨hfit, hfits⟩ t ⟨member, hmem, ht⟩
      rcases List.mem_cons.1 hmem with rfl | hmem
      · exact hfit t ht
      · exact hfits t ⟨member, hmem, ht⟩
    · intro hall
      exact ⟨fun t ht => hall t ⟨e, List.mem_cons_self, ht⟩,
        fun t ⟨member, hmem, ht⟩ => hall t ⟨member, List.mem_cons_of_mem e hmem, ht⟩⟩

/-- An expression whose operands are names comes to what the names come to. -/
theorem checkHere_arrivals (hpresent : s.value.isAbsent = false)
    (hderives : c.DerivesEach e.operands parents)
    (hnamed : ∀ e i q, e.instantiation? = some i → c.Derives i q →
      (named e).Yields P (JudgesArrivals c fit e) E) :
    (checkHere s named e).Yields P (JudgesArrivals c fit e) E := by
  -- what is no intersection is a name
  have hname (h : e.operands = [e]) : ∃ i q, e.instantiation? = some i ∧ c.Derives i q := by
    rw [h] at hderives
    obtain ⟨i, hi, q, -, hq⟩ := hderives.of_mem (List.mem_singleton_self e)
    exact ⟨i, q, hi, hq⟩
  cases e with
  | intersection members =>
    rw [checkHere, Site.present, hpresent]
    refine checkEach_arrivals fun member hmem => ?_
    obtain ⟨i, hi, q, -, hq⟩ := hderives.of_mem hmem
    rw [checkHere_name hi]
    exact hnamed member i q hi hq
  | _ =>
    obtain ⟨i, q, hi, hq⟩ := hname rfl
    rw [checkHere_name hi]
    exact hnamed _ i q hi hq

/-- **The check of a name comes to the structs it leads to**, by induction on the names that
may still be unfolded. -/
theorem checkNamed_arrivals (h : c.Contract P (fun _ => True) E)
    (hpresent : s.value.isAbsent = false)
    (hstruct : ∀ t, (struct t).Yields P (fun failures => failures = [] ↔ fit t) E)
    (depth : Nat) {q : ResolvedSchema} (hi : e.instantiation? = some i) (hq : c.Derives i q) :
    (checkNamed c s struct depth e).Yields P (JudgesArrivals c fit e) E := by
  induction depth generalizing e i q with
  | zero =>
    -- a check that has unfolded too many names returns nothing that could be judged
    rw [checkNamed]
    exact Action.yields_fail (h.depth _ _)
  | succ depth ih =>
    rw [checkNamed]
    refine (h.resolveExpression hi trivial).bind fun r hr => ?_
    obtain ⟨hdenotes, -⟩ := hr
    unfold JudgesArrivals
    cases r with
    | schema schema =>
      simp only [Composer.arrivesAt_schema hi hdenotes, forall_eq]
      exact hstruct schema
    | expression e' =>
      simp only [Composer.arrivesAt_expression hi hdenotes]
      -- the operands of the expression are what the alias composes, so they are derived
      obtain ⟨p, parents, hp, hparents, -⟩ := Composer.derives_iff.1 hq
      rw [(Composer.plan_of_denotes_expression hdenotes hp).1] at hparents
      exact checkHere_arrivals hpresent hparents fun e i q hi hq => ih hi hq

end Checking

/-! ## Names that lead to one struct -/

namespace Composer

variable {c : Composer} {e : TypeExpr} {i : Instantiation} {s : ResolvedSchema}

/-- A type that composes one member has the fields of the member that it does not declare. -/
theorem get?_combine_singleton {p : Plan} {m : ResolvedSchema} {f : String}
    (hs : p.combine [m] = .ok s) (hown : p.parts.fields.get? f = none) :
    s.fields.get? f = m.fields.get? f := by
  obtain ⟨held, hheld, hget⟩ := Plan.combine_get? hs f
  rw [hget, hown]
  show held.map Contribution.field = _
  rw [offers_cons, offers_nil, List.append_nil] at hheld
  unfold ResolvedSchema.offer? at hheld
  cases hfield : m.fields.get? f <;>
  · rw [hfield] at hheld
    cases hheld
    rfl

/-- An alias of a fixed form that composes, but is no intersection, stands for a type name
and takes no arguments. -/
theorem name_of_fixedForm {d : Definition} {body : TypeExpr} {parts : Composition}
    (hform : d.FixedForm) (hplain : d.plainExpression? = some body)
    (hparts : d.composition = .ok parts) :
    d.parameters = [] ∧ ∃ j, body.instantiation? = some j := by
  cases d with
  | ofStruct d => cases hplain
  | ofAlias d =>
    have hbody : body = d.expression := List.mem_singleton.1 (plainExpression_body hplain)
    simp only [Definition.composition] at hparts
    split at hparts
    · next hshape =>
      rw [← hbody] at hshape
      constructor
      · rcases hform body hplain with ⟨inner, rfl⟩ | ⟨hparameters, -⟩
        · cases hshape
        · exact hparameters
      · cases body with
        | reference | generic => exact ⟨_, rfl⟩
        | intersection members =>
          -- an alias of an intersection resolves to a schema
          simp [Definition.plainExpression?, ← hbody] at hplain
        | _ => cases hshape
    · cases hparts

/-- **Where aliases have a fixed form, a name leads to one struct**, and the schema of the name
has the fields of that struct. The induction is on the height at which the schema is derived. -/
theorem arrives_at_one (hform : c.registry.FixedForm) {height : Nat}
    (h : c.derive height i = some s) (hi : e.instantiation? = some i) :
    ∃ t, (∀ u, c.ArrivesAt e u ↔ u = t) ∧ ∀ f, s.fields.get? f = t.fields.get? f := by
  induction height generalizing i e s with
  | zero => simp [derive] at h
  | succ height ih =>
    obtain ⟨p, parents, hp, hparents, hs⟩ := derive_succ_eq_some.1 h
    obtain ⟨d, hd, hcomposition⟩ := plan_eq_ok.1 hp
    cases hplain : d.plainExpression? with
    | none =>
      have hr : c.Denotes i (.schema s) := .schema hd hplain ⟨_, h⟩
      exact ⟨s, fun u => arrivesAt_schema hi hr, fun f => rfl⟩
    | some body =>
      have hr : c.Denotes i (.expression (body.substitute p.bindings)) := .expression hd hplain
      obtain ⟨hmembers, hown⟩ := plan_of_denotes_expression hr hp
      obtain ⟨hlookup, hbind, -⟩ := complete_eq_ok.1 hd
      obtain ⟨hparameters, j, hj⟩ :=
        name_of_fixedForm (hform _ d (Registry.lookup_mem.1 hlookup)) hplain hcomposition
      have hbindings : p.bindings = [] := by
        rw [bind_eq_zip hbind, hparameters]
        rfl
      rw [hbindings, TypeExpr.substitute_nil] at hr hmembers
      rw [hmembers, operands_of_instantiation hj, deriveEach_eq_some] at hparents
      -- that name is the only member
      cases hparents with
      | cons hfirst hrest =>
        cases hrest
        obtain ⟨k, hk, hm⟩ := hfirst
        rw [hj] at hk
        cases hk
        obtain ⟨t, harrives, hfields⟩ := ih hm hj
        refine ⟨t, fun u => (arrivesAt_expression hi hr).trans (harrives u), fun f => ?_⟩
        rw [get?_combine_singleton hs (by rw [hown]; rfl), hfields f]

variable {members : List TypeExpr} {parents : List ResolvedSchema} {t : ResolvedSchema}

theorem exists_arrival (hform : c.registry.FixedForm) (hderives : c.DerivesEach members parents)
    (hne : members ≠ []) : ∃ t, c.ArrivesAt (.intersection members) t := by
  obtain ⟨member, hmem⟩ := List.exists_mem_of_ne_nil members hne
  obtain ⟨i, hi, q, -, height, hq⟩ := hderives.of_mem hmem
  obtain ⟨t, harrives, -⟩ := arrives_at_one hform hq hi
  exact ⟨t, .member hmem ((harrives t).2 rfl)⟩

/-- There a struct that an intersection leads to has the fields of a member. -/
theorem ArrivesAt.exists_parent (h : c.ArrivesAt (.intersection members) t)
    (hform : c.registry.FixedForm) (hderives : c.DerivesEach members parents) :
    ∃ q ∈ parents, ∀ f, q.fields.get? f = t.fields.get? f := by
  obtain ⟨member, hmem, ht⟩ := arrivesAt_intersection.1 h
  obtain ⟨i, hi, q, hq, height, hderive⟩ := hderives.of_mem hmem
  obtain ⟨u, harrives, hfields⟩ := arrives_at_one hform hderive hi
  rw [(harrives t).1 ht]
  exact ⟨q, hq, hfields⟩

end Composer

end WidgetSchema
