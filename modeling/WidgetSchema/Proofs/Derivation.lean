/-
What an instantiation means by the definitions alone.

Resolution keeps a memo, a chain and a bound on the nesting. None of them belongs
to the meaning of a type: `derive` flattens an instantiation by its definition,
with no state at all, and `Derives` forgets the height that makes the recursion
end. `derives_iff` says that derivation is the flattening rule read as an
equation, and `Derives.unique` that an instantiation has one schema at most.

Two instantiations with the same completed arguments have the same plan
(`plan_eq_of_key_eq`), and so the same schema. That is what lets a memo be asked
for the completed instantiation instead of the one that was named.
-/
import Mathlib.Data.List.Forall2
import WidgetSchema.Schema.Resolution

set_option autoImplicit false

namespace WidgetSchema

/-! ## Plans -/

/-- What the composition of an instantiation starts from: the instantiation with all arguments,
what its parameters are bound to and what its definition composes. -/
structure Plan where
  key : Instantiation
  bindings : Bindings
  parts : Composition

namespace Plan

/-- The members to compose, with all parameters replaced. -/
def members (p : Plan) : List TypeExpr := p.parts.members p.bindings

/-- The schema that the members' schemas and the own fields make. -/
def combine (p : Plan) (parents : List ResolvedSchema) : Except Conflict ResolvedSchema :=
  match mergeMembers parents .empty with
  | .error conflict => .error conflict
  | .ok held =>
    .ok (assemble p.key p.bindings p.parts.fields
      { held, lineage := parents.flatMap fun s => s.lineage.toList })

/-- A plan is carried out by merging its members and laying the own fields over them. -/
theorem combine_eq_ok {p : Plan} {parents : List ResolvedSchema} {s : ResolvedSchema} :
    p.combine parents = .ok s ↔ ∃ held, mergeMembers parents .empty = .ok held ∧
      s = assemble p.key p.bindings p.parts.fields
        { held, lineage := parents.flatMap fun s => s.lineage.toList } := by
  unfold combine
  cases mergeMembers parents .empty with
  | error conflict => simp
  | ok held => simp [eq_comm]

end Plan

namespace Composer

/-- The plan of an instantiation, if it has the right arguments and its
definition composes struct types. -/
def plan (c : Composer) (i : Instantiation) : Except SchemaError Plan :=
  match c.complete i with
  | .error e => .error e
  | .ok (d, bindings, key) =>
    match d.composition with
    | .error e => .error e
    | .ok parts => .ok { key, bindings, parts }

/-- A plan is made of the completed instantiation and of the parts of the definition. -/
theorem plan_eq_ok {c : Composer} {i : Instantiation} {p : Plan} :
    c.plan i = .ok p ↔
      ∃ d, c.complete i = .ok (d, p.bindings, p.key) ∧ d.composition = .ok p.parts := by
  obtain ⟨key, bindings, parts⟩ := p
  unfold plan
  cases c.complete i with
  | error e => simp
  | ok found =>
    obtain ⟨d, bs, k⟩ := found
    cases hd : d.composition with
    | error e => simp [hd]
    | ok ps => grind

/-! ## Completed arguments determine the plan -/

/-- Binding the first parameter puts one pair on top, with an argument or with the
default, which is read with the bindings before it. -/
theorem bindFrom_cons {p : GenericParameter} {ps : List GenericParameter} {args : List TypeExpr}
    {before bindings : Bindings} {full : List TypeExpr}
    (h : bindFrom before (p :: ps) args = .ok (bindings, full)) :
    ∃ arg rest later, full = arg :: later ∧
      bindFrom ((p.name, arg) :: before) ps rest = .ok (bindings, later) ∧
      (args = arg :: rest ∨
        args = [] ∧ rest = [] ∧ ∃ e, p.default = some e ∧ arg = e.substitute before) := by
  cases args with
  | cons arg args =>
    rw [bindFrom] at h
    cases hb : bindFrom ((p.name, arg) :: before) ps args with
    | error e => rw [hb] at h; cases h
    | ok found =>
      obtain ⟨bs, fs⟩ := found
      rw [hb] at h
      cases h
      exact ⟨arg, args, fs, rfl, hb, .inl rfl⟩
  | nil =>
    cases hd : p.default with
    | none => simp [bindFrom, hd] at h
    | some e =>
      simp only [bindFrom, hd] at h
      cases hb : bindFrom ((p.name, e.substitute before) :: before) ps [] with
      | error e => rw [hb] at h; cases h
      | ok found =>
        obtain ⟨bs, fs⟩ := found
        rw [hb] at h
        cases h
        exact ⟨e.substitute before, [], fs, rfl, hb, .inr ⟨rfl, rfl, e, rfl, rfl⟩⟩

/-- The bindings pair the parameters with the completed arguments. -/
theorem bindFrom_eq_zip {ps : List GenericParameter} {args : List TypeExpr}
    {before bindings : Bindings} {full : List TypeExpr}
    (h : bindFrom before ps args = .ok (bindings, full)) :
    bindings = ((ps.map GenericParameter.name).zip full).reverse ++ before := by
  induction ps generalizing args before full with
  | nil =>
    simp only [bindFrom, Except.ok.injEq, Prod.mk.injEq] at h
    simp [← h.1]
  | cons p ps ih =>
    obtain ⟨arg, rest, later, rfl, hlater, -⟩ := bindFrom_cons h
    rw [ih hlater]
    simp

/-- There are no more arguments than parameters, and each parameter gets one or has a default. -/
theorem bind_eq_ok {d : Definition} {args full : List TypeExpr} {bindings : Bindings} :
    d.bind args = .ok (bindings, full) ↔
      args.length ≤ d.parameters.length ∧
        bindFrom [] d.parameters args = .ok (bindings, full) := by
  unfold Definition.bind
  dsimp only
  by_cases hlt : d.parameters.length < args.length
  · rw [if_pos hlt]
    constructor
    · intro h
      cases h
    · intro h
      omega
  · rw [if_neg hlt, and_iff_right (Nat.le_of_not_lt hlt)]
    cases bindFrom [] d.parameters args with
    | error p => simp [Except.mapError]
    | ok found => simp [Except.mapError]

/-- Binding that succeeds has counted the arguments and found them to fit. -/
theorem bindFrom_of_bind {d : Definition} {args full : List TypeExpr} {bindings : Bindings}
    (h : d.bind args = .ok (bindings, full)) :
    bindFrom [] d.parameters args = .ok (bindings, full) :=
  (bind_eq_ok.1 h).2

/-- The bindings are read off the parameters and the completed arguments. -/
theorem bind_eq_zip {d : Definition} {args full : List TypeExpr} {bindings : Bindings}
    (h : d.bind args = .ok (bindings, full)) :
    bindings = ((d.parameters.map GenericParameter.name).zip full).reverse := by
  simpa using bindFrom_eq_zip (bindFrom_of_bind h)

/-- A definition without parameters is bound to no arguments. -/
theorem args_eq_nil_of_bind {d : Definition} {args full : List TypeExpr} {bindings : Bindings}
    (h : d.bind args = .ok (bindings, full)) (hparameters : d.parameters = []) : args = [] := by
  have hlength := (bind_eq_ok.1 h).1
  rw [hparameters] at hlength
  exact List.length_eq_zero_iff.1 (Nat.le_zero.1 hlength)

/-- An instantiation is completed by looking its name up and binding the arguments. -/
theorem complete_eq_ok {c : Composer} {i key : Instantiation} {d : Definition}
    {bindings : Bindings} :
    c.complete i = .ok (d, bindings, key) ↔
      c.registry.lookup i.name = .ok d ∧ d.bind i.args = .ok (bindings, key.args) ∧
        key.name = i.name := by
  obtain ⟨kname, kargs⟩ := key
  unfold complete
  cases hl : c.registry.lookup i.name with
  | error e => simp [bind, Except.bind]
  | ok d' =>
    cases hb : d'.bind i.args with
    | error e =>
      simp only [bind, Except.bind, hb, reduceCtorEq, Except.ok.injEq, false_iff]
      rintro ⟨rfl, h, -⟩
      rw [hb] at h
      cases h
    | ok found =>
      obtain ⟨bs, fs⟩ := found
      simp only [bind, Except.bind, pure, Except.pure, hb, Except.ok.injEq, Prod.mk.injEq,
        Instantiation.mk.injEq]
      grind

/-- **Completed arguments determine the plan.** Whoever completes to the key of a
plan has that plan. -/
theorem plan_of_key_eq {c : Composer} {i j : Instantiation} {d : Definition} {bindings : Bindings}
    {p : Plan} (hi : c.complete i = .ok (d, bindings, p.key)) (hj : c.plan j = .ok p) :
    c.plan i = .ok p := by
  obtain ⟨e, hej, hparts⟩ := plan_eq_ok.1 hj
  obtain ⟨hli, hbi, hni⟩ := complete_eq_ok.1 hi
  obtain ⟨hlj, hbj, hnj⟩ := complete_eq_ok.1 hej
  have hname : i.name = j.name := by rw [← hni, ← hnj]
  have hde : d = e := by
    rw [hname, hlj] at hli
    cases hli
    rfl
  -- both bindings are read off the same completed arguments
  have hbindings : bindings = p.bindings := by rw [bind_eq_zip hbi, bind_eq_zip hbj, hde]
  refine plan_eq_ok.2 ⟨e, ?_, hparts⟩
  rw [hi, hbindings, hde]

/-- **Completed alike, composed alike**: the key says everything about the plan. -/
theorem plan_eq_of_key_eq {c : Composer} {i j : Instantiation} {p q : Plan}
    (hi : c.plan i = .ok p) (hj : c.plan j = .ok q) (hkey : p.key = q.key) : p = q := by
  obtain ⟨d, hd, -⟩ := plan_eq_ok.1 hi
  rw [hkey] at hd
  have hq := plan_of_key_eq hd hj
  rw [hi] at hq
  cases hq
  rfl

/-! ## Derivation -/

/-- The schemas of members that each name an instantiation, in order. -/
def deriveEach (derive : Instantiation → Option ResolvedSchema) :
    List TypeExpr → Option (List ResolvedSchema)
  | [] => some []
  | member :: rest => do
    let i ← member.instantiation?
    let s ← derive i
    let ss ← deriveEach derive rest
    return s :: ss

/-- The schema of an instantiation by the definitions alone, if no more than
`height` compositions stand inside each other. -/
def derive (c : Composer) : (height : Nat) → Instantiation → Option ResolvedSchema
  | 0, _ => none
  | height + 1, i =>
    match c.plan i with
    | .error _ => none
    | .ok p =>
      match deriveEach (derive c height) p.members with
      | none => none
      | some parents => (p.combine parents).toOption

/-- The definitions give an instantiation this schema. -/
def Derives (c : Composer) (i : Instantiation) (s : ResolvedSchema) : Prop :=
  ∃ height, c.derive height i = some s

/-- The definitions give members these schemas, in order. -/
def DerivesEach (c : Composer) (members : List TypeExpr) (parents : List ResolvedSchema) : Prop :=
  List.Forall₂ (fun t s => ∃ i, t.instantiation? = some i ∧ c.Derives i s) members parents

variable {c : Composer} {i j : Instantiation} {s t : ResolvedSchema}

/-- The members are type names, each of which is derived. -/
theorem deriveEach_eq_some {derive : Instantiation → Option ResolvedSchema}
    {members : List TypeExpr} {parents : List ResolvedSchema} :
    deriveEach derive members = some parents ↔
      List.Forall₂ (fun t s => ∃ i, t.instantiation? = some i ∧ derive i = some s)
        members parents := by
  induction members generalizing parents with
  | nil =>
    simp [deriveEach, eq_comm]
  | cons member rest ih =>
    simp only [deriveEach, Option.bind_eq_bind, Option.bind_eq_some_iff, Option.pure_def,
      Option.some.injEq, List.forall₂_cons_left_iff]
    constructor
    · rintro ⟨i, hi, s, hs, ss, hss, rfl⟩
      exact ⟨s, ss, ⟨i, hi, hs⟩, ih.1 hss, rfl⟩
    · rintro ⟨s, ss, ⟨i, hi, hs⟩, hss, rfl⟩
      exact ⟨i, hi, s, hs, ss, ih.2 hss, rfl⟩

/-- A derivation of some height has members of the height below. -/
theorem derive_succ_eq_some {height : Nat} :
    c.derive (height + 1) i = some s ↔
      ∃ p parents, c.plan i = .ok p ∧ deriveEach (c.derive height) p.members = some parents ∧
        p.combine parents = .ok s := by
  rw [derive]
  cases c.plan i with
  | error e => simp
  | ok p =>
    cases hparents : deriveEach (c.derive height) p.members with
    | none => simp [hparents]
    | some parents =>
      cases hs : p.combine parents with
      | error conflict => simp [hparents, hs, Except.toOption]
      | ok s' => simp [hparents, hs, Except.toOption]

/-- More room never changes a derived schema. The induction is on the height: the
members are derived one below it. -/
theorem derive_succ {height : Nat} (h : c.derive height i = some s) :
    c.derive (height + 1) i = some s := by
  induction height generalizing i s with
  | zero => simp [derive] at h
  | succ height ih =>
    obtain ⟨p, parents, hp, hparents, hs⟩ := derive_succ_eq_some.1 h
    refine derive_succ_eq_some.2 ⟨p, parents, hp, ?_, hs⟩
    rw [deriveEach_eq_some] at hparents ⊢
    refine hparents.imp ?_
    rintro member parent ⟨k, hk, hparent⟩
    exact ⟨k, hk, ih hparent⟩

/-- More height than needed does no harm. -/
theorem derive_mono {m n : Nat} (hmn : m ≤ n) (h : c.derive m i = some s) :
    c.derive n i = some s := by
  induction hmn with
  | refl => exact h
  | step _ ih => exact derive_succ ih

/-- **An instantiation has one schema.** -/
theorem Derives.unique (hs : c.Derives i s) (ht : c.Derives i t) : s = t := by
  obtain ⟨m, hm⟩ := hs
  obtain ⟨n, hn⟩ := ht
  -- both are derived at the greater of the two heights
  have hs' := derive_mono (Nat.le_max_left m n) hm
  have ht' := derive_mono (Nat.le_max_right m n) hn
  rw [hs'] at ht'
  cases ht'
  rfl

/-- The members derive one list of schemas only. -/
theorem DerivesEach.unique {members : List TypeExpr} {ps qs : List ResolvedSchema}
    (hp : c.DerivesEach members ps) (hq : c.DerivesEach members qs) : ps = qs := by
  induction hp generalizing qs with
  | nil =>
    cases hq
    rfl
  | cons h _ ih =>
    obtain ⟨i, hi, hs⟩ := h
    cases hq with
    | cons h' hrest =>
      obtain ⟨j, hj, ht⟩ := h'
      rw [hi] at hj
      cases hj
      rw [hs.unique ht, ih hrest]

/-- Members that are derived are all derived below one height. -/
theorem DerivesEach.exists_height {members : List TypeExpr} {parents : List ResolvedSchema}
    (h : c.DerivesEach members parents) :
    ∃ height, deriveEach (c.derive height) members = some parents := by
  simp only [deriveEach_eq_some]
  induction h with
  | nil => exact ⟨0, .nil⟩
  | cons h _ ih =>
    obtain ⟨i, hi, m, hm⟩ := h
    obtain ⟨n, hn⟩ := ih
    refine ⟨max m n, .cons ⟨i, hi, derive_mono (Nat.le_max_left m n) hm⟩ ?_⟩
    refine hn.imp ?_
    rintro member parent ⟨k, hk, hparent⟩
    exact ⟨k, hk, derive_mono (Nat.le_max_right m n) hparent⟩

theorem DerivesEach.of_height {height : Nat} {members : List TypeExpr}
    {parents : List ResolvedSchema} (h : deriveEach (c.derive height) members = some parents) :
    c.DerivesEach members parents := by
  refine (deriveEach_eq_some.1 h).imp ?_
  rintro member parent ⟨i, hi, hparent⟩
  exact ⟨i, hi, height, hparent⟩

/-- **The flattening rule.** The schema of an instantiation is what its plan
combines from the schemas of its members. -/
theorem derives_iff :
    c.Derives i s ↔ ∃ p parents, c.plan i = .ok p ∧ c.DerivesEach p.members parents ∧
      p.combine parents = .ok s := by
  constructor
  · rintro ⟨height, h⟩
    cases height with
    | zero => simp [derive] at h
    | succ height =>
      obtain ⟨p, parents, hp, hparents, hs⟩ := derive_succ_eq_some.1 h
      exact ⟨p, parents, hp, .of_height hparents, hs⟩
  · rintro ⟨p, parents, hp, hparents, hs⟩
    obtain ⟨height, hheight⟩ := hparents.exists_height
    exact ⟨height + 1, derive_succ_eq_some.2 ⟨p, parents, hp, hheight, hs⟩⟩

/-- A schema knows the instantiation it was derived for. -/
theorem Derives.instantiation_eq {p : Plan} (h : c.Derives i s) (hp : c.plan i = .ok p) :
    s.instantiation = p.key := by
  obtain ⟨q, parents, hq, -, hs⟩ := derives_iff.1 h
  rw [hp] at hq
  cases hq
  obtain ⟨held, -, rfl⟩ := Plan.combine_eq_ok.1 hs
  rfl

/-- Instantiations with one plan have one derivation. -/
theorem derive_congr (h : c.plan i = c.plan j) (height : Nat) :
    c.derive height i = c.derive height j := by
  cases height with
  | zero => rfl
  | succ height => rw [derive, derive, h]

end Composer

end WidgetSchema
