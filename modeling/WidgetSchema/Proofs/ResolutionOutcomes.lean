/-
How a resolution ends by the definitions alone.

`derive` says which schema an instantiation has, and nothing where it has none. `settle`
says as well with which error it is refused: the plan is missing, a member names no type or
is refused itself, or members conflict, whichever comes first. Like a schema an error does
not depend on a memo, a chain or the bound, and there is one at most (`Settles.unique`). An
instantiation whose first member in the way leads back to it is settled at no height; it
has no schema, and its only error is that of a cycle, which names the chain.

So a resolution, from whatever memo and on whatever chain it comes, ends as the definitions
settle it, or with a cycle where they settle nothing, unless the bound on the nesting stops
it (`resolveStruct_ends`).
-/
import WidgetSchema.Proofs.FailedResolutions

set_option autoImplicit false

namespace WidgetSchema

namespace Composer

/-! ## Settling -/

/-- How the loop over members ends, if all are settled that it comes to. -/
def settleEach (settle : Instantiation → Option (Except SchemaError ResolvedSchema))
    (owner : String) : List TypeExpr → Merged → Option (Except SchemaError Merged)
  | [], merged => some (.ok merged)
  | member :: rest, merged =>
    match member.instantiation? with
    | none => some (.error (.definition owner (.notTypeName member.render)))
    | some i =>
      match settle i with
      | none => none
      | some (.error e) => some (.error e)
      | some (.ok parent) =>
        match mergeMember merged.held parent with
        | .error conflict => some (.error conflict.toSchemaError)
        | .ok held =>
          settleEach settle owner rest { held, lineage := merged.lineage ++ parent.lineage.toList }

/-- What an instantiation is resolved to, or the error that it is refused with, by the
definitions alone, if no more than `height` compositions stand inside each other on the way. -/
def settle (c : Composer) :
    (height : Nat) → Instantiation → Option (Except SchemaError ResolvedSchema)
  -- no room left says nothing, while an error says that there is no schema
  | 0, _ => none
  | height + 1, i =>
    match c.plan i with
    | .error e => some (.error e)
    | .ok p =>
      (settleEach (settle c height) p.key.name p.members { held := .empty, lineage := [] }).map
        (Except.map (assemble p.key p.bindings p.parts.fields))

/-- The definitions settle the instantiation so. -/
def Settles (c : Composer) (i : Instantiation) (r : Except SchemaError ResolvedSchema) : Prop :=
  ∃ height, c.settle height i = some r

/-- The definitions settle the loop over members so. -/
def SettlesEach (c : Composer) (owner : String) (members : List TypeExpr) (merged : Merged)
    (r : Except SchemaError Merged) : Prop :=
  ∃ height, settleEach (c.settle height) owner members merged = some r

variable {c : Composer} {i j : Instantiation} {r r' : Except SchemaError ResolvedSchema}
  {owner : String} {member : TypeExpr} {members rest : List TypeExpr} {merged : Merged}
  {q q' : Except SchemaError Merged} {p : Plan} {height : Nat}
  {settle : Instantiation → Option (Except SchemaError ResolvedSchema)}

/-! ## One step -/

theorem settleEach_none (hi : member.instantiation? = none) :
    settleEach settle owner (member :: rest) merged =
      some (.error (.definition owner (.notTypeName member.render))) := by
  rw [settleEach, hi]

/-- The loop goes on behind a member that is settled and can be merged. -/
theorem settleEach_some (hi : member.instantiation? = some i) :
    settleEach settle owner (member :: rest) merged =
      match settle i with
      | none => none
      | some (.error e) => some (.error e)
      | some (.ok parent) =>
        match mergeMember merged.held parent with
        | .error conflict => some (.error conflict.toSchemaError)
        | .ok held =>
          settleEach settle owner rest
            { held, lineage := merged.lineage ++ parent.lineage.toList } := by
  rw [settleEach, hi]

theorem settle_succ_error {e : SchemaError} (hp : c.plan i = .error e) :
    c.settle (height + 1) i = some (.error e) := by
  rw [Composer.settle, hp]

theorem settle_succ_ok (hp : c.plan i = .ok p) :
    c.settle (height + 1) i =
      (settleEach (c.settle height) p.key.name p.members { held := .empty, lineage := [] }).map
        (Except.map (assemble p.key p.bindings p.parts.fields)) := by
  rw [Composer.settle, hp]

/-! ## Greater heights -/

theorem settleEach_mono {settle' : Instantiation → Option (Except SchemaError ResolvedSchema)}
    (hsettle : ∀ i r, settle i = some r → settle' i = some r)
    (h : settleEach settle owner members merged = some q) :
    settleEach settle' owner members merged = some q := by
  induction members generalizing merged with
  | nil => exact h
  | cons member rest ih =>
    cases hi : member.instantiation? with
    | none =>
      rw [settleEach_none hi] at h ⊢
      exact h
    | some i =>
      rw [settleEach_some hi] at h ⊢
      -- a member that is settled is settled alike by the other one
      cases hr : settle i with
      | none =>
        rw [hr] at h
        cases h
      | some r =>
        rw [hr] at h
        rw [hsettle i r hr]
        cases r with
        | error e => exact h
        | ok parent =>
          dsimp only at h ⊢
          cases hmerge : mergeMember merged.held parent with
          | error conflict =>
            rw [hmerge] at h
            exact h
          | ok held =>
            rw [hmerge] at h
            exact ih h

/-- What is settled is settled alike at every greater height. -/
theorem settle_succ (h : c.settle height i = some r) : c.settle (height + 1) i = some r := by
  induction height generalizing i r with
  | zero => cases h
  | succ height ih =>
    cases hp : c.plan i with
    | error e =>
      rw [settle_succ_error hp] at h ⊢
      exact h
    | ok p =>
      rw [settle_succ_ok hp] at h ⊢
      obtain ⟨q, hq, rfl⟩ := Option.map_eq_some_iff.1 h
      rw [settleEach_mono (fun i r => ih) hq]
      rfl

theorem settle_mono {height' : Nat} (hle : height ≤ height') (h : c.settle height i = some r) :
    c.settle height' i = some r := by
  induction hle with
  | refl => exact h
  | step _ ih => exact settle_succ ih

/-- **An instantiation is settled in one way.** -/
theorem Settles.unique (h : c.Settles i r) (h' : c.Settles i r') : r = r' := by
  obtain ⟨m, hm⟩ := h
  obtain ⟨n, hn⟩ := h'
  have hleft := settle_mono (Nat.le_max_left m n) hm
  have hright := settle_mono (Nat.le_max_right m n) hn
  rw [hleft] at hright
  exact Option.some.inj hright

/-! ## The rules -/

theorem settles_of_plan_error {e : SchemaError} (hp : c.plan i = .error e) :
    c.Settles i r ↔ r = .error e := by
  constructor
  · rintro ⟨height, h⟩
    cases height with
    | zero => cases h
    | succ height =>
      rw [settle_succ_error hp] at h
      exact (Option.some.inj h).symm
  · rintro rfl
    exact ⟨1, settle_succ_error hp⟩

/-- **A composition is settled as its members are.** -/
theorem settles_of_plan (hp : c.plan i = .ok p) :
    c.Settles i r ↔ ∃ q, c.SettlesEach p.key.name p.members { held := .empty, lineage := [] } q ∧
      r = q.map (assemble p.key p.bindings p.parts.fields) := by
  constructor
  · rintro ⟨height, h⟩
    cases height with
    | zero => cases h
    | succ height =>
      rw [settle_succ_ok hp] at h
      obtain ⟨q, hq, rfl⟩ := Option.map_eq_some_iff.1 h
      exact ⟨q, ⟨height, hq⟩, rfl⟩
  · rintro ⟨q, ⟨height, hq⟩, rfl⟩
    refine ⟨height + 1, ?_⟩
    rw [settle_succ_ok hp, hq]
    rfl

theorem settlesEach_nil : c.SettlesEach owner [] merged q ↔ q = .ok merged := by
  constructor
  · rintro ⟨height, h⟩
    exact (Option.some.inj h).symm
  · rintro rfl
    exact ⟨0, rfl⟩

theorem settlesEach_none (hi : member.instantiation? = none) :
    c.SettlesEach owner (member :: rest) merged q ↔
      q = .error (.definition owner (.notTypeName member.render)) := by
  constructor
  · rintro ⟨height, h⟩
    rw [settleEach_none hi] at h
    exact (Option.some.inj h).symm
  · rintro rfl
    exact ⟨0, settleEach_none hi⟩

/-- How the loop ends at a member that is settled, or goes on behind it. -/
def SettlesFrom (c : Composer) (owner : String) (rest : List TypeExpr) (merged : Merged)
    (q : Except SchemaError Merged) : Except SchemaError ResolvedSchema → Prop
  | .error e => q = .error e
  | .ok parent =>
    match mergeMember merged.held parent with
    | .error conflict => q = .error conflict.toSchemaError
    | .ok held =>
      c.SettlesEach owner rest { held, lineage := merged.lineage ++ parent.lineage.toList } q

/-- **The loop settles its members in order.** -/
theorem settlesEach_some (hi : member.instantiation? = some i) :
    c.SettlesEach owner (member :: rest) merged q ↔
      ∃ r, c.Settles i r ∧ c.SettlesFrom owner rest merged q r := by
  constructor
  · rintro ⟨height, h⟩
    rw [settleEach_some hi] at h
    cases hr : c.settle height i with
    | none =>
      rw [hr] at h
      cases h
    | some r =>
      refine ⟨r, ⟨height, hr⟩, ?_⟩
      rw [hr] at h
      cases r with
      | error e => exact (Option.some.inj h).symm
      | ok parent =>
        unfold SettlesFrom
        dsimp only at h ⊢
        cases hmerge : mergeMember merged.held parent with
        | error conflict =>
          rw [hmerge] at h
          exact (Option.some.inj h).symm
        | ok held =>
          rw [hmerge] at h
          exact ⟨height, h⟩
  · rintro ⟨r, ⟨m, hm⟩, hfrom⟩
    cases r with
    | error e =>
      refine ⟨m, ?_⟩
      rw [settleEach_some hi, hm, show q = _ from hfrom]
    | ok parent =>
      unfold SettlesFrom at hfrom
      dsimp only at hfrom
      cases hmerge : mergeMember merged.held parent with
      | error conflict =>
        rw [hmerge] at hfrom
        refine ⟨m, ?_⟩
        rw [settleEach_some hi, hm]
        dsimp only
        rw [hmerge, show q = _ from hfrom]
      | ok held =>
        rw [hmerge] at hfrom
        -- the member and the rest are settled at the greater of two heights
        obtain ⟨n, hn⟩ := hfrom
        refine ⟨max m n, ?_⟩
        rw [settleEach_some hi, settle_mono (Nat.le_max_left m n) hm]
        dsimp only
        rw [hmerge]
        exact settleEach_mono (fun i r => settle_mono (Nat.le_max_right m n)) hn

/-- Behind a member that has a schema and can be merged the loop is settled as its rest. -/
theorem settlesEach_behind {parent : ResolvedSchema} {held : OrderedMap Contribution}
    (hi : member.instantiation? = some i) (hs : c.Settles i (.ok parent))
    (hmerge : mergeMember merged.held parent = .ok held) :
    c.SettlesEach owner (member :: rest) merged q ↔
      c.SettlesEach owner rest { held, lineage := merged.lineage ++ parent.lineage.toList } q := by
  rw [settlesEach_some hi]
  constructor
  · rintro ⟨r, hr, hfrom⟩
    rw [hr.unique hs] at hfrom
    unfold SettlesFrom at hfrom
    dsimp only at hfrom
    rw [hmerge] at hfrom
    exact hfrom
  · intro h
    refine ⟨.ok parent, hs, ?_⟩
    unfold SettlesFrom
    dsimp only
    rw [hmerge]
    exact h

/-! ## Schemas -/

/-- The loop over members that have schemas ends as these are merged. -/
theorem settlesEach_of_schemas (owner : String) (merged : Merged) {parents : List ResolvedSchema}
    (h : List.Forall₂ (fun t s => ∃ i, t.instantiation? = some i ∧ c.Settles i (.ok s))
      members parents) :
    c.SettlesEach owner members merged <|
      match mergeMembers parents merged.held with
      | .error conflict => .error conflict.toSchemaError
      | .ok held =>
        .ok { held, lineage := merged.lineage ++ parents.flatMap fun s => s.lineage.toList } := by
  induction h generalizing merged with
  | nil =>
    refine settlesEach_nil.2 ?_
    rw [List.flatMap_nil, List.append_nil]
    rfl
  | @cons member parent rest parents hfirst _ ih =>
    obtain ⟨i, hi, hs⟩ := hfirst
    refine (settlesEach_some hi).2 ⟨.ok parent, hs, ?_⟩
    unfold SettlesFrom
    rw [mergeMembers_cons]
    dsimp only
    cases mergeMember merged.held parent with
    | error conflict => rfl
    | ok held =>
      dsimp only
      rw [List.flatMap_cons, ← List.append_assoc]
      exact @ih { held, lineage := merged.lineage ++ parent.lineage.toList }

/-- If the loop ends, all members have schemas, and they are merged. -/
theorem exists_schemas_of_settleEach {merged' : Merged}
    (hsettle : ∀ i s, settle i = some (.ok s) → c.Derives i s)
    (h : settleEach settle owner members merged = some (.ok merged')) :
    ∃ parents, c.DerivesEach members parents ∧
      mergeMembers parents merged.held = .ok merged'.held ∧
      merged'.lineage = merged.lineage ++ parents.flatMap fun s => s.lineage.toList := by
  induction members generalizing merged with
  | nil =>
    cases h
    exact ⟨[], .nil, rfl, by rw [List.flatMap_nil, List.append_nil]⟩
  | cons member rest ih =>
    cases hi : member.instantiation? with
    | none =>
      rw [settleEach_none hi] at h
      cases h
    | some i =>
      rw [settleEach_some hi] at h
      -- a loop that ended has settled its first member, to a schema that could be merged
      cases hr : settle i with
      | none =>
        rw [hr] at h
        cases h
      | some r =>
        rw [hr] at h
        cases r with
        | error e => cases h
        | ok parent =>
          dsimp only at h
          cases hmerge : mergeMember merged.held parent with
          | error conflict =>
            rw [hmerge] at h
            cases h
          | ok held =>
            rw [hmerge] at h
            obtain ⟨parents, hparents, hheld, hlineage⟩ := ih h
            refine ⟨parent :: parents, .cons ⟨i, hi, hsettle i parent hr⟩ hparents, ?_, ?_⟩
            · rw [mergeMembers_cons, hmerge]
              exact hheld
            · rw [hlineage, List.flatMap_cons, List.append_assoc]

/-- **What is settled to a schema has it**, and the other way round. -/
theorem settles_ok_iff {s : ResolvedSchema} : c.Settles i (.ok s) ↔ c.Derives i s := by
  constructor
  · -- by induction on the height: the members that are settled have schemas
    rintro ⟨height, h⟩
    induction height generalizing i s with
    | zero => cases h
    | succ height ih =>
      cases hp : c.plan i with
      | error e =>
        rw [settle_succ_error hp] at h
        cases h
      | ok p =>
        rw [settle_succ_ok hp] at h
        obtain ⟨q, hq, hs⟩ := Option.map_eq_some_iff.1 h
        cases q with
        | error e => cases hs
        | ok merged =>
          obtain ⟨parents, hparents, hheld, hlineage⟩ :=
            exists_schemas_of_settleEach (fun i s => ih) hq
          refine derives_iff.2 ⟨p, parents, hp, hparents, ?_⟩
          refine Plan.combine_eq_ok.2 ⟨merged.held, hheld, ?_⟩
          cases hs
          obtain ⟨held, lineage⟩ := merged
          rw [show lineage = _ from hlineage, List.nil_append]
  · -- and derived members are settled, so the loop over them is
    rintro ⟨height, h⟩
    induction height generalizing i s with
    | zero => simp [derive] at h
    | succ height ih =>
      obtain ⟨p, parents, hp, hparents, hs⟩ := derive_succ_eq_some.1 h
      obtain ⟨held, hmerge, hs⟩ := Plan.combine_eq_ok.1 hs
      rw [deriveEach_eq_some] at hparents
      have hmembers : List.Forall₂ (fun t s => ∃ i, t.instantiation? = some i ∧
          c.Settles i (.ok s)) p.members parents := by
        refine hparents.imp fun t u htu => ?_
        obtain ⟨k, hk, hu⟩ := htu
        exact ⟨k, hk, ih hu⟩
      have heach := settlesEach_of_schemas p.key.name { held := .empty, lineage := [] } hmembers
      rw [hmerge] at heach
      refine (settles_of_plan hp).2 ⟨_, heach, ?_⟩
      rw [hs]
      rfl

/-! ## Runs -/

/-- A run ends as the definitions say, or with a cycle where they say nothing, unless the
bound on the nesting stops it. -/
def EndsAs {α : Type} (outcome : Except SchemaError α) (settles : Except SchemaError α → Prop) :
    Prop :=
  StoppedByDepth outcome ∨ settles outcome ∨
    (∀ r, ¬ settles r) ∧ ∃ names, outcome = .error (.inheritanceCycle names)

/-- Whatever completes to an instantiation on the chain is settled only above something else. -/
def Under (c : Composer) (chain : List Instantiation) (settled : Nat → Prop) : Prop :=
  ∀ j p height r, c.plan j = .ok p → p.key ∈ chain → c.settle (height + 1) j = some r →
    settled height

variable {memo : Memo} {chain : List Instantiation}
  {resolve : Instantiation → Resolving ResolvedSchema}

theorem Under.imp {settled settled' : Nat → Prop} (h : c.Under chain settled)
    (himp : ∀ height, settled height → settled' height) : c.Under chain settled' :=
  fun j p height r hp hkey hr => himp height (h j p height r hp hkey hr)

/-- Where a loop is settled, so is its first member. -/
theorem exists_settled_first (hi : member.instantiation? = some i)
    (h : settleEach settle owner (member :: rest) merged = some q) : ∃ r, settle i = some r := by
  rw [settleEach_some hi] at h
  cases hr : settle i with
  | none =>
    rw [hr] at h
    cases h
  | some r => exact ⟨r, rfl⟩

/-- And behind a member that can be merged, so is the rest, at the same height. -/
theorem settleEach_rest {parent : ResolvedSchema} {held : OrderedMap Contribution}
    (hi : member.instantiation? = some i) (hs : c.Settles i (.ok parent))
    (hmerge : mergeMember merged.held parent = .ok held)
    (h : settleEach (c.settle height) owner (member :: rest) merged = some q) :
    settleEach (c.settle height) owner rest
      { held, lineage := merged.lineage ++ parent.lineage.toList } = some q := by
  obtain ⟨r, hr⟩ := exists_settled_first hi h
  rw [settleEach_some hi, hr, show r = .ok parent from Settles.unique ⟨height, hr⟩ hs] at h
  dsimp only at h
  rw [hmerge] at h
  exact h

/-- **The loop ends as it is settled**, if resolving its members does. -/
theorem mergeEach_ends (hfaithful : c.Faithful resolve)
    (hresolve : ∀ i memo, memo.DerivedBy c →
      c.Under chain (fun height => ∃ r, c.settle height i = some r) →
      EndsAs ((resolve i).run memo).outcome (c.Settles i))
    (hm : memo.DerivedBy c)
    (hunder : c.Under chain
      (fun height => ∃ q, settleEach (c.settle height) owner members merged = some q)) :
    EndsAs ((mergeEach resolve owner members merged).run memo).outcome
      (c.SettlesEach owner members merged) := by
  induction members generalizing memo merged with
  | nil => exact .inr (.inl (settlesEach_nil.2 rfl))
  | cons member rest ih =>
    cases hi : member.instantiation? with
    | none =>
      rw [mergeEach_outcome_none owner rest merged hi]
      exact .inr (.inl ((settlesEach_none hi).2 rfl))
    | some i =>
      rw [mergeEach_outcome_some owner rest merged hi]
      have hfirst : c.Under chain (fun height => ∃ r, c.settle height i = some r) :=
        hunder.imp fun height h => h.elim fun q hq => exists_settled_first hi hq
      -- the first member: given up for the bound, settled, or on a circle
      rcases hresolve i memo hm hfirst with ⟨name, bound, hstop⟩ | hsettles | ⟨hnone, names, hcycle⟩
      · rw [hstop]
        exact .inl ⟨name, bound, rfl⟩
      · cases hparent : ((resolve i).run memo).outcome with
        | error e =>
          rw [hparent] at hsettles
          exact .inr (.inl ((settlesEach_some hi).2 ⟨_, hsettles, rfl⟩))
        | ok parent =>
          rw [hparent] at hsettles
          dsimp only
          cases hmerge : mergeMember merged.held parent with
          | error conflict =>
            refine .inr (.inl ((settlesEach_some hi).2 ⟨_, hsettles, ?_⟩))
            unfold SettlesFrom
            dsimp only
            rw [hmerge]
          | ok held =>
            have hbehind (q : Except SchemaError Merged) :
                c.SettlesEach owner (member :: rest) merged q ↔ c.SettlesEach owner rest
                  { held, lineage := merged.lineage ++ parent.lineage.toList } q :=
              settlesEach_behind hi hsettles hmerge
            -- behind it, the loop goes on from the memo that it left
            have hrest := @ih { held, lineage := merged.lineage ++ parent.lineage.toList }
              ((resolve i).run memo).state (hfaithful i memo hm).1
              (hunder.imp fun height h => h.imp fun q hq => settleEach_rest hi hsettles hmerge hq)
            rcases hrest with hstop | hends | ⟨hnone, hcycle⟩
            · exact .inl hstop
            · exact .inr (.inl ((hbehind _).2 hends))
            · exact .inr (.inr ⟨fun q hq => hnone q ((hbehind q).1 hq), hcycle⟩)
      · -- the member is settled in no way, so the loop is not
        rw [hcycle]
        refine .inr (.inr ⟨fun q hq => ?_, names, rfl⟩)
        obtain ⟨r, hr, -⟩ := (settlesEach_some hi).1 hq
        exact hnone r hr

/-- Looking an instantiation up fails where it has no plan, and on a chain that it stands
on itself. -/
theorem start_error_cases {e : SchemaError}
    (h : ((c.start chain i).run memo).outcome = .error e) :
    c.plan i = .error e ∨
      ∃ p, c.plan i = .ok p ∧ p.key ∈ chain ∧
        e = .inheritanceCycle (chain.map Instantiation.label ++ [i.name]) := by
  rw [start_outcome] at h
  unfold plan
  cases hd : c.complete i with
  | error e' =>
    rw [hd] at h
    cases h
    exact .inl rfl
  | ok found =>
    obtain ⟨d, bindings, key⟩ := found
    rw [hd] at h
    dsimp only at h ⊢
    cases hl : memo.schemas.lookup key with
    | some s =>
      rw [hl] at h
      cases h
    | none =>
      rw [hl] at h
      -- what is not remembered needs a plan, and then a place on the chain
      cases hparts : d.composition with
      | error e' =>
        rw [hparts] at h
        cases h
        exact .inl rfl
      | ok parts =>
        rw [hparts] at h
        dsimp only at h
        split at h
        · next hkey =>
          cases h
          exact .inr ⟨_, rfl, hkey, rfl⟩
        · cases h

/-- What is composed now is settled above its members, and so is all on the chain. -/
theorem Under.append (h : c.Under chain fun height => ∃ r, c.settle height i = some r)
    (hp : c.plan i = .ok p) :
    c.Under (chain ++ [p.key]) fun height => ∃ q,
      settleEach (c.settle height) p.key.name p.members { held := .empty, lineage := [] } =
        some q := by
  have hbelow {height : Nat} {r : Except SchemaError ResolvedSchema}
      (hr : c.settle (height + 1) i = some r) : ∃ q,
        settleEach (c.settle height) p.key.name p.members { held := .empty, lineage := [] } =
          some q := by
    rw [settle_succ_ok hp] at hr
    obtain ⟨q, hq, -⟩ := Option.map_eq_some_iff.1 hr
    exact ⟨q, hq⟩
  intro j q height r hq hkey hr
  rcases List.mem_append.1 hkey with hkey | hkey
  · -- what stood on the chain before is settled one step higher
    obtain ⟨r', hr'⟩ := h j q height r hq hkey hr
    cases height with
    | zero => cases hr'
    | succ height =>
      obtain ⟨result, hresult⟩ := hbelow hr'
      exact ⟨result, settleEach_mono (fun i r => settle_succ) hresult⟩
  · -- and what has the key that is composed now has its plan
    have hqp : q = p := plan_eq_of_key_eq hq hp (List.mem_singleton.1 hkey)
    rw [settle_succ_ok hq, ← settle_succ_ok (hqp ▸ hp)] at hr
    exact hbelow hr

/-- Nothing settles what stands on the chain itself: it would be settled lower and lower. -/
theorem Under.not_settles (h : c.Under chain fun height => ∃ r, c.settle height i = some r)
    (hp : c.plan i = .ok p) (hkey : p.key ∈ chain) : ¬ c.Settles i r := by
  rintro ⟨height, hr⟩
  induction height generalizing r with
  | zero => cases hr
  | succ height ih =>
    obtain ⟨r', hr'⟩ := h i p height r hp hkey hr
    exact ih hr'

/-- **A composition ends as it is settled**, on whatever chain it stands. The induction is
on the room that is left below the bound. -/
theorem compose_ends (room : Nat) (hm : memo.DerivedBy c)
    (hunder : c.Under chain fun height => ∃ r, c.settle height i = some r) :
    EndsAs ((c.compose room chain i).run memo).outcome (c.Settles i) := by
  induction room using Nat.strongRecOn generalizing chain i memo with
  | ind room ih =>
    rw [compose_outcome]
    cases hstart : ((c.start chain i).run memo).outcome with
    | error e =>
      rcases start_error_cases hstart with hp | ⟨p, hp, hkey, rfl⟩
      · exact .inr (.inl ((settles_of_plan_error hp).2 rfl))
      · exact .inr (.inr ⟨fun r => hunder.not_settles hp hkey, _, rfl⟩)
    | ok start =>
      cases start with
      | known s =>
        -- the memo holds derived schemas only
        obtain ⟨d, bindings, key, hd, hl⟩ := start_eq_known hstart
        exact .inr (.inl (settles_ok_iff.2 (hm.lookup hd hl)))
      | fresh key bindings parts =>
        cases room with
        | zero => exact .inl ⟨i.name, c.maxDepth, rfl⟩
        | succ room =>
          let p : Plan := { key, bindings, parts }
          have hp : c.plan i = .ok p := start_eq_fresh hstart
          obtain ⟨houtcome, -⟩ := @composeNew_run memo (c.compose room (chain ++ [key])) p
          have hmerging : EndsAs ((mergeEach (c.compose room (chain ++ [key])) p.key.name p.members
              { held := .empty, lineage := [] }).run memo).outcome
              (c.SettlesEach p.key.name p.members { held := .empty, lineage := [] }) :=
            mergeEach_ends (compose_derived room (chain ++ [key]))
              (fun i memo => ih room (Nat.lt_succ_self room)) hm (hunder.append hp)
          show EndsAs ((composeNew _ p.key p.bindings p.parts).run memo).outcome _
          rw [houtcome]
          rcases hmerging with ⟨name, bound, hstop⟩ | hsettles | ⟨hnone, names, hcycle⟩
          · rw [hstop]
            exact .inl ⟨name, bound, rfl⟩
          · refine .inr (.inl ((settles_of_plan hp).2 ⟨_, hsettles, ?_⟩))
            cases ((mergeEach (c.compose room (chain ++ [key])) p.key.name p.members
              { held := .empty, lineage := [] }).run memo).outcome <;> rfl
          · rw [hcycle]
            refine .inr (.inr ⟨?_, names, rfl⟩)
            intro r hr
            obtain ⟨q, hq, -⟩ := (settles_of_plan hp).1 hr
            exact hnone q hq

/-- **A resolution ends as the definitions settle it**, with a cycle where they settle
nothing, or at the bound on the nesting. -/
theorem resolveStruct_ends (hm : memo.DerivedBy c) (i : Instantiation) :
    EndsAs ((c.resolveStruct i).run memo).outcome (c.Settles i) :=
  compose_ends c.maxDepth hm fun _ _ _ _ _ hkey => absurd hkey List.not_mem_nil

end Composer

end WidgetSchema
