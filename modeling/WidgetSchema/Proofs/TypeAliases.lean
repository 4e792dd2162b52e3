/-
Another name for a type.

An alias whose expression is a type name is composed like a struct, from that type alone: it
has the fields of the type, and its lineage has one label more, its own. What it is resolved
to is settled as the type is (`settles_of_renames`).

The label more is what counts where members conflict. In a list of members the alias is
decided as the type in all cases but one: a member that descends from the type overrides it,
and does not override the alias unless it descends from that as well. So the two may take
each other's place in a composition, which ends alike, unless the alias brings about that
conflict (`renamed_members_make_no_difference`). This needs labels to tell apart the types
that are composed, and the bound on the nesting must not be met, which an alias brings one
closer.
-/
import WidgetSchema.Proofs.FieldOrder
import WidgetSchema.Proofs.Labels
import WidgetSchema.Proofs.ResolutionOutcomes
import WidgetSchema.Proofs.StructArrivals

set_option autoImplicit false

namespace WidgetSchema

namespace Composer

variable {c : Composer} {i j k key : Instantiation} {e : TypeExpr} {x t s : ResolvedSchema}
  {p : Plan} {r : Except SchemaError ResolvedSchema}

/-! ## Aliases of type names -/

/-- The first instantiation is of an alias that stands for the name of the second. -/
def Renames (c : Composer) (k j : Instantiation) : Prop :=
  ∃ e, c.Denotes k (.expression e) ∧ e.instantiation? = some j

/-- Such an alias composes that name alone and declares nothing. -/
theorem Renames.exists_plan (h : c.Renames k j) :
    ∃ p e, c.plan k = .ok p ∧ p.members = [e] ∧ e.instantiation? = some j ∧
      p.parts.fields = .empty := by
  obtain ⟨e, hdenotes, hj⟩ := h
  have hplan : ∃ p, c.plan k = .ok p := by
    cases hdenotes with
    | @expression d bindings key body hd hplain =>
      cases d with
      | ofStruct d => cases hplain
      | ofAlias d =>
        have hbody : body = d.expression := List.mem_singleton.1 (plainExpression_body hplain)
        -- only a type name becomes one when parameters are replaced
        have hshape : d.expression.isStructShaped = true := by
          rw [← hbody]
          cases body with
          | reference | generic => rfl
          | _ =>
            rw [TypeExpr.substitute] at hj
            cases hj
        refine ⟨{ key, bindings, parts := { supertype := some d.expression, fields := .empty } },
          plan_eq_ok.2 ⟨_, hd, ?_⟩⟩
        simp only [Definition.composition, hshape, if_true]
  obtain ⟨p, hp⟩ := hplan
  obtain ⟨hmembers, hown⟩ := plan_of_denotes_expression hdenotes hp
  rw [operands_of_instantiation hj] at hmembers
  exact ⟨p, e, hp, hmembers, hj, hown⟩

/-- Merging a first member succeeds. -/
theorem exists_mergeMember_empty (t : ResolvedSchema) :
    ∃ held, mergeMember .empty t = .ok held := by
  cases hmerge : mergeMember .empty t with
  | ok held => exact ⟨held, rfl⟩
  | error conflict =>
    have hconflict := mergeMember_conflict hmerge
    have hnone : (OrderedMap.empty : OrderedMap Contribution).get? conflict.field = none := rfl
    rw [hnone] at hconflict
    cases hoffer : t.offer? conflict.field <;>
    · rw [hoffer] at hconflict
      cases hconflict

/-- **The alias is settled as the type is.** -/
theorem settles_of_renames (h : c.Renames k j) :
    (∀ e, c.Settles j (.error e) → c.Settles k (.error e)) ∧
      (∀ t, c.Settles j (.ok t) → ∃ x, c.Settles k (.ok x)) ∧
      ∀ r, c.Settles k r → ∃ r', c.Settles j r' := by
  obtain ⟨p, member, hp, hmembers, hj, -⟩ := h.exists_plan
  have hone (q : Except SchemaError Merged) :
      c.SettlesEach p.key.name [member] { held := .empty, lineage := [] } q ↔
        ∃ r, c.Settles j r ∧ c.SettlesFrom p.key.name [] { held := .empty, lineage := [] } q r :=
    settlesEach_some hj
  refine ⟨fun e he => ?_, fun t ht => ?_, fun r hr => ?_⟩
  · refine (settles_of_plan hp).2 ⟨.error e, ?_, rfl⟩
    rw [hmembers]
    exact (hone _).2 ⟨.error e, he, rfl⟩
  · obtain ⟨held, hheld⟩ := exists_mergeMember_empty t
    refine ⟨_, (settles_of_plan hp).2 ⟨.ok { held, lineage := [] ++ t.lineage.toList }, ?_, rfl⟩⟩
    rw [hmembers]
    refine (hone _).2 ⟨.ok t, ht, ?_⟩
    unfold SettlesFrom
    dsimp only
    rw [hheld]
    exact settlesEach_nil.2 rfl
  · obtain ⟨q, hq, -⟩ := (settles_of_plan hp).1 hr
    rw [hmembers] at hq
    obtain ⟨r', hr', -⟩ := (hone q).1 hq
    exact ⟨r', hr'⟩

/-- A type that composes one member and declares nothing has the fields of the member, in
their order. -/
theorem fields_combine_singleton (hs : p.combine [t] = .ok s) (hown : p.parts.fields = .empty) :
    s.fields = t.fields := by
  have hundeclared (f : String) : p.parts.fields.get? f = none := by
    rw [hown]
    rfl
  refine OrderedMap.ext_get? ?_ fun f => get?_combine_singleton hs (hundeclared f)
  rw [Plan.combine_keys hs hown, List.foldl_cons, List.foldl_nil, appendNew_nil]

/-- **The schema of the alias** has the fields of the type, and one label more. -/
theorem schema_of_renames (h : c.Renames k j) (hx : c.Derives k x) (ht : c.Derives j t) :
    x.fields = t.fields ∧ (∀ label, label ∈ x.lineage ↔ label = x.label ∨ label ∈ t.lineage) ∧
      c.HasSupertype x.instantiation t.instantiation := by
  obtain ⟨p, member, hp, hmembers, hj, hown⟩ := h.exists_plan
  obtain ⟨q, parents, hq, hparents, hcombine⟩ := derives_iff.1 hx
  rw [hp] at hq
  cases hq
  rw [hmembers] at hparents
  obtain rfl : parents = [t] := hparents.unique (.cons ⟨j, hj, ht⟩ .nil)
  refine ⟨fields_combine_singleton hcombine hown, fun label => ?_, ?_⟩
  · rw [Plan.mem_lineage hcombine]
    simp
  · rw [hx.instantiation_eq hp]
    exact ⟨p, plan_key hp, member, by rw [hmembers]; exact List.mem_singleton_self _, j, hj,
      ht.exists_complete⟩

/-! ## Labels that tell apart -/

/-- Different instantiations that are reached from this one have different labels. -/
def LabelsApart (c : Composer) (key : Instantiation) : Prop :=
  ∀ i j, c.HasAncestor key i → c.HasAncestor key j → i.label = j.label → i = j

/-- What can be read has labels that tell apart, and so has all that it reaches. -/
theorem labelsApart_of_isRead (hr : c.registry.Writable) (hkey : key.IsRead) :
    c.LabelsApart key := by
  intro i j hi hj hlabel
  exact (hi.isRead hr hkey).eq_of_label (hj.isRead hr hkey) hlabel

/-- The schema of something that is reached from here. -/
structure ReachedFrom (c : Composer) (key : Instantiation) (s : ResolvedSchema) : Prop where
  derives : ∃ i, c.Derives i s
  ancestor : c.HasAncestor key s.instantiation

namespace ReachedFrom

theorem eq_of_label (hs : c.ReachedFrom key s) (ht : c.ReachedFrom key t)
    (hlabels : c.LabelsApart key) (h : s.label = t.label) : s = t := by
  obtain ⟨i, hi⟩ := hs.derives
  obtain ⟨j, hj⟩ := ht.derives
  exact hi.eq_of_instantiation_eq hj (hlabels _ _ hs.ancestor ht.ancestor h)

/-- Where labels tell apart, those in a lineage are those of ancestors. -/
theorem label_mem_lineage (hs : c.ReachedFrom key s) (ht : c.ReachedFrom key t)
    (hlabels : c.LabelsApart key) :
    t.label ∈ s.lineage ↔ c.HasAncestor s.instantiation t.instantiation := by
  obtain ⟨i, hi⟩ := hs.derives
  rw [hi.mem_lineage_iff]
  constructor
  · rintro ⟨j, hj, hlabel⟩
    rw [← hlabels _ _ (hs.ancestor.trans hj) ht.ancestor hlabel]
    exact hj
  · intro h
    exact ⟨t.instantiation, h, rfl⟩

theorem antisymm (hs : c.ReachedFrom key s) (ht : c.ReachedFrom key t)
    (hlabels : c.LabelsApart key) (hst : s.label ∈ t.lineage) (hts : t.label ∈ s.lineage) :
    s = t := by
  rw [ht.label_mem_lineage hs hlabels] at hst
  rw [hs.label_mem_lineage ht hlabels] at hts
  obtain ⟨i, hi⟩ := hs.derives
  obtain ⟨j, hj⟩ := ht.derives
  exact hi.eq_of_instantiation_eq hj (hi.ancestor_antisymm hts hst).symm

/-- What is above something that is reached is reached. -/
theorem trans (hs : c.ReachedFrom key s) (h : c.HasAncestor s.instantiation t.instantiation)
    (ht : c.Derives j t) : c.ReachedFrom key t :=
  ⟨⟨j, ht⟩, hs.ancestor.trans h⟩

/-- The two have different types for a field, so they are not one schema, and their
labels differ. -/
theorem label_ne {f : String} {held offered : ResolvedField} (hs : c.ReachedFrom key s)
    (ht : c.ReachedFrom key t) (hlabels : c.LabelsApart key)
    (hheld : s.fields.get? f = some held) (hoffered : t.fields.get? f = some offered)
    (hne : held.expression ≠ offered.expression) : s.label ≠ t.label := by
  intro hlabel
  obtain rfl := hs.eq_of_label ht hlabels hlabel
  rw [hheld] at hoffered
  cases hoffered
  exact hne rfl

end ReachedFrom

end Composer

/-! ## Decisions -/

/-- One of the two that conflict is the alias, and the other descends from what the alias
stands for, but not from the alias. -/
def Conflict.IsBypass (conflict : Conflict) (x t : ResolvedSchema) : Prop :=
  (conflict.first = x ∧ t.label ∈ conflict.second.lineage ∧ x.label ∉ conflict.second.lineage) ∨
    (conflict.second = x ∧ t.label ∈ conflict.first.lineage ∧ x.label ∉ conflict.first.lineage)

namespace Composer

variable {c : Composer} {k j key : Instantiation} {s s' : ResolvedSchema} {f : String}
  {a b : Contribution} {offered : ResolvedField} {held held' : OrderedMap Contribution}

/-- The two are one schema, or the first is that of the alias and the second that of the type. -/
def Alike (c : Composer) (k j : Instantiation) (s s' : ResolvedSchema) : Prop :=
  s = s' ∨ c.Derives k s ∧ c.Derives j s'

/-- The conflict is between the alias and what bypasses it. -/
def Bypassed (c : Composer) (k j : Instantiation) (conflict : Conflict) : Prop :=
  ∃ x t, c.Derives k x ∧ c.Derives j t ∧ conflict.IsBypass x t

/-- The two hold one field, and their holders are alike and have it so. -/
structure HoldsAlike (c : Composer) (key k j : Instantiation) (f : String)
    (a b : Contribution) : Prop where
  field : a.field = b.field
  reached : c.ReachedFrom key a.holder
  declared : a.holder.fields.get? f = some a.field
  holder : c.Alike k j a.holder b.holder

theorem Alike.fields_eq (h : c.Alike k j s s') (hk : c.Renames k j) : s.fields = s'.fields := by
  rcases h with rfl | ⟨hx, ht⟩
  · rfl
  · exact (schema_of_renames hk hx ht).1

section Decide

variable (hk : c.Renames k j) (hlabels : c.LabelsApart key)
include hk hlabels

/-- What the alias offers is decided as what the type offers, unless the holder descends from
the type and bypasses the alias. -/
theorem decide_offered {x t : ResolvedSchema} (hx : c.Derives k x) (ht : c.Derives j t)
    (hreached : c.ReachedFrom key x) (hholder : c.ReachedFrom key a.holder)
    (hheld : a.holder.fields.get? f = some a.field) (hoffered : x.fields.get? f = some offered) :
    a.decide x offered = a.decide t offered ∨
      a.decide x offered = .conflict ∧
        c.Bypassed k j ⟨f, a.holder, x, a.field.expression, offered.expression⟩ := by
  obtain ⟨hfields, hlineage, habove⟩ := schema_of_renames hk hx ht
  have htreached : c.ReachedFrom key t := hreached.trans (.single habove) ht
  unfold Contribution.decide
  by_cases hsame : a.field.expression = offered.expression
  · -- what agrees is kept, whoever offers it
    rw [if_pos hsame, if_pos hsame]
    exact .inl rfl
  have halias : a.holder.label ≠ x.label :=
    hholder.label_ne hreached hlabels hheld hoffered hsame
  have htype : a.holder.label ≠ t.label := by
    rw [hfields] at hoffered
    exact hholder.label_ne htreached hlabels hheld hoffered hsame
  -- the lineages of the two differ in the alias only, and that is not the holder
  have habove' : a.holder.label ∈ x.lineage ↔ a.holder.label ∈ t.lineage := by
    rw [hlineage, or_iff_right halias]
  rw [if_neg hsame, if_neg hsame, if_neg halias, if_neg htype]
  by_cases hbelow : x.label ∈ a.holder.lineage
  · have hbelow' : t.label ∈ a.holder.lineage := by
      rw [hholder.label_mem_lineage htreached hlabels]
      exact ((hholder.label_mem_lineage hreached hlabels).1 hbelow).tail habove
    rw [if_pos hbelow, if_pos hbelow']
    exact .inl rfl
  rw [if_neg hbelow]
  by_cases hbelow' : t.label ∈ a.holder.lineage
  · have hnot : a.holder.label ∉ x.lineage := fun hmem =>
      htype (congrArg _ (hholder.antisymm htreached hlabels (habove'.1 hmem) hbelow'))
    rw [if_neg hnot]
    exact .inr ⟨rfl, x, t, hx, ht, .inr ⟨rfl, hbelow', hbelow⟩⟩
  · rw [if_neg hbelow']
    simp only [habove', true_or]

/-- What the alias holds is decided as what the type holds, unless the member that offers
descends from the type and bypasses the alias. -/
theorem decide_held {x t : ResolvedSchema} {field : ResolvedField} (hx : c.Derives k x)
    (ht : c.Derives j t) (hreached : c.ReachedFrom key x) (hs : c.ReachedFrom key s)
    (hheld : x.fields.get? f = some field) (hoffered : s.fields.get? f = some offered) :
    Contribution.decide ⟨field, x⟩ s offered = Contribution.decide ⟨field, t⟩ s offered ∨
      Contribution.decide ⟨field, x⟩ s offered = .conflict ∧
        c.Bypassed k j ⟨f, x, s, field.expression, offered.expression⟩ := by
  obtain ⟨hfields, hlineage, habove⟩ := schema_of_renames hk hx ht
  have htreached : c.ReachedFrom key t := hreached.trans (.single habove) ht
  unfold Contribution.decide
  dsimp only
  by_cases hsame : field.expression = offered.expression
  · rw [if_pos hsame, if_pos hsame]
    exact .inl rfl
  have halias : x.label ≠ s.label := hreached.label_ne hs hlabels hheld hoffered hsame
  have htype : t.label ≠ s.label := by
    rw [hfields] at hheld
    exact htreached.label_ne hs hlabels hheld hoffered hsame
  -- the lineage of the alias is that of the type and its own label
  have habove' : s.label ∈ x.lineage ↔ s.label ∈ t.lineage := by
    rw [hlineage, or_iff_right halias.symm]
  rw [if_neg hsame, if_neg hsame, if_neg halias, if_neg htype]
  by_cases hkeep : s.label ∈ t.lineage
  · rw [if_pos hkeep, if_pos (habove'.2 hkeep)]
    exact .inl rfl
  rw [if_neg hkeep, if_neg (mt habove'.1 hkeep)]
  -- who descends from the alias descends from the type, and the converse is what may fail
  by_cases hbelow : x.label ∈ s.lineage
  · have hbelow' : t.label ∈ s.lineage := by
      rw [hs.label_mem_lineage htreached hlabels]
      exact ((hs.label_mem_lineage hreached hlabels).1 hbelow).tail habove
    rw [if_pos hbelow, if_pos hbelow']
    exact .inl rfl
  rw [if_neg hbelow]
  by_cases hbelow' : t.label ∈ s.lineage
  · exact .inr ⟨rfl, x, t, hx, ht, .inl ⟨rfl, hbelow', hbelow⟩⟩
  · rw [if_neg hbelow']
    exact .inl rfl

/-- **The alias is decided as the type**, unless it is bypassed. -/
theorem decide_alike (ha : c.HoldsAlike key k j f a b) (hs : c.Alike k j s s')
    (hreached : c.ReachedFrom key s) (hoffered : s.fields.get? f = some offered) :
    a.decide s offered = b.decide s' offered ∨
      a.decide s offered = .conflict ∧
        c.Bypassed k j ⟨f, a.holder, s, a.field.expression, offered.expression⟩ := by
  obtain ⟨field, holder⟩ := a
  obtain ⟨field', holder'⟩ := b
  obtain ⟨hfield, hholder, hheld, halike⟩ := ha
  dsimp only at hfield hholder hheld halike
  subst hfield
  rcases halike with rfl | ⟨hx, ht⟩
  · rcases hs with rfl | ⟨hx, ht⟩
    · exact .inl rfl
    · exact decide_offered hk hlabels hx ht hreached hholder hheld hoffered
  · rcases hs with rfl | ⟨hx', -⟩
    · exact decide_held hk hlabels hx ht hholder hreached hheld hoffered
    · -- the alias agrees with itself, and the type does
      rw [hx'.unique hx, hheld] at hoffered
      cases hoffered
      unfold Contribution.decide
      rw [if_pos rfl, if_pos rfl]
      exact .inl rfl

/-! ## Merges -/

/-- The same names are held in one order, each alike. -/
structure HeldAlike (c : Composer) (key k j : Instantiation)
    (held held' : OrderedMap Contribution) : Prop where
  keys : held.keys = held'.keys
  holds : ∀ f, Option.Rel (c.HoldsAlike key k j f) (held.get? f) (held'.get? f)

/-- Two merges end alike: they hold alike, or there is a conflict in both, or one in the first
that bypasses the alias. -/
inductive MergesAlike (c : Composer) (key k j : Instantiation) :
    Except Conflict (OrderedMap Contribution) → Except Conflict (OrderedMap Contribution) → Prop
  | held {held held' : OrderedMap Contribution} (h : c.HeldAlike key k j held held') :
      MergesAlike c key k j (.ok held) (.ok held')
  | conflict (conflict conflict' : Conflict) :
      MergesAlike c key k j (.error conflict) (.error conflict')
  | bypassed {conflict : Conflict} (h : c.Bypassed k j conflict)
      (r : Except Conflict (OrderedMap Contribution)) : MergesAlike c key k j (.error conflict) r

omit hk hlabels in
theorem HeldAlike.insert (h : c.HeldAlike key k j held held') (ha : c.HoldsAlike key k j f a b) :
    c.HeldAlike key k j (held.insert f a) (held'.insert f b) := by
  refine ⟨?_, fun g => ?_⟩
  · rw [OrderedMap.keys_insert, OrderedMap.keys_insert, h.keys]
  · rw [OrderedMap.get?_insert, OrderedMap.get?_insert]
    split
    · next hg =>
      subst hg
      exact .some ha
    · exact h.holds g

theorem mergeField_alike (h : c.HeldAlike key k j held held') (hs : c.Alike k j s s')
    (hreached : c.ReachedFrom key s) (hoffered : s.fields.get? f = some offered) :
    MergesAlike c key k j (mergeField held s f offered) (mergeField held' s' f offered) := by
  have hmine : c.HoldsAlike key k j f { field := offered, holder := s }
      { field := offered, holder := s' } := ⟨rfl, hreached, hoffered, hs⟩
  have hholds := h.holds f
  unfold mergeField
  -- the field is held on both sides or on neither
  cases ha : held.get? f with
  | none =>
    rw [ha] at hholds
    cases hb : held'.get? f with
    | some b =>
      rw [hb] at hholds
      cases hholds
    | none => exact .held (h.insert hmine)
  | some a =>
    rw [ha] at hholds
    cases hb : held'.get? f with
    | none =>
      rw [hb] at hholds
      cases hholds
    | some b =>
      rw [hb] at hholds
      cases hholds with
      | some hholds =>
        dsimp only
        rcases decide_alike hk hlabels hholds hs hreached hoffered with hsame | ⟨hconflict, hpass⟩
        · rw [hsame]
          cases b.decide s' offered with
          | keep => exact .held h
          | replace => exact .held (h.insert hmine)
          | conflict => exact .conflict _ _
        · rw [hconflict]
          exact .bypassed hpass _

theorem mergeFields_alike {entries : List (String × ResolvedField)}
    (h : c.HeldAlike key k j held held') (hs : c.Alike k j s s') (hreached : c.ReachedFrom key s)
    (hentries : ∀ e ∈ entries, e ∈ s.fields.entries) :
    MergesAlike c key k j (mergeFields s entries held) (mergeFields s' entries held') := by
  induction entries generalizing held held' with
  | nil => exact .held h
  | cons e rest ih =>
    obtain ⟨name, offered⟩ := e
    obtain ⟨hfirst, hrest⟩ := List.forall_mem_cons.1 hentries
    have hfield := mergeField_alike hk hlabels h hs hreached (OrderedMap.get?_eq_some.2 hfirst)
    rw [mergeFields_cons, mergeFields_cons]
    generalize mergeField held s name offered = r at hfield ⊢
    generalize mergeField held' s' name offered = r' at hfield ⊢
    cases hfield with
    | held h => exact ih h hrest
    | conflict => exact .conflict _ _
    | bypassed hpass => exact .bypassed hpass _

/-- **The alias is merged as the type.** -/
theorem mergeMember_alike (h : c.HeldAlike key k j held held') (hs : c.Alike k j s s')
    (hreached : c.ReachedFrom key s) :
    MergesAlike c key k j (mergeMember held s) (mergeMember held' s') := by
  unfold mergeMember
  rw [← hs.fields_eq hk]
  exact mergeFields_alike hk hlabels h hs hreached fun e he => he

/-! ## Lists of members -/

omit hk hlabels in
/-- The two members are one, or name the alias and the type. -/
def Replaces (k j : Instantiation) (member member' : TypeExpr) : Prop :=
  member = member' ∨ member.instantiation? = some k ∧ member'.instantiation? = some j

/-- Two results are alike: schemas that are, or one error. -/
inductive ResultsAlike (c : Composer) (k j : Instantiation) :
    Except SchemaError ResolvedSchema → Except SchemaError ResolvedSchema → Prop
  | schema {s s' : ResolvedSchema} (h : c.Alike k j s s') : ResultsAlike c k j (.ok s) (.ok s')
  | error (e : SchemaError) : ResultsAlike c k j (.error e) (.error e)

/-- Two loops over members end alike: they hold alike, or fail with errors of one class. -/
inductive LoopsAlike (c : Composer) (key k j : Instantiation) :
    Except SchemaError Merged → Except SchemaError Merged → Prop
  | held {merged merged' : Merged} (h : c.HeldAlike key k j merged.held merged'.held) :
      LoopsAlike c key k j (.ok merged) (.ok merged')
  | error {e e' : SchemaError} (h : e.className = e'.className) :
      LoopsAlike c key k j (.error e) (.error e')

omit hlabels in
/-- Members that take each other's place are settled alike. -/
theorem settles_alike {member member' : TypeExpr} {i : Instantiation}
    (h : Replaces k j member member') (hi : member.instantiation? = some i) :
    ∃ i', member'.instantiation? = some i' ∧
      (∀ r, c.Settles i r → ∃ r', c.Settles i' r' ∧ ResultsAlike c k j r r') ∧
      ∀ r', c.Settles i' r' → ∃ r, c.Settles i r ∧ ResultsAlike c k j r r' := by
  have hself (r : Except SchemaError ResolvedSchema) : ResultsAlike c k j r r := by
    cases r with
    | ok s => exact .schema (.inl rfl)
    | error e => exact .error e
  rcases h with rfl | ⟨hi', hj⟩
  · exact ⟨i, hi, fun r hr => ⟨r, hr, hself r⟩, fun r hr => ⟨r, hr, hself r⟩⟩
  · obtain rfl : i = k := Option.some.inj (hi.symm.trans hi')
    obtain ⟨herror, hok, hsettled⟩ := settles_of_renames hk
    -- the alias follows the type, so its own result is the one that follows
    have hback (r' : Except SchemaError ResolvedSchema) (hr' : c.Settles j r') :
        ∃ r, c.Settles i r ∧ ResultsAlike c i j r r' := by
      cases r' with
      | error e => exact ⟨_, herror e hr', .error e⟩
      | ok t =>
        obtain ⟨x, hx⟩ := hok t hr'
        exact ⟨_, hx, .schema (.inr ⟨settles_ok_iff.1 hx, settles_ok_iff.1 hr'⟩)⟩
    refine ⟨j, hj, fun r hr => ?_, hback⟩
    obtain ⟨r', hr'⟩ := hsettled r hr
    obtain ⟨r'', hr'', halike⟩ := hback r' hr'
    rw [hr.unique hr'']
    exact ⟨r', hr', halike⟩

/-- Behind members that are settled alike, the first loop ends with a conflict that bypasses the
alias, or both end with errors of one class, or both go on and hold alike. -/
theorem settlesFrom_alike {rest rest' : List TypeExpr} {merged merged' : Merged}
    {owner owner' : String} {r r' : Except SchemaError ResolvedSchema}
    (halike : ResultsAlike c k j r r') (hreached : ∀ s, r = .ok s → c.ReachedFrom key s)
    (h : c.HeldAlike key k j merged.held merged'.held) :
    (∃ conflict, (∀ q, c.SettlesFrom owner rest merged q r ↔ q = .error conflict.toSchemaError) ∧
        c.Bypassed k j conflict) ∨
      (∃ e e', e.className = e'.className ∧
        (∀ q, c.SettlesFrom owner rest merged q r ↔ q = .error e) ∧
        ∀ q, c.SettlesFrom owner' rest' merged' q r' ↔ q = .error e') ∨
      ∃ next next', c.HeldAlike key k j next.held next'.held ∧
        (∀ q, c.SettlesFrom owner rest merged q r ↔ c.SettlesEach owner rest next q) ∧
        ∀ q, c.SettlesFrom owner' rest' merged' q r' ↔ c.SettlesEach owner' rest' next' q := by
  unfold SettlesFrom
  cases halike with
  | error e => exact .inr (.inl ⟨e, e, rfl, fun q => .rfl, fun q => .rfl⟩)
  | @schema s s' hs =>
    have hmerge := mergeMember_alike hk hlabels h hs (hreached s rfl)
    dsimp only
    generalize mergeMember merged.held s = m at hmerge ⊢
    generalize mergeMember merged'.held s' = m' at hmerge ⊢
    cases hmerge with
    | @held held held' hheld =>
      exact .inr (.inr ⟨{ held, lineage := merged.lineage ++ s.lineage.toList },
        { held := held', lineage := merged'.lineage ++ s'.lineage.toList }, hheld,
        fun q => .rfl, fun q => .rfl⟩)
    | conflict conflict conflict' =>
      exact .inr (.inl ⟨conflict.toSchemaError, conflict'.toSchemaError, rfl, fun q => .rfl,
        fun q => .rfl⟩)
    | bypassed hpass => exact .inl ⟨_, fun q => .rfl, hpass⟩

/-- **Loops over members that take each other's place end alike**, unless the first ends with
a conflict that bypasses the alias. -/
theorem settlesEach_alike {members members' : List TypeExpr} {merged merged' : Merged}
    {owner owner' : String} {q : Except SchemaError Merged}
    (hmembers : List.Forall₂ (Replaces k j) members members')
    (hreached : ∀ m ∈ members, ∀ i s, m.instantiation? = some i → c.Derives i s →
      c.ReachedFrom key s)
    (h : c.HeldAlike key k j merged.held merged'.held)
    (hq : c.SettlesEach owner members merged q) :
    (∃ conflict, q = .error conflict.toSchemaError ∧ c.Bypassed k j conflict) ∨
      ∃ q', c.SettlesEach owner' members' merged' q' ∧ LoopsAlike c key k j q q' := by
  induction hmembers generalizing merged merged' with
  | nil =>
    rw [settlesEach_nil.1 hq]
    exact .inr ⟨_, settlesEach_nil.2 rfl, .held h⟩
  | @cons member member' rest rest' hmember _ ih =>
    obtain ⟨hfirst, hrest⟩ := List.forall_mem_cons.1 hreached
    cases hi : member.instantiation? with
    | none =>
      -- what names no type is no alias, so it stands in both lists
      rcases hmember with rfl | ⟨hi', -⟩
      · rw [(settlesEach_none hi).1 hq]
        exact .inr ⟨_, (settlesEach_none hi).2 rfl, .error rfl⟩
      · rw [hi] at hi'
        cases hi'
    | some i =>
      obtain ⟨i', hi', hsettles, -⟩ := settles_alike hk hmember hi
      obtain ⟨r, hr, hfrom⟩ := (settlesEach_some hi).1 hq
      obtain ⟨r', hr', halike⟩ := hsettles r hr
      have hgo (q' : Except SchemaError Merged) (h : c.SettlesFrom owner' rest' merged' q' r') :
          c.SettlesEach owner' (member' :: rest') merged' q' :=
        (settlesEach_some hi').2 ⟨r', hr', h⟩
      rcases settlesFrom_alike hk hlabels halike
        (fun s hs => hfirst i s hi (settles_ok_iff.1 (hs ▸ hr))) h with
        ⟨conflict, hends, hpass⟩ | ⟨e, e', hclass, hends, hends'⟩ |
        ⟨next, next', hnext, hbehind, hbehind'⟩
      · exact .inl ⟨conflict, (hends q).1 hfrom, hpass⟩
      · rw [(hends q).1 hfrom]
        exact .inr ⟨_, hgo _ ((hends' _).2 rfl), .error hclass⟩
      · rcases ih hrest hnext ((hbehind q).1 hfrom) with hpass | ⟨q', hq', hloops⟩
        · exact .inl hpass
        · exact .inr ⟨q', hgo q' ((hbehind' q').2 hq'), hloops⟩

/-- If the loop with the type is settled, so is the one with the alias. -/
theorem settlesEach_of_replaced {members members' : List TypeExpr} {merged merged' : Merged}
    {owner owner' : String} {q' : Except SchemaError Merged}
    (hmembers : List.Forall₂ (Replaces k j) members members')
    (hreached : ∀ m ∈ members, ∀ i s, m.instantiation? = some i → c.Derives i s →
      c.ReachedFrom key s)
    (h : c.HeldAlike key k j merged.held merged'.held)
    (hq' : c.SettlesEach owner' members' merged' q') :
    ∃ q, c.SettlesEach owner members merged q := by
  induction hmembers generalizing merged merged' with
  | nil => exact ⟨_, settlesEach_nil.2 rfl⟩
  | @cons member member' rest rest' hmember _ ih =>
    obtain ⟨hfirst, hrest⟩ := List.forall_mem_cons.1 hreached
    cases hi : member.instantiation? with
    | none => exact ⟨_, (settlesEach_none hi).2 rfl⟩
    | some i =>
      obtain ⟨i', hi', -, hback⟩ := settles_alike hk hmember hi
      obtain ⟨r', hr', hfrom⟩ := (settlesEach_some hi').1 hq'
      obtain ⟨r, hr, halike⟩ := hback r' hr'
      have hgo (q : Except SchemaError Merged) (h : c.SettlesFrom owner rest merged q r) :
          c.SettlesEach owner (member :: rest) merged q :=
        (settlesEach_some hi).2 ⟨r, hr, h⟩
      rcases settlesFrom_alike hk hlabels halike
        (fun s hs => hfirst i s hi (settles_ok_iff.1 (hs ▸ hr))) h with
        ⟨conflict, hends, -⟩ | ⟨e, e', -, hends, -⟩ | ⟨next, next', hnext, hbehind, hbehind'⟩
      · exact ⟨_, hgo _ ((hends _).2 rfl)⟩
      · exact ⟨_, hgo _ ((hends _).2 rfl)⟩
      · obtain ⟨q, hq⟩ := ih hrest hnext ((hbehind' q').1 hfrom)
        exact ⟨q, hgo q ((hbehind q).2 hq)⟩

end Decide

/-! ## Compositions -/

/-- The fields that the two hold are the same table. -/
theorem HeldAlike.fields_eq (h : c.HeldAlike key k j held held') :
    held.mapValues Contribution.field = held'.mapValues Contribution.field := by
  refine OrderedMap.ext_get? ?_ fun f => ?_
  · rw [OrderedMap.keys_mapValues, OrderedMap.keys_mapValues, h.keys]
  · rw [OrderedMap.get?_mapValues, OrderedMap.get?_mapValues]
    have hholds := h.holds f
    generalize held.get? f = a at hholds ⊢
    generalize held'.get? f = b at hholds ⊢
    cases hholds with
    | none => rfl
    | some hholds => exact congrArg some hholds.field

/-- Two compositions have one outcome: they lay their own fields over one table of inherited
fields, or fail with errors of one class. -/
inductive OutcomesAlike (p p' : Plan) :
    Except SchemaError ResolvedSchema → Except SchemaError ResolvedSchema → Prop
  | schemas {s s' : ResolvedSchema} (inherited : OrderedMap ResolvedField)
      (hs : s.fields = layFields p.key.name p.bindings p.parts.fields.entries inherited)
      (hs' : s'.fields = layFields p'.key.name p'.bindings p'.parts.fields.entries inherited) :
      OutcomesAlike p p' (.ok s) (.ok s')
  | errors {e e' : SchemaError} (h : e.className = e'.className) :
      OutcomesAlike p p' (.error e) (.error e')

/-- **An alias of a type name takes its place.** A composition with the alias and one with the
type, from whatever memos, end alike where labels tell apart what is composed, unless the
bound on the nesting stops one of them or the alias is bypassed. -/
theorem renamed_members_make_no_difference {i i' : Instantiation} {p p' : Plan}
    {memo memo' : Memo} (hk : c.Renames k j) (hp : c.plan i = .ok p) (hp' : c.plan i' = .ok p')
    (hmembers : List.Forall₂ (Replaces k j) p.members p'.members)
    (hlabels : c.LabelsApart p.key) (hm : memo.DerivedBy c) (hm' : memo'.DerivedBy c) :
    StoppedByDepth ((c.resolveStruct i).run memo).outcome ∨
      StoppedByDepth ((c.resolveStruct i').run memo').outcome ∨
      (∃ conflict, ((c.resolveStruct i).run memo).outcome = .error conflict.toSchemaError ∧
        c.Bypassed k j conflict) ∨
      OutcomesAlike p p' ((c.resolveStruct i).run memo).outcome
        ((c.resolveStruct i').run memo').outcome := by
  have hreached : ∀ m ∈ p.members, ∀ i s, m.instantiation? = some i → c.Derives i s →
      c.ReachedFrom p.key s := fun m hmem i s hi hs =>
    ⟨⟨i, hs⟩, .single ⟨p, plan_key hp, m, hmem, i, hi, hs.exists_complete⟩⟩
  have hempty : c.HeldAlike p.key k j .empty .empty := ⟨rfl, fun f => .none⟩
  rcases resolveStruct_ends hm i with hstop | hsettles | ⟨hnone, names, hcycle⟩
  · exact .inl hstop
  · -- what settles the one composition settles the other, and the run can only end so
    obtain ⟨q, hq, hr⟩ := (settles_of_plan hp).1 hsettles
    rw [hr]
    rcases @settlesEach_alike c k j p.key hk hlabels p.members p'.members _
      { held := .empty, lineage := [] } _ p'.key.name q hmembers hreached hempty hq with
      ⟨conflict, rfl, hpass⟩ | ⟨q', hq', hends⟩
    · exact .inr (.inr (.inl ⟨conflict, rfl, hpass⟩))
    have hsettled : c.Settles i' (q'.map (assemble p'.key p'.bindings p'.parts.fields)) :=
      (settles_of_plan hp').2 ⟨q', hq', rfl⟩
    rcases resolveStruct_ends hm' i' with hstop' | hsettles' | ⟨hnone', -⟩
    · exact .inr (.inl hstop')
    · rw [hsettles'.unique hsettled]
      refine .inr (.inr (.inr ?_))
      cases hends with
      | held hheld => exact .schemas _ rfl (by rw [hheld.fields_eq]; rfl)
      | error hclass => exact .errors hclass
    · exact absurd hsettled (hnone' _)
  · rcases resolveStruct_ends hm' i' with hstop' | hsettles' | ⟨-, names', hcycle'⟩
    · exact .inr (.inl hstop')
    · -- what the type leaves settled, the alias does
      obtain ⟨q', hq', -⟩ := (settles_of_plan hp').1 hsettles'
      obtain ⟨q, hq⟩ := @settlesEach_of_replaced c k j p.key hk hlabels p.members p'.members
        { held := .empty, lineage := [] } _ p.key.name _ q' hmembers hreached hempty hq'
      exact absurd ((settles_of_plan hp).2 ⟨q, hq, rfl⟩) (hnone _)
    · rw [hcycle, hcycle']
      exact .inr (.inr (.inr (.errors rfl)))

/-- A disc is a round shape by another name. Each shape is put together with something red,
with a descendant of round shapes that changes their field, and with a descendant of discs
that does so. -/
def discsAndRounds : List Session.Call :=
  [.register "Round" (.table [(.text "radius", .atom (.text "number"))]),
   .register "Disc" (.atom (.text "Round")),
   .register "Red" (.table [(.text "red", .atom (.text "number?"))]),
   .register "RedDisc" (.atom (.text "Disc+Red")),
   .register "RedRound" (.atom (.text "Round+Red")),
   .register "Named" (.table [(.text "$super", .atom (.text "Round")),
      (.text "radius", .atom (.text "string"))]),
   .register "NamedDisc" (.atom (.text "Disc+Named")),
   .register "NamedRound" (.atom (.text "Round+Named")),
   .register "Signed" (.table [(.text "$super", .atom (.text "Disc")),
      (.text "radius", .atom (.text "string"))]),
   .register "SignedDisc" (.atom (.text "Disc+Signed")),
   .register "SignedRound" (.atom (.text "Round+Signed"))]

/-- The plan of an alias that is the sum of two plain types. -/
theorem plan_of_sum {name a b : String}
    (hd : c.complete ⟨name, []⟩ = .ok (.ofAlias
      { name, expression := .intersection [.reference a, .reference b], parameters := [] },
      [], ⟨name, []⟩)) : c.plan ⟨name, []⟩ = .ok (sumPlan name [a, b]) :=
  plan_eq_ok.2 ⟨_, hd, rfl⟩

/-- What descends from the disc overrides the disc and the round shape alike. -/
theorem signed_disc_has_fields_of_signed_round :
    let c := ((Session.opened .empty none false).after discsAndRounds).composer
    ∃ s s', ((c.resolveStruct ⟨"SignedDisc", []⟩).run .empty).outcome = .ok s ∧
      ((c.resolveStruct ⟨"SignedRound", []⟩).run .empty).outcome = .ok s' ∧
      s.fields = s'.fields ∧
      (s.fields.get? "radius").map ResolvedField.expression = some (.primitive "string") := by
  intro c
  have hraw : ∀ call ∈ discsAndRounds, call.IsRaw := by decide
  have hwritable : c.registry.Writable := Session.writable_after .empty none false hraw
  have hkey : Instantiation.IsRead ⟨"SignedDisc", []⟩ := ⟨"SignedDisc", by decide +kernel⟩
  have hk : c.Renames ⟨"Disc", []⟩ ⟨"Round", []⟩ := by
    have hd : c.complete ⟨"Disc", []⟩ = .ok (.ofAlias
        { name := "Disc", expression := .reference "Round", parameters := [] }, [], ⟨"Disc", []⟩) :=
      eq_ok_of_toOption (by decide +kernel)
    exact ⟨.reference "Round", .expression hd rfl, rfl⟩
  have hp : c.plan ⟨"SignedDisc", []⟩ = .ok (sumPlan "SignedDisc" ["Disc", "Signed"]) :=
    plan_of_sum (eq_ok_of_toOption (by decide +kernel))
  have hp' : c.plan ⟨"SignedRound", []⟩ = .ok (sumPlan "SignedRound" ["Round", "Signed"]) :=
    plan_of_sum (eq_ok_of_toOption (by decide +kernel))
  have hs : ((c.resolveStruct ⟨"SignedDisc", []⟩).run .empty).outcome.toOption.map
      (fun s => (s.fields.get? "radius").map ResolvedField.expression) =
      some (some (.primitive "string")) := by decide +kernel
  have hs' : ((c.resolveStruct ⟨"SignedRound", []⟩).run .empty).outcome.toOption.map
      (fun s => (s.fields.get? "radius").map ResolvedField.expression) =
      some (some (.primitive "string")) := by decide +kernel
  obtain ⟨s, hs, hradius⟩ := exists_of_toOption_map hs
  obtain ⟨s', hs', -⟩ := exists_of_toOption_map hs'
  refine ⟨s, s', hs, hs', ?_, hradius⟩
  have halike := renamed_members_make_no_difference hk hp hp'
    (.cons (.inr ⟨rfl, rfl⟩) (.cons (.inl rfl) .nil)) (labelsApart_of_isRead hwritable hkey)
    (Memo.empty_derivedBy c) (Memo.empty_derivedBy c)
  rw [hs, hs'] at halike
  rcases halike with ⟨_, _, hstop⟩ | ⟨_, _, hstop⟩ | ⟨_, hconflict, -⟩ | halike
  · cases hstop
  · cases hstop
  · cases hconflict
  · cases halike with
    | schemas inherited hs hs' =>
      rw [hs, hs']
      rfl

/-- A box that gives its field the type it is applied to. Its argument is a name with
parentheses on one side, and an application that renders like it on the other. -/
def boxesOfOneLabel : List Session.Call :=
  [.register "Box" (.table [(.text "$macro", .atom (.text "T")),
      (.text "held", .atom (.text "T"))]),
   .register "Case" (.atom (.text "Box(List(Item))")),
   .register "Both" (.definition (.ofAlias
      { name := "Both", parameters := []
        expression := .intersection [.generic "Box" [.reference "List(Item)"],
          .reference "Case"] }) .none),
   .register "Twice" (.definition (.ofAlias
      { name := "Twice", parameters := []
        expression := .intersection [.generic "Box" [.reference "List(Item)"],
          .generic "Box" [.generic "List" [.reference "Item"]]] }) .none)]

/-- **An alias does not always take the place of its type.** A descendant of the type
conflicts with the alias that it bypasses; where the bound leaves room for two compositions
inside each other, the alias is one too many; and an alias sets a type apart from one that
shares its label. -/
theorem alias_makes_a_difference :
    let c := ((Session.opened .empty none false).after discsAndRounds).composer
    let shallow := ((Session.opened .empty (some 2) false).after discsAndRounds).composer
    let boxes := ((Session.opened .empty none false).after boxesOfOneLabel).composer
    (((c.resolveStruct ⟨"NamedDisc", []⟩).run .empty).outcome =
        .error (.compositionConflict "radius" "Disc" "Named" (some "number vs string")) ∧
      ((c.resolveStruct ⟨"NamedRound", []⟩).run .empty).outcome.isOk = true) ∧
    (((shallow.resolveStruct ⟨"RedDisc", []⟩).run .empty).outcome =
        .error (.resolutionDepth "Round" 2) ∧
      ((shallow.resolveStruct ⟨"RedRound", []⟩).run .empty).outcome.isOk = true) ∧
    ((boxes.resolveStruct ⟨"Both", []⟩).run .empty).outcome.isOk = true ∧
      ((boxes.resolveStruct ⟨"Twice", []⟩).run .empty).outcome =
        .error (.compositionConflict "held" "Box(List(Item))" "Box(List(Item))"
          (some "List(Item) vs List(Item)")) := by
  decide +kernel

end Composer

end WidgetSchema
