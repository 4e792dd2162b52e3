/-
Composing through named groups.

`A+B+C`, `AB+C` and `A+BC`, where `AB` and `BC` name the compositions `A+B` and
`B+C`, need not mean the same. A group stands for its members with their lineages,
but a conflict is decided by the group's own label too: a descendant of `A` does
not descend from `AB`, and so cannot override what `AB` has from `A`. `Regroups`
says of a field that this does not happen, and that no member which agrees with
the first one is lost on the way. Then grouping makes no difference to the field
(`left_group`, `right_group`): a group is decided like the member that holds the
field in it.
-/
import WidgetSchema.Proofs.FieldOrder
import WidgetSchema.Proofs.Kinship
import WidgetSchema.Proofs.MemoDerivation

set_option autoImplicit false

namespace WidgetSchema

/-! ## Sums -/

/-- A schema that others make up alone. -/
structure ResolvedSchema.IsSum (s : ResolvedSchema) (members : List ResolvedSchema) : Prop where
  lineage : ∀ label, label ∈ s.lineage ↔ label = s.label ∨ ∃ m ∈ members, label ∈ m.lineage
  fields : ∀ f, ∃ held, hold f none (offers f members) = .ok held ∧
    s.fields.get? f = held.map Contribution.field
  keys : s.fields.keys = members.foldl (fun names m => appendNew names m.fields.keys) []

/-- What a sum offers for a field that a member holds in it. -/
def Contribution.inGroup (h : Contribution) (group : ResolvedSchema) : Contribution where
  field := h.field
  holder := group

theorem ResolvedSchema.IsSum.offer? {s : ResolvedSchema} {members : List ResolvedSchema}
    (h : s.IsSum members) {f : String} {held : Option Contribution}
    (hheld : hold f none (offers f members) = .ok held) :
    s.offer? f = held.map fun x => x.inGroup s := by
  obtain ⟨held', hheld', hfield⟩ := h.fields f
  rw [hheld] at hheld'
  cases hheld'
  rw [ResolvedSchema.offer?, hfield, Option.map_map]
  rfl

/-- An instantiation composes these schemas and declares no field itself. -/
def Composer.Sums (c : Composer) (i : Instantiation) (members : List ResolvedSchema) : Prop :=
  ∃ p, c.plan i = .ok p ∧ p.parts.fields = .empty ∧ c.DerivesEach p.members members

/-- The schema of such an instantiation is a sum. -/
theorem Composer.Sums.isSum {c : Composer} {i : Instantiation} {members : List ResolvedSchema}
    {s : ResolvedSchema} (h : c.Sums i members) (hs : c.Derives i s) : s.IsSum members := by
  obtain ⟨p, hp, hown, hmembers⟩ := h
  obtain ⟨q, parents, hq, hparents, hcombine⟩ := derives_iff.1 hs
  rw [hp] at hq
  cases hq
  rw [← hmembers.unique hparents] at hcombine
  refine ⟨fun label => Plan.mem_lineage hcombine, fun f => ?_, Plan.combine_keys hcombine hown⟩
  obtain ⟨held, hhold, hget⟩ := Plan.combine_get? hcombine f
  refine ⟨held, hhold, ?_⟩
  rw [hget, hown]
  rfl

/-! ## Three members and two groups -/

/-- Grouping three schemas makes no difference to a field. What a group has from a
member is overridden by the descendants of the group only. A member that agrees
with the first one and overrides the other one is not lost. -/
structure Regroups (f : String) (A B C AB BC : ResolvedSchema) : Prop where
  left : ∀ h x, hold f none (offers f [A, B]) = .ok (some h) → C.offer? f = some x →
    h.YieldsTo x → AB.label ∈ C.lineage
  right : ∀ h x, hold f none (offers f [B, C]) = .ok (some h) → A.offer? f = some x →
    h.YieldsTo x → BC.label ∈ A.lineage
  agreeing : ∀ x, A.offer? f = some x → ∀ y ∈ offers f [B, C], ∀ z ∈ offers f [B, C],
    x.field.expression = y.field.expression → z.YieldsTo y → z.holder.label ∈ A.lineage

/-- Three schemas and the sums of the first two and of the last two. -/
structure Composer.Groups (c : Composer) (A B C AB BC : ResolvedSchema) : Prop where
  family : c.Family [A, B, C, AB, BC]
  left : AB.IsSum [A, B]
  right : BC.IsSum [B, C]

variable {c : Composer} {f : String} {A B C AB BC : ResolvedSchema} {h k x y z : Contribution}

theorem offer?_holder {m : ResolvedSchema} (h : m.offer? f = some x) : x.holder = m := by
  obtain ⟨field, -, rfl⟩ := Option.map_eq_some_iff.1 h
  rfl

theorem mem_offers_of_offer? {m : ResolvedSchema} {ss : List ResolvedSchema} (hm : m ∈ ss)
    (h : m.offer? f = some x) : x ∈ offers f ss :=
  List.mem_filterMap.2 ⟨m, hm, h⟩

theorem offers_subset {ms ss : List ResolvedSchema} (hsub : ∀ m ∈ ms, m ∈ ss)
    (hx : x ∈ offers f ms) : x ∈ offers f ss := by
  obtain ⟨hholder, hfield⟩ := mem_offers.1 hx
  exact mem_offers.2 ⟨hsub _ hholder, hfield⟩

/-- An offer is below the offer of a schema whose lineage has its label. -/
theorem below_of_label {m : ResolvedSchema} (hy : m.offer? f = some y)
    (h : x.holder.label ∈ m.lineage) : x.Below y := by
  unfold Contribution.Below
  rw [offer?_holder hy]
  exact h

theorem offers_pair (f : String) (s t : ResolvedSchema) :
    offers f [s, t] = (s.offer? f).toList ++ (t.offer? f).toList := by
  rw [offers_cons, offers_cons, offers_nil, List.append_nil]

namespace Composer.Groups

/-- Who holds a field in a group has its label in the group's lineage. -/
theorem label_mem_group {ss members : List ResolvedSchema} {group : ResolvedSchema}
    (hfam : c.Family ss) (hgroup : group.IsSum members) (hx : x ∈ offers f ss)
    (hm : x.holder ∈ members) : x.holder.label ∈ group.lineage := by
  obtain ⟨i, hi⟩ := (hfam _ (mem_offers.1 hx).1).1
  exact (hgroup.lineage _).2 (.inr ⟨x.holder, hm, hi.label_mem_lineage⟩)

theorem left_subset : ∀ m ∈ [A, B], m ∈ [A, B, C, AB, BC] := by
  simp +contextual

theorem right_subset : ∀ m ∈ [B, C], m ∈ [A, B, C, AB, BC] := by
  simp +contextual

/-- The first two merge, so they do not clash. -/
theorem not_clashes (hg : c.Groups A B C AB BC) (hx : A.offer? f = some x)
    (hy : B.offer? f = some y) : x.Covers y ∨ x.YieldsTo y := by
  obtain ⟨held, hheld, -⟩ := hg.left.fields f
  rw [offers_pair, hx, hy] at hheld
  rw [← Contribution.not_clashes_iff]
  intro hclash
  have hpair : hold f (some x) [y] = .ok held := hheld
  rw [hold, hclash] at hpair
  cases hpair

/-- Where the first member overrides who holds the field in the second group, the
members of the group are its ancestors. -/
theorem below_of_yieldsTo (hg : c.Groups A B C AB BC) (hreg : Regroups f A B C AB BC)
    (hk : hold f none (offers f [B, C]) = .ok (some k)) (hx : A.offer? f = some x)
    (hyields : k.YieldsTo x) (hy : y ∈ offers f [B, C]) : y.Below x := by
  have hlabel := hreg.right k x hk hx hyields
  have hymem : y ∈ offers f [A, B, C, AB, BC] := offers_subset right_subset hy
  have hext := hg.family.extends_of_mem (by simp) (by simp) hlabel
  exact below_of_label hx
    (hext.lineage _ (label_mem_group hg.family hg.right hymem (mem_offers.1 hy).1))

/-! ### The group on the left -/

/-- What comes from an ancestor of a member comes from one of the member that
holds the field, unless it agrees with that one. -/
theorem below_holder (hg : c.Groups A B C AB BC) (hreg : Regroups f A B C AB BC)
    (hh : hold f none (offers f [A, B]) = .ok (some h)) (hx : C.offer? f = some x)
    (hne : h.field.expression ≠ x.field.expression) {m : ResolvedSchema} (hm : m ∈ [A, B])
    (hbelow : x.holder.label ∈ m.lineage) : x.Below h := by
  have hxmem : x ∈ offers f [A, B, C, AB, BC] := mem_offers_of_offer? (by simp) hx
  have hmss : m ∈ [A, B, C, AB, BC] := left_subset m hm
  obtain ⟨y, hy⟩ := hg.family.exists_offer hxmem hmss hbelow
  have hymem : y ∈ offers f [A, B, C, AB, BC] := mem_offers_of_offer? hmss hy
  have hxy : x.Below y := below_of_label hy hbelow
  have hhmem : h ∈ offers f [A, B, C, AB, BC] := offers_subset left_subset (hold_mem hh)
  rw [offers_pair] at hh
  rcases hold_pair_cases hh with ⟨hA, hcovers⟩ | ⟨hB, hyields⟩
  · rcases List.mem_cons.1 hm with rfl | hm
    · rw [hA] at hy
      cases hy
      exact hxy
    · rw [List.mem_singleton.1 hm] at hy
      rcases (hg.family.covers_iff hhmem hymem).1 (hcovers y hy) with hagree | hyh
      · -- the second agrees with the first and overrides the third
        have hxyields : x.YieldsTo y := by
          refine (hg.family.yieldsTo_iff hxmem hymem).2 ⟨?_, hxy⟩
          rw [← hagree]
          exact Ne.symm hne
        have hlabel := hreg.agreeing h hA y (mem_offers_of_offer? (by simp) hy) x
          (mem_offers_of_offer? (by simp) hx) hagree hxyields
        exact below_of_label hA hlabel
      · exact hg.family.below_trans hymem hhmem hxy hyh
  · rcases List.mem_cons.1 hm with rfl | hm
    · have hyh := ((hg.family.yieldsTo_iff hymem hhmem).1 (hyields y hy)).2
      exact hg.family.below_trans hymem hhmem hxy hyh
    · rw [List.mem_singleton.1 hm, hB] at hy
      cases hy
      exact hxy

/-- **On the left, a group is decided like its holder.** -/
theorem left_decides (hg : c.Groups A B C AB BC) (hreg : Regroups f A B C AB BC)
    (hh : hold f none (offers f [A, B]) = .ok (some h)) (hx : C.offer? f = some x) :
    ((h.inGroup AB).Covers x ↔ h.Covers x) ∧ ((h.inGroup AB).YieldsTo x ↔ h.YieldsTo x) := by
  have hxmem : x ∈ offers f [A, B, C, AB, BC] := mem_offers_of_offer? (by simp) hx
  have hhpair : h ∈ offers f [A, B] := hold_mem hh
  have hhmem : h ∈ offers f [A, B, C, AB, BC] := offers_subset left_subset hhpair
  have hgmem : h.inGroup AB ∈ offers f [A, B, C, AB, BC] := by
    have hoffer : AB.offer? f = some (h.inGroup AB) := by
      rw [hg.left.offer? hh]
      rfl
    exact mem_offers_of_offer? (by simp) hoffer
  have hhAB : h.Below (h.inGroup AB) :=
    label_mem_group hg.family hg.left hhmem (mem_offers.1 hhpair).1
  -- among relatives, covering and yielding are being below
  rw [hg.family.covers_iff hgmem hxmem, hg.family.covers_iff hhmem hxmem,
    hg.family.yieldsTo_iff hgmem hxmem, hg.family.yieldsTo_iff hhmem hxmem]
  constructor
  · constructor
    · rintro (hagree | hbelow)
      · exact .inl hagree
      · by_cases hagree : h.field.expression = x.field.expression
        · exact .inl hagree
        · refine .inr ?_
          rcases (hg.left.lineage _).1 hbelow with hlabel | ⟨m, hm, hlabel⟩
          · -- the third member is the group itself
            have hholder := hg.family.eq_of_label (mem_offers.1 hxmem).1 (by simp) hlabel
            have hsame : x = h.inGroup AB := Family.eq_of_holder hxmem hgmem hholder
            rw [hsame] at hagree
            exact absurd rfl hagree
          · exact hg.below_holder hreg hh hx hagree hm hlabel
    · rintro (hagree | hbelow)
      · exact .inl hagree
      · exact .inr (hg.family.below_trans hhmem hgmem hbelow hhAB)
  · constructor
    · rintro ⟨hne, hbelow⟩
      exact ⟨hne, hg.family.below_trans hgmem hxmem hhAB hbelow⟩
    · rintro ⟨hne, hbelow⟩
      have hyields := (hg.family.yieldsTo_iff hhmem hxmem).2 ⟨hne, hbelow⟩
      have hlabel := hreg.left h x hh hx hyields
      refine ⟨hne, ?_⟩
      exact below_of_label hx hlabel

/-! ### The group on the right -/

/-- What descends from the first member through a member of the group descends
from it through the one that holds the field, unless the two agree. -/
theorem holder_below (hg : c.Groups A B C AB BC) (hreg : Regroups f A B C AB BC)
    (hk : hold f none (offers f [B, C]) = .ok (some k)) (hx : A.offer? f = some x)
    (hne : x.field.expression ≠ k.field.expression) {m : ResolvedSchema} (hm : m ∈ [B, C])
    (hbelow : x.holder.label ∈ m.lineage) : x.Below k := by
  have hxmem : x ∈ offers f [A, B, C, AB, BC] := mem_offers_of_offer? (by simp) hx
  have hmss : m ∈ [A, B, C, AB, BC] := right_subset m hm
  obtain ⟨z, hz⟩ := hg.family.exists_offer hxmem hmss hbelow
  have hzmem : z ∈ offers f [A, B, C, AB, BC] := mem_offers_of_offer? hmss hz
  have hxz : x.Below z := below_of_label hz hbelow
  have hkmem : k ∈ offers f [A, B, C, AB, BC] := offers_subset right_subset (hold_mem hk)
  have hpair := hk
  rw [offers_pair] at hpair
  -- of the pair, either the first one holds and covers the second, or the second one replaced it
  rcases hold_pair_cases hpair with ⟨hB, hcovers⟩ | ⟨hC, hyields⟩
  · rcases List.mem_cons.1 hm with rfl | hm
    · rw [hB] at hz
      cases hz
      exact hxz
    · rw [List.mem_singleton.1 hm] at hz
      rcases (hg.family.covers_iff hkmem hzmem).1 (hcovers z hz) with hagree | hzk
      · -- the first two merge, so one of them descends from the other
        rcases hg.not_clashes hx hB with hkeep | hreplace
        · have hkx : k.Below x :=
            ((hg.family.covers_iff hxmem hkmem).1 hkeep).resolve_left hne
          have hkyields := (hg.family.yieldsTo_iff hkmem hxmem).2 ⟨Ne.symm hne, hkx⟩
          have hzx := hg.below_of_yieldsTo hreg hk hx hkyields
            (mem_offers_of_offer? (by simp) hz)
          have hsame : x = z := hg.family.below_antisymm hxmem hzmem hxz hzx
          rw [hsame, hagree] at hne
          exact absurd rfl hne
        · exact ((hg.family.yieldsTo_iff hxmem hkmem).1 hreplace).2
      · exact hg.family.below_trans hzmem hkmem hxz hzk
  · rcases List.mem_cons.1 hm with rfl | hm
    · have hzk := ((hg.family.yieldsTo_iff hzmem hkmem).1 (hyields z hz)).2
      exact hg.family.below_trans hzmem hkmem hxz hzk
    · rw [List.mem_singleton.1 hm, hC] at hz
      cases hz
      exact hxz

/-- **On the right, a group is decided like its holder.** -/
theorem right_decides (hg : c.Groups A B C AB BC) (hreg : Regroups f A B C AB BC)
    (hk : hold f none (offers f [B, C]) = .ok (some k)) (hx : A.offer? f = some x) :
    (x.Covers k ↔ x.Covers (k.inGroup BC)) ∧ (x.YieldsTo k ↔ x.YieldsTo (k.inGroup BC)) := by
  have hxmem : x ∈ offers f [A, B, C, AB, BC] := mem_offers_of_offer? (by simp) hx
  have hkpair : k ∈ offers f [B, C] := hold_mem hk
  have hkmem : k ∈ offers f [A, B, C, AB, BC] := offers_subset right_subset hkpair
  have hgmem : k.inGroup BC ∈ offers f [A, B, C, AB, BC] := by
    have hoffer : BC.offer? f = some (k.inGroup BC) := by
      rw [hg.right.offer? hk]
      rfl
    exact mem_offers_of_offer? (by simp) hoffer
  have hkBC : k.Below (k.inGroup BC) :=
    label_mem_group hg.family hg.right hkmem (mem_offers.1 hkpair).1
  -- among relatives, covering and yielding are being below
  rw [hg.family.covers_iff hxmem hgmem, hg.family.covers_iff hxmem hkmem,
    hg.family.yieldsTo_iff hxmem hgmem, hg.family.yieldsTo_iff hxmem hkmem]
  constructor
  · constructor
    · rintro (hagree | hbelow)
      · exact .inl hagree
      · by_cases hagree : x.field.expression = k.field.expression
        · exact .inl hagree
        · have hyields := (hg.family.yieldsTo_iff hkmem hxmem).2 ⟨Ne.symm hagree, hbelow⟩
          have hlabel := hreg.right k x hk hx hyields
          refine .inr ?_
          exact below_of_label hx hlabel
    · rintro (hagree | hbelow)
      · exact .inl hagree
      · exact .inr (hg.family.below_trans hgmem hxmem hkBC hbelow)
  · constructor
    · rintro ⟨hne, hbelow⟩
      exact ⟨hne, hg.family.below_trans hkmem hgmem hbelow hkBC⟩
    · rintro ⟨hne, hbelow⟩
      refine ⟨hne, ?_⟩
      rcases (hg.right.lineage _).1 hbelow with hlabel | ⟨m, hm, hlabel⟩
      · -- the first member is the group itself
        have hholder := hg.family.eq_of_label (mem_offers.1 hxmem).1 (by simp) hlabel
        have hsame : x = k.inGroup BC := Family.eq_of_holder hxmem hgmem hholder
        rw [hsame] at hne
        exact absurd rfl hne
      · exact hg.holder_below hreg hk hx hne hm hlabel

/-- The first member keeps back the third one, if it keeps back the second and that
one keeps back the third. -/
theorem covers_third (hg : c.Groups A B C AB BC) (hreg : Regroups f A B C AB BC)
    (hk : hold f none (offers f [B, C]) = .ok (some k)) (hx : A.offer? f = some x)
    (hB : B.offer? f = some k) (hz : C.offer? f = some z) (hxk : x.Covers k)
    (hkz : k.Covers z) : x.Covers z := by
  have hxmem : x ∈ offers f [A, B, C, AB, BC] := mem_offers_of_offer? (by simp) hx
  have hkmem : k ∈ offers f [A, B, C, AB, BC] := mem_offers_of_offer? (by simp) hB
  have hzmem : z ∈ offers f [A, B, C, AB, BC] := mem_offers_of_offer? (by simp) hz
  have hkpair : k ∈ offers f [B, C] := mem_offers_of_offer? (by simp) hB
  have hzpair : z ∈ offers f [B, C] := mem_offers_of_offer? (by simp) hz
  rw [hg.family.covers_iff hxmem hkmem] at hxk
  rw [hg.family.covers_iff hkmem hzmem] at hkz
  rw [hg.family.covers_iff hxmem hzmem]
  by_cases hxka : x.field.expression = k.field.expression
  · by_cases hkza : k.field.expression = z.field.expression
    · exact .inl (hxka.trans hkza)
    · -- the second agrees with the first and overrides the third
      have hyields := (hg.family.yieldsTo_iff hzmem hkmem).2
        ⟨Ne.symm hkza, hkz.resolve_left hkza⟩
      have hlabel := hreg.agreeing x hx k hkpair z hzpair hxka hyields
      refine .inr ?_
      exact below_of_label hx hlabel
  · have hyields := (hg.family.yieldsTo_iff hkmem hxmem).2
      ⟨Ne.symm hxka, hxk.resolve_left hxka⟩
    exact .inr (hg.below_of_yieldsTo hreg hk hx hyields hzpair)

/-- The first member gives way to the third one, if it gives way to the second and
that one gives way to the third. -/
theorem yieldsTo_third (hg : c.Groups A B C AB BC) (hreg : Regroups f A B C AB BC)
    (hx : A.offer? f = some x) (hz : B.offer? f = some z) (hC : C.offer? f = some k)
    (hxz : x.YieldsTo z) (hzk : z.YieldsTo k) : x.YieldsTo k := by
  have hxmem : x ∈ offers f [A, B, C, AB, BC] := mem_offers_of_offer? (by simp) hx
  have hkmem : k ∈ offers f [A, B, C, AB, BC] := mem_offers_of_offer? (by simp) hC
  have hzmem : z ∈ offers f [A, B, C, AB, BC] := mem_offers_of_offer? (by simp) hz
  obtain ⟨hne, hbelow⟩ := (hg.family.yieldsTo_iff hxmem hzmem).1 hxz
  have hzkb := ((hg.family.yieldsTo_iff hzmem hkmem).1 hzk).2
  refine (hg.family.yieldsTo_iff hxmem hkmem).2 ⟨fun hagree => ?_, ?_⟩
  · -- the third would agree with the first and override the second
    have hlabel := hreg.agreeing x hx k (mem_offers_of_offer? (by simp) hC) z
      (mem_offers_of_offer? (by simp) hz) hagree hzk
    have hzx : z.Below x := below_of_label hx hlabel
    rw [hg.family.below_antisymm hxmem hzmem hbelow hzx] at hne
    exact hne rfl
  · exact hg.family.below_trans hzmem hkmem hbelow hzkb

/-- **Merging two members one by one is merging their holder**, where the first
member holds the field. -/
theorem hold_members (hg : c.Groups A B C AB BC) (hreg : Regroups f A B C AB BC)
    (hk : hold f none (offers f [B, C]) = .ok (some k)) (hx : A.offer? f = some x) :
    hold f (some x) (offers f [B, C]) = hold f (some x) [k] := by
  have hpair := hk
  rw [offers_pair] at hpair ⊢
  rcases hold_pair_cases hpair with ⟨hB, hcovers⟩ | ⟨hC, hyields⟩
  · cases hz : C.offer? f with
    | none => rw [hB, Option.toList_some, Option.toList_none, List.append_nil]
    | some z =>
      have hkz := hcovers z hz
      rw [hB, Option.toList_some, Option.toList_some, List.singleton_append]
      rcases hg.not_clashes hx hB with hkeep | hreplace
      · have hxz := hg.covers_third hreg hk hx hB hz hkeep hkz
        rw [hold_cons_of_covers hkeep, hold_cons_of_covers hkeep, hold_cons_of_covers hxz]
      · rw [hold_cons_of_yieldsTo hreplace, hold_cons_of_yieldsTo hreplace,
          hold_cons_of_covers hkz]
  · cases hz : B.offer? f with
    | none => rw [hC, Option.toList_some, Option.toList_none, List.nil_append]
    | some z =>
      have hzk := hyields z hz
      rw [hC, Option.toList_some, Option.toList_some, List.singleton_append]
      rcases hg.not_clashes hx hz with hkeep | hreplace
      · rw [hold_cons_of_covers hkeep]
      · have hxk := hg.yieldsTo_third hreg hx hz hC hreplace hzk
        rw [hold_cons_of_yieldsTo hreplace, hold_cons_of_yieldsTo hxk, hold_cons_of_yieldsTo hzk]

/-! ### One field, three groupings -/

/-- **A group on the left makes no difference to a field.** -/
theorem left_group (hg : c.Groups A B C AB BC) (hreg : Regroups f A B C AB BC) :
    mergedField? (hold f none (offers f [AB, C])) =
      mergedField? (hold f none (offers f [A, B, C])) := by
  obtain ⟨held, hheld, -⟩ := hg.left.fields f
  have hflat : offers f [A, B, C] = offers f [A, B] ++ (C.offer? f).toList := by
    rw [← List.singleton_append, ← List.singleton_append (l := [C]), ← List.append_assoc,
      offers_append, offers_cons f C, offers_nil, List.append_nil]
    rfl
  rw [hflat, hold_append, hheld, offers_pair, hg.left.offer? hheld]
  cases held with
  | none => rfl
  | some h =>
    cases hx : C.offer? f with
    | none => rfl
    | some x =>
      obtain ⟨hcovers, hyields⟩ := hg.left_decides hreg hheld hx
      exact mergedField?_congr rfl rfl hcovers hyields

/-- **A group on the right makes no difference to a field.** -/
theorem right_group (hg : c.Groups A B C AB BC) (hreg : Regroups f A B C AB BC) :
    mergedField? (hold f none (offers f [A, BC])) =
      mergedField? (hold f none (offers f [A, B, C])) := by
  obtain ⟨held, hheld, -⟩ := hg.right.fields f
  rw [offers_pair, offers_cons f A, hg.right.offer? hheld]
  cases hx : A.offer? f with
  | none =>
    rw [Option.toList_none, List.nil_append, List.nil_append, hheld]
    cases held <;> rfl
  | some x =>
    cases held with
    | none =>
      -- nobody in the group has the field
      have hnil : offers f [B, C] = [] := by
        by_contra hne
        have hsome := (hold_isSome hheld).2 (.inr hne)
        cases hsome
      rw [hnil]
      rfl
    | some k =>
      obtain ⟨hcovers, hyields⟩ := hg.right_decides hreg hheld hx
      have hmembers : hold f none ((some x).toList ++ offers f [B, C]) = hold f (some x) [k] :=
        hg.hold_members hreg hheld hx
      rw [hmembers]
      symm
      exact mergedField?_congr rfl rfl hcovers hyields

end Composer.Groups

end WidgetSchema
