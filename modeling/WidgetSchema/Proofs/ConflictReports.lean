/-
What a conflict reports.

A conflict is found between a member and the field that is held, and it names the member
that the held field came from. That one was merged earlier, and other members may have
agreed with it or been kept back by it since; but it is a member, it has the field, and it
has it with the type that is held (`exists_clash_of_mergeMember`). Labels decide then that
neither descends from the other, and what can be read has one label only, so the labels in
the report name two members that are really there (`RaisedAt.membersClash`).

Read the other way round: where every two members agree on the fields that they share or
one descends from the other, nothing can be reported (`not_conflict_of_compatible`).
-/
import WidgetSchema.Proofs.Ancestry
import WidgetSchema.Proofs.FieldClashes
import WidgetSchema.Proofs.RaisedErrors

set_option autoImplicit false

namespace WidgetSchema

/-! ## The member that holds the field -/

/-- A history fails at an offer that clashes with the holder. -/
theorem clashes_of_hold {f : String} {held : Option Contribution} {x : Contribution}
    {conflict : Conflict} (h : hold f held [x] = .error conflict) :
    ∃ y, held = some y ∧ y.Clashes x ∧ conflict = Conflict.mk f y.holder x.holder
      y.field.expression x.field.expression := by
  cases held with
  | none => cases h
  | some y =>
    rw [hold] at h
    split at h
    · cases h
    · cases h
    · next hdecide =>
      cases h
      exact ⟨y, rfl, hdecide, rfl⟩

/-- **A member that cannot be merged clashes with one before it**, which offers the field with
the type that is held. -/
theorem exists_clash_of_mergeMember {members : List ResolvedSchema} {s : ResolvedSchema}
    {held : OrderedMap Contribution} {conflict : Conflict}
    (hheld : mergeMembers members .empty = .ok held)
    (h : mergeMember held s = .error conflict) :
    ∃ x y : Contribution, x ∈ offers conflict.field members ∧ y ∈ offers conflict.field [s] ∧
      x.Clashes y ∧ conflict = Conflict.mk conflict.field x.holder y.holder
        x.field.expression y.field.expression := by
  have hstep := mergeMember_conflict h
  cases hoffer : s.offer? conflict.field with
  | none =>
    rw [hoffer] at hstep
    cases hstep
  | some y =>
    rw [hoffer] at hstep
    obtain ⟨x, hx, hclash, hconflict⟩ := clashes_of_hold hstep
    have hhistory : hold conflict.field none (offers conflict.field members) =
        .ok (held.get? conflict.field) := mergeMembers_get? hheld conflict.field
    rw [hx] at hhistory
    have hy : y ∈ offers conflict.field [s] := by
      rw [offers_cons, hoffer]
      exact List.mem_cons_self
    exact ⟨x, y, hold_mem hhistory, hy, hclash, hconflict⟩

/-- A merge fails at one of the members, behind others that are merged. -/
theorem exists_mergeMember_of_error {members : List ResolvedSchema}
    {held : OrderedMap Contribution} {conflict : Conflict}
    (h : mergeMembers members held = .error conflict) :
    ∃ before s rest merged, members = before ++ s :: rest ∧
      mergeMembers before held = .ok merged ∧ mergeMember merged s = .error conflict := by
  induction members generalizing held with
  | nil => cases h
  | cons m members ih =>
    rw [mergeMembers_cons] at h
    cases hm : mergeMember held m with
    | error conflict' =>
      rw [hm] at h
      cases h
      exact ⟨[], m, members, held, rfl, rfl, hm⟩
    | ok held' =>
      rw [hm] at h
      obtain ⟨before, s, rest, merged, rfl, hbefore, hs⟩ := ih h
      refine ⟨m :: before, s, rest, merged, rfl, ?_, hs⟩
      rw [mergeMembers_cons, hm]
      exact hbefore

/-- What stands in the second of two lists stands there for something in the first one. -/
theorem exists_split_of_forall₂ {α β : Type} {R : α → β → Prop} {xs : List α} {ys : List β}
    {y : β} (h : List.Forall₂ R xs ys) (hy : y ∈ ys) :
    ∃ front x behind, xs = front ++ x :: behind ∧ R x y := by
  induction h with
  | nil => cases hy
  | @cons x z xs ys hxz _ ih =>
    rcases List.mem_cons.1 hy with rfl | hy
    · exact ⟨[], x, xs, rfl, hxz⟩
    · obtain ⟨front, x', behind, rfl, hx'⟩ := ih hy
      exact ⟨x :: front, x', behind, rfl, hx'⟩

/-! ## Members that can be composed -/

/-- The two give every field that both have the same type. -/
def ResolvedSchema.Agrees (s t : ResolvedSchema) : Prop :=
  ∀ f x y, s.fields.get? f = some x → t.fields.get? f = some y → x.expression = y.expression

/-- One of the two is in the lineage of the other. -/
def ResolvedSchema.Related (s t : ResolvedSchema) : Prop :=
  s.label ∈ t.lineage ∨ t.label ∈ s.lineage

theorem ResolvedSchema.agrees_self (s : ResolvedSchema) : s.Agrees s := by
  intro f x y hx hy
  rw [hx] at hy
  rw [Option.some.inj hy]

/-- A clash is one of labels, if schemas of one label are one schema: that agrees with itself. -/
theorem label_ne_of_clashes {f : String} {x y : Contribution}
    (hx : x.holder.fields.get? f = some x.field) (hy : y.holder.fields.get? f = some y.field)
    (hlabel : x.holder.label = y.holder.label → x.holder = y.holder) (hclash : x.Clashes y) :
    x.holder.label ≠ y.holder.label := by
  intro hsame
  rw [← hlabel hsame] at hy
  exact (Contribution.clashes_iff.1 hclash).1 (x.holder.agrees_self f _ _ hx hy)

/-- What agrees or is related does not clash, unless two schemas have one label. -/
theorem not_clashes_of_compatible {f : String} {x y : Contribution}
    (hx : x.holder.fields.get? f = some x.field) (hy : y.holder.fields.get? f = some y.field)
    (hlabel : x.holder.label = y.holder.label → x.holder = y.holder)
    (h : x.holder.Agrees y.holder ∨ x.holder.Related y.holder) : ¬ x.Clashes y := by
  intro hclash
  obtain ⟨hne, hlabels⟩ := Contribution.clashes_iff.1 hclash
  obtain ⟨hbelow, habove⟩ := hlabels (label_ne_of_clashes hx hy hlabel hclash)
  rcases h with hagree | hrelated
  · exact hne (hagree f _ _ hx hy)
  · exact hrelated.elim habove hbelow

/-- **Members of which every two agree or are related are merged.** -/
theorem mergeMembers_of_compatible {members : List ResolvedSchema}
    (hlabel : ∀ s ∈ members, ∀ t ∈ members, s.label = t.label → s = t)
    (h : members.Pairwise fun s t => s.Agrees t ∨ s.Related t) :
    ∃ held, mergeMembers members .empty = .ok held := by
  cases hmerge : mergeMembers members .empty with
  | ok held => exact ⟨held, rfl⟩
  | error conflict =>
    exfalso
    obtain ⟨before, s, rest, merged, rfl, hbefore, hs⟩ := exists_mergeMember_of_error hmerge
    obtain ⟨x, y, hx, hy, hclash, -⟩ := exists_clash_of_mergeMember hbefore hs
    obtain ⟨hxmem, hxfield⟩ := mem_offers.1 hx
    obtain ⟨hymem, hyfield⟩ := mem_offers.1 hy
    have hbehind : y.holder ∈ s :: rest := by
      rw [List.mem_singleton.1 hymem]
      exact List.mem_cons_self
    -- the holder stands before the member, so the two are one of the pairs
    have hpair := (List.pairwise_append.1 h).2.2 x.holder hxmem y.holder hbehind
    have hone := hlabel x.holder (List.mem_append_left _ hxmem) y.holder
      (List.mem_append_right _ hbehind)
    exact not_clashes_of_compatible hxfield hyfield hone hpair hclash

namespace Composer

variable {c : Composer} {memo : Memo} {chain : List Instantiation} {i j : Instantiation}
  {f first second : String} {detail : Option String} {a b : ResolvedSchema}
  {has has' : TypeExpr → ResolvedSchema → Prop} {conflict : Conflict}

/-- A conflict is between two members of what an instantiation composes, one behind the other:
both have the field, with the two types, which differ, and neither of the two labels, which
differ as well, is in the lineage of the other member. -/
structure MembersClash (c : Composer) (has : TypeExpr → ResolvedSchema → Prop)
    (j : Instantiation) (conflict : Conflict) : Prop where
  members : ∃ p before t between u rest, c.plan j = .ok p ∧
    p.members = before ++ t :: (between ++ u :: rest) ∧
    has t conflict.first ∧ has u conflict.second
  held : ∃ x, conflict.first.fields.get? conflict.field = some x ∧ x.expression = conflict.held
  offered :
    ∃ y, conflict.second.fields.get? conflict.field = some y ∧ y.expression = conflict.offered
  types : conflict.held ≠ conflict.offered
  labels : conflict.first.label ≠ conflict.second.label
  above : conflict.first.label ∉ conflict.second.lineage
  below : conflict.second.label ∉ conflict.first.lineage

theorem MembersClash.imp (h : c.MembersClash has j conflict) (himp : ∀ t s, has t s → has' t s) :
    c.MembersClash has' j conflict := by
  obtain ⟨p, before, t, between, u, rest, hp, hsplit, ht, hu⟩ := h.members
  exact { h with members := ⟨p, before, t, between, u, rest, hp, hsplit, himp _ _ ht, himp _ _ hu⟩ }

/-- What is remembered of a member is for a direct supertype. -/
theorem Remembers.hasSupertype {p : Plan} {t : TypeExpr} (hm : memo.DerivedBy c)
    (hp : c.plan i = .ok p) (ht : t ∈ p.members) (h : c.Remembers memo t a) :
    c.HasSupertype p.key a.instantiation := by
  obtain ⟨k, hk, hderives⟩ := h.derives hm
  obtain ⟨d, bindings, hd⟩ := hderives.exists_complete
  exact ⟨p, plan_key hp, t, ht, k, hk, d, bindings, hd⟩

/-- **A member that cannot be merged clashes with a member before it**, if both can be read. -/
theorem PassesTo.membersClash {p : Plan} {before rest : List TypeExpr} {t : TypeExpr}
    {parents : List ResolvedSchema} {held : OrderedMap Contribution} {s : ResolvedSchema}
    (hr : c.registry.Writable) (hm : memo.DerivedBy c) (hp : c.plan i = .ok p)
    (hkey : p.key.IsRead) (hpass : c.PassesTo memo p parents held before t rest)
    (hs : c.Remembers memo t s) (hconflict : mergeMember held s = .error conflict) :
    c.MembersClash (c.Remembers memo) p.key conflict := by
  obtain ⟨x, y, hx, hy, hclash, hnames⟩ := exists_clash_of_mergeMember hpass.merged hconflict
  obtain ⟨hxmem, hxfield⟩ := mem_offers.1 hx
  obtain ⟨hymem, hyfield⟩ := mem_offers.1 hy
  obtain rfl : y.holder = s := List.mem_singleton.1 hymem
  -- the holder is the schema of a member that was passed
  obtain ⟨front, u, between, hbefore, hu⟩ := exists_split_of_forall₂ hpass.known hxmem
  have hmembers : p.members = front ++ u :: (between ++ t :: rest) := by
    rw [hpass.members, hbefore, List.append_assoc, List.cons_append]
  have humem : u ∈ p.members := by
    rw [hmembers]
    exact List.mem_append_right _ List.mem_cons_self
  -- both can be read, so they are one schema if they have one label
  have hread {v : TypeExpr} {r : ResolvedSchema} (hv : v ∈ p.members)
      (hknown : c.Remembers memo v r) : r.instantiation.IsRead :=
    HasSupertype.isRead hr hkey (hknown.hasSupertype hm hp hv)
  obtain ⟨k, -, hxderives⟩ := hu.derives hm
  obtain ⟨l, -, hyderives⟩ := hs.derives hm
  have hlabels : x.holder.label ≠ y.holder.label :=
    label_ne_of_clashes hxfield hyfield (fun hlabel => hxderives.eq_of_instantiation_eq hyderives
      ((hread humem hu).eq_of_label (hread hpass.mem hs) hlabel)) hclash
  obtain ⟨hne, hunrelated⟩ := Contribution.clashes_iff.1 hclash
  obtain ⟨hbelow, habove⟩ := hunrelated hlabels
  generalize conflict.field = f at hxfield hyfield hnames
  subst hnames
  exact
    { members := ⟨p, front, u, between, t, rest, plan_key hp, hmembers, hu, hs⟩
      held := ⟨x.field, hxfield, rfl⟩
      offered := ⟨y.field, hyfield, rfl⟩
      types := hne
      labels := hlabels
      above := habove
      below := hbelow }

/-- **A conflict is raised between two members of one composition**, somewhere above what the
instantiation is completed to. The induction is on the way to the place of the error. -/
theorem RaisedAt.membersClash {e : SchemaError} (hr : c.registry.Writable)
    (hm : memo.DerivedBy c) (h : c.RaisedAt memo chain i e)
    (he : e = .compositionConflict f first second detail)
    (hargs : ∀ arg ∈ i.args, arg.WellFormed) :
    ∃ d bindings key j conflict, c.complete i = .ok (d, bindings, key) ∧ c.HasAncestor key j ∧
      c.MembersClash (c.Remembers memo) j conflict ∧ conflict.toSchemaError = e := by
  induction h with
  | start h =>
    subst he
    rcases start_error_cases h with hp | ⟨p, hp, hkey, hcycle⟩
    · rcases plan_error_cases hp with ⟨n, hn⟩ | ⟨n, m, k, x, hn⟩ | ⟨n, x, hn⟩ <;> cases hn
    · cases hcycle
  | bound hstart => cases he
  | member hp hpass ht => cases he
  | @conflict chain i p before rest t parents held s conflict hp hpass hs hconflict =>
    obtain ⟨d, hd, -⟩ := plan_eq_ok.1 hp
    have hkey : p.key.IsRead := TypeExpr.isRead_iff.2 (complete_wellFormed hr hd hargs).1
    exact ⟨d, p.bindings, p.key, p.key, conflict, hd, .refl,
      hpass.membersClash hr hm hp hkey hs hconflict, rfl⟩
  | @inside chain i j p before rest t parents held e hp hpass hj hraised ih =>
    obtain ⟨d, hd, hparts⟩ := plan_eq_ok.1 hp
    obtain ⟨body, hbody, hoperand⟩ := exists_body_of_member hparts hpass.mem
    have hwell : t.WellFormed := ((complete_wellFormed hr hd hargs).2 body hbody).operand hoperand
    obtain ⟨d', bindings, key, k, conflict, hd', hk, hclash, herror⟩ := ih he (hwell.args hj)
    exact ⟨d, p.bindings, p.key, k, conflict, hd, .head (hpass.hasSupertype hp hj hd') hk, hclash,
      herror⟩

/-- Members that can be read and have one label have one schema. -/
theorem eq_of_label_of_derivesEach {p : Plan} {parents : List ResolvedSchema}
    (hr : c.registry.Writable) (hp : c.plan i = .ok p) (hkey : p.key.IsRead)
    (hparents : c.DerivesEach p.members parents) :
    ∀ s ∈ parents, ∀ t ∈ parents, s.label = t.label → s = t := by
  -- each of them is for a direct supertype
  have hmember (s : ResolvedSchema) (hs : s ∈ parents) :
      ∃ k, c.Derives k s ∧ s.instantiation.IsRead := by
    obtain ⟨height, hheight⟩ := hparents.exists_height
    obtain ⟨k, -, hk⟩ := exists_derive_of_mem hheight hs
    exact ⟨k, ⟨height, hk⟩, HasSupertype.isRead hr hkey
      (hasSupertype_of_parent (plan_key hp) hheight hs)⟩
  intro s hs t ht hlabel
  obtain ⟨k, hk, hsread⟩ := hmember s hs
  obtain ⟨l, hl, htread⟩ := hmember t ht
  exact hk.eq_of_instantiation_eq hl (hsread.eq_of_label htread hlabel)

/-- **No conflict without a clash**: where the members have schemas of which every two agree
or are related, composing them ends in no conflict. -/
theorem not_conflict_of_compatible {p : Plan} {parents : List ResolvedSchema}
    (hm : memo.DerivedBy c) (hp : c.plan i = .ok p) (hparents : c.DerivesEach p.members parents)
    (hlabel : ∀ s ∈ parents, ∀ t ∈ parents, s.label = t.label → s = t)
    (hcompatible : parents.Pairwise fun s t => s.Agrees t ∨ s.Related t) :
    ((c.resolveStruct i).run memo).outcome ≠
      .error (.compositionConflict f first second detail) := by
  intro h
  obtain ⟨held, hmerge⟩ := mergeMembers_of_compatible hlabel hcompatible
  rcases resolveStruct_of_plan hm hp hparents with ⟨name, bound, hstop⟩ | hcombine
  · rw [h] at hstop
    cases hstop
  · unfold Plan.combine at hcombine
    rw [h, hmerge] at hcombine
    cases hcombine

end Composer

/-! ## Sessions -/

namespace Session

/-- As the session stands, the type expression names a struct that is resolved to the schema. -/
def Resolves (s : Session) (t : TypeExpr) (r : ResolvedSchema) : Prop :=
  ∃ k, t.instantiation? = some k ∧ ((resolveStruct k).run s).outcome = .ok r

theorem Resolves.of_remembers {s : Session} {t : TypeExpr} {r : ResolvedSchema}
    (h : s.composer.Remembers s.memo t r) : s.Resolves t r := by
  obtain ⟨k, d, bindings, key, hk, hd, hlookup⟩ := h
  exact ⟨k, hk, outcome_resolving.2 (Composer.compose_known hd hlookup s.maxDepth).1⟩

/-- Two members of one composition, the one of the instantiation or one above it, clash over
the field. Both are resolved as the session stands, and they have the two labels. -/
def ClashesAbove (s : Session) (i : Instantiation) (f first second : String) : Prop :=
  ∃ d bindings key j conflict, s.composer.complete i = .ok (d, bindings, key) ∧
    s.composer.HasAncestor key j ∧ s.composer.MembersClash s.Resolves j conflict ∧
    conflict.field = f ∧ conflict.first.label = first ∧ conflict.second.label = second

/-- The evidence of a conflict speaks of the memo that the request has left. -/
theorem clashesAbove_of_raisedAt {s : Session} {memo : Memo} {i : Instantiation}
    {f first second : String} {detail : Option String} (hr : s.registry.Writable)
    (hm : memo.DerivedBy s.composer) (hargs : ∀ arg ∈ i.args, arg.IsRead)
    (h : s.composer.RaisedAt memo [] i (.compositionConflict f first second detail)) :
    { s with memo }.ClashesAbove i f first second := by
  obtain ⟨d, bindings, key, j, conflict, hd, hj, hclash, herror⟩ := h.membersClash hr hm rfl
    fun arg harg => TypeExpr.isRead_iff.1 (hargs arg harg)
  obtain ⟨hfield, hfirst, hsecond, -⟩ := SchemaError.compositionConflict.inj herror
  exact ⟨d, bindings, key, j, conflict, hd, hj,
    hclash.imp fun t r => @Resolves.of_remembers { s with memo } t r, hfield, hfirst, hsecond⟩

/-- **Every reported conflict is real.** After any calls on a new session in which raw entries
only are registered, let a request with arguments that were read end with a conflict. Then
the composition of the requested type, or of one above it, has two members, one behind the
other, that are resolved next to schemas with the two reported labels; the labels differ,
both have the reported field, with different types, and neither is in the lineage of the
other. So if the members of a type have schemas of which every two agree on the fields that
they share or are related by inheritance, no request for the type ends with a conflict. -/
theorem conflicts_are_real (env : Environment) (maxDepth : Option Int) (prelude : Bool)
    (history : List Call) (hraw : ∀ call ∈ history, call.IsRaw) (i : Instantiation)
    (hargs : ∀ arg ∈ i.args, arg.IsRead) (f first second : String) (detail : Option String) :
    let s := (opened env maxDepth prelude).after history
    let conflict : Fault := .schema (.compositionConflict f first second detail)
    (((resolve i).run s).outcome = .error conflict →
      ((resolve i).run s).state.ClashesAbove i f first second) ∧
    (((resolveStruct i).run s).outcome = .error conflict →
      ((resolveStruct i).run s).state.ClashesAbove i f first second) ∧
    ∀ p parents, s.composer.plan i = .ok p → s.composer.DerivesEach p.members parents →
      (parents.Pairwise fun a b => a.Agrees b ∨ a.Related b) →
      ((resolve i).run s).outcome ≠ .error conflict ∧
        ((resolveStruct i).run s).outcome ≠ .error conflict := by
  intro s conflict
  have hr : s.composer.registry.Writable := writable_after env maxDepth prelude hraw
  have hclosed : s.memo.ClosedFor s.composer :=
    lasting_closedFor.after env maxDepth prelude history
  refine ⟨fun he => ?_, fun he => ?_, fun p parents hp hparents hcompatible => ?_⟩
  · exact clashesAbove_of_raisedAt hr (Composer.keeps_resolve_closedFor i s.memo hclosed).derived
      hargs (Composer.resolve_raisedAt hclosed (outcome_resolving_schema he))
  · exact clashesAbove_of_raisedAt hr
      (Composer.keeps_resolveStruct_closedFor i s.memo hclosed).derived hargs
      (Composer.resolveStruct_raisedAt hclosed (outcome_resolving_schema he))
  · obtain ⟨d, hd, -⟩ := Composer.plan_eq_ok.1 hp
    have hkey : p.key.IsRead := TypeExpr.isRead_iff.2 (Composer.complete_wellFormed hr hd
      fun arg harg => TypeExpr.isRead_iff.1 (hargs arg harg)).1
    have hlabel := Composer.eq_of_label_of_derivesEach hr hp hkey hparents
    have hnone : ((s.composer.resolveStruct i).run s.memo).outcome ≠
        .error (.compositionConflict f first second detail) :=
      Composer.not_conflict_of_compatible hclosed.derived hp hparents hlabel hcompatible
    exact ⟨fun he => hnone (Composer.resolve_error (outcome_resolving_schema he)).1,
      fun he => hnone (outcome_resolving_schema he)⟩

/-- A sum of a box of numbers and of a type over a box of texts, below a further type. -/
def boxesOfTwoKinds : List Call :=
  [.register "Box" (.table [(.text "$macro", .atom (.text "T")),
      (.text "content", .atom (.text "T"))]),
   .register "Label" (.table [(.text "$super", .atom (.text "Box(string)"))]),
   .register "Both" (.table [(.text "$super", .atom (.text "Box(number)+Label"))]),
   .register "Top" (.table [(.text "$super", .atom (.text "Both")),
      (.text "content", .atom (.text "boolean"))])]

/-- The content is reported between the box and the label, and these two are there. -/
theorem boxes_clash :
    let s := (opened .empty none false).after boxesOfTwoKinds
    let report : SchemaError :=
      .compositionConflict "content" "Box(number)" "Label" (some "number vs string")
    ((resolve ⟨"Top", []⟩).run s).outcome = .error (.schema report) ∧
      ((resolve ⟨"Top", []⟩).run s).state.ClashesAbove ⟨"Top", []⟩ "content" "Box(number)"
        "Label" := by
  intro s report
  have hraw : ∀ call ∈ boxesOfTwoKinds, call.IsRaw := by decide
  have herror : ((resolve ⟨"Top", []⟩).run s).outcome = .error (.schema report) := by
    decide +kernel
  exact ⟨herror, (conflicts_are_real .empty none false boxesOfTwoKinds hraw ⟨"Top", []⟩
    (List.forall_mem_nil _) _ _ _ _).1 herror⟩

end Session

end WidgetSchema
