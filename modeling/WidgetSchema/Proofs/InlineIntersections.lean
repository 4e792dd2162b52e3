/-
Intersections, written out or registered as a type.

A check of an intersection that is written out comes to several structs, one after the
other (`ArrivesAt`); one that is registered as a type is composed first, and its one schema
is checked. Whatever a schema asks of a value is asked by one of those structs, since each
of its fields is the field of one of them. So a value that fits the intersection as it is
written fits the type, if there is any struct at all. The other way round the type asks
all that the structs ask unless one of them was overridden: where no two of them give a
field different types, the value of the type fits what is written.

The members of an intersection and the structs that it leads to are not the same. An alias
may stand for its parameter, and with an intersection for its argument it is one member
that leads to several structs, or to none. There composition has resolved what the check
still sees (`inline_differs_from_named`). Raw entries declare no such alias, and the
members can be compared themselves.
-/
import WidgetSchema.Proofs.DescendantValues
import WidgetSchema.Proofs.StructArrivals

set_option autoImplicit false

namespace WidgetSchema

namespace Composer

open Checking (JudgesArrivals)

variable {c : Composer} {memo : Memo} {n : Nat} {heap : Heap (Fin n)} {v : Value (Fin n)}
  {e : TypeExpr} {s t : ResolvedSchema} {parents : List ResolvedSchema}

/-! ## Verdicts from filled memos -/

/-- From some filled memo the value is found valid. -/
def Accepts (c : Composer) (heap : Heap (Fin n)) (v : Value (Fin n)) (target : Target) : Prop :=
  ∃ memo, memo.FilledFor c ∧
    ((c.validate heap v target).run memo).outcome.map Verdict.valid = .ok true

/-- A verdict that is returned is the same from all filled memos. -/
theorem valid_iff_accepts {target : Target} {verdict : Verdict} (hm : memo.FilledFor c)
    (h : ((c.validate heap v target).run memo).outcome = .ok verdict) :
    verdict.valid = true ↔ c.Accepts heap v target := by
  constructor
  · intro hvalid
    refine ⟨memo, hm, ?_⟩
    rw [h]
    exact congrArg Except.ok hvalid
  · -- both runs return, so the bound has stopped neither
    rintro ⟨memo', hm', hvalid⟩
    cases h' : ((c.validate heap v target).run memo').outcome with
    | error err =>
      rw [h'] at hvalid
      cases hvalid
    | ok verdict' =>
      have hagree := (c.onlyResolves_validate v target).agrees hm hm' (not_metBound h)
        (not_metBound h')
      rw [h, h'] at hagree
      rw [h', ← hagree] at hvalid
      exact Except.ok.inj hvalid

/-- The questions of a schema that accepts a dictionary have been answered. -/
theorem Accepts.passedBy {p : Fin n} {entries : List (Scalar × Value (Fin n))}
    (hp : heap p = .dict entries) (h : c.Accepts heap (.container p) (.schema t)) :
    ∃ known, ∀ x ∈ c.rootQuestions heap p entries t, c.PassedBy known x := by
  obtain ⟨memo, hm, hvalid⟩ := h
  rw [(validate_schema hp t).1] at hvalid
  exact ⟨_, passedBy_of_allTrue (onlyResolves_rootQuestions p entries t) hm hvalid⟩

/-- What was known when each of several questions was answered can be put together. -/
theorem exists_passedBy {xs : List Asking} (h : ∀ x ∈ xs, ∃ known, c.PassedBy known x) :
    ∃ known, ∀ x ∈ xs, c.PassedBy known x := by
  induction xs with
  | nil => exact ⟨.empty, fun x hx => absurd hx List.not_mem_nil⟩
  | cons x xs ih =>
    obtain ⟨⟨first, hfirst⟩, hrest⟩ := List.forall_mem_cons.1 h
    obtain ⟨others, hothers⟩ := ih hrest
    refine ⟨first.union others, List.forall_mem_cons.2 ⟨hfirst.mono Memo.within_union_left, ?_⟩⟩
    intro y hy
    exact (hothers y hy).mono Memo.within_union_right

/-! ## The intersection as it is written -/

theorem contract_of_filled (c : Composer) :
    c.Contract (Memo.FilledFor · c) (fun _ => True) fun _ => True where
  sound _ hm := hm.sound
  parts _ _ _ _ := trivial
  resolve _ _ _ _ :=
    { keeps := fun _ hm => (resolve_fills hm).2
      returns := fun _ hm r hr =>
        ⟨(resolve_denotes hm.sound).2 r hr, r.all_of_forall fun _ => trivial⟩
      fails := fun _ _ _ _ => trivial }
  cyclic _ := trivial
  depth _ _ := trivial
  ends _ _ _ _ _ _ := trivial

/-- A verdict holds the failures that the check returned. -/
theorem validate_eq_ok {target : Target} {verdict : Verdict} :
    ((c.validate heap v target).run memo).outcome = .ok verdict ↔
      ((Checking.checkRoot c heap v target).run memo).outcome = .ok verdict.failures := by
  unfold validate
  rw [Action.outcome_bind]
  cases ((Checking.checkRoot c heap v target).run memo).outcome with
  | error e =>
    constructor <;>
    · intro h
      cases h
  | ok failures =>
    constructor
    · intro h
      cases h
      rfl
    · intro h
      cases h
      rfl

/-- **A written expression accepts what all structs accept that the check comes to.** -/
theorem valid_iff_arrivals {verdict : Verdict} (hderives : c.DerivesEach e.operands parents)
    (hpresent : v.isAbsent = false) (hm : memo.FilledFor c)
    (h : ((c.validate heap v (.expression e)).run memo).outcome = .ok verdict) :
    verdict.valid = true ↔ ∀ t, c.ArrivesAt e t → c.Accepts heap v (.schema t) := by
  -- at each struct the check is a whole one, from the memo that was reached
  have hstruct (t : ResolvedSchema) :
      (Checking.checkStruct c heap (Checking.checkPart c heap n) [] .root v t).Yields
        (Memo.FilledFor · c) (fun failures => failures = [] ↔ c.Accepts heap v (.schema t))
        fun _ => True :=
    { keeps := fun m hm => ((Checking.onlyResolves_checkRoot c v (.schema t)).fills hm).2
      returns := by
        intro m hm failures hfailures
        have hverdict : ((c.validate heap v (.schema t)).run m).outcome = .ok ⟨failures⟩ :=
          validate_eq_ok.2 hfailures
        rw [← valid_iff_accepts hm hverdict]
        exact List.isEmpty_iff.symm
      fails := fun _ _ _ _ => trivial }
  let site : Checking.Site n :=
    { heap, path := .root, value := v
      atSequence := Checking.checkSequence heap (Checking.checkPart c heap n) [] .root v
      atMapping := Checking.checkMapping heap (Checking.checkPart c heap n) [] .root v }
  have hcheck := Checking.checkHere_arrivals (s := site) hpresent hderives fun e i q hi hq =>
    Checking.checkNamed_arrivals (s := site) (contract_of_filled c) hpresent hstruct c.maxDepth
      hi hq
  have hjudged := hcheck.returns memo hm verdict.failures (validate_eq_ok.1 h)
  exact List.isEmpty_iff.trans hjudged

/-! ## The intersection as a type -/

variable {p : Plan}

/-- Each field of what a type composes is found where the check of the members goes. -/
theorem exists_arrival_of_combined {f : String} {x : ResolvedField}
    (hderives : c.DerivesEach e.operands parents) (hs : p.combine parents = .ok s)
    (hown : p.parts.fields = .empty) (hx : s.fields.get? f = some x) :
    ∃ t, c.ArrivesAt e t ∧ t.fields.get? f = some x := by
  rcases Plan.combine_field hs hx with ⟨fd, hfd, -⟩ | ⟨m, hm, hfield⟩
  · rw [hown] at hfd
    cases hfd
  · obtain ⟨height, hheight⟩ := hderives.exists_height
    obtain ⟨i, ⟨member, hmember, hi⟩, hderive⟩ := exists_derive_of_mem hheight hm
    obtain ⟨t, ht, hfound⟩ := exists_arrival_of_field hderive hi hfield
    exact ⟨t, arrivesAt_of_operand hmember ht, hfound⟩

/-- **What all structs accept the type accepts**, unless the bound stops the check, if the
members lead to a struct at all. -/
theorem combined_of_arrivals (hderives : c.DerivesEach e.operands parents)
    (hs : p.combine parents = .ok s) (hown : p.parts.fields = .empty)
    (hsome : ∃ t, c.ArrivesAt e t)
    (hall : ∀ t, c.ArrivesAt e t → c.Accepts heap v (.schema t)) (hm : memo.FilledFor c) :
    MetBound ((c.validate heap v (.schema s)).run memo).outcome ∨
      ((c.validate heap v (.schema s)).run memo).outcome.map Verdict.valid = .ok true := by
  obtain ⟨t, ht⟩ := hsome
  obtain ⟨_, _, hvalid⟩ := hall t ht
  obtain ⟨a, entries, rfl, ha⟩ := exists_dict_of_valid hvalid
  have hasked : ∀ x ∈ c.rootQuestions heap a entries s, ∃ known, c.PassedBy known x := by
    intro x hx
    obtain ⟨⟨name, field⟩, hfield, rfl⟩ := List.mem_map.1 hx
    -- one of the structs has the field and has asked the same
    obtain ⟨u, hu, hfound⟩ :=
      exists_arrival_of_combined hderives hs hown (OrderedMap.get?_eq_some.2 hfield)
    obtain ⟨known, hpassed⟩ := (hall u hu).passedBy ha
    refine ⟨known, hpassed _ ?_⟩
    exact List.mem_map.2 ⟨(name, field), OrderedMap.get?_eq_some.1 hfound, rfl⟩
  obtain ⟨known, hpassed⟩ := exists_passedBy hasked
  obtain ⟨hends, -⟩ := allTrue_again (onlyResolves_rootQuestions a entries s) hpassed hm
  rw [(validate_schema ha s).1]
  refine hends.imp_left fun hstop => ?_
  rw [← (validate_schema ha s).1] at hstop
  exact metBound_map hstop

/-- **What the type accepts all structs accept**, where they agree. -/
theorem arrivals_of_combined (hderives : c.DerivesEach e.operands parents)
    (hs : p.combine parents = .ok s) (hown : p.parts.fields = .empty)
    (hagree : ∀ t u, c.ArrivesAt e t → c.ArrivesAt e u → t.AgreesWith u)
    (h : c.Accepts heap v (.schema s)) (ht : c.ArrivesAt e t) : c.Accepts heap v (.schema t) := by
  obtain ⟨memo, hm, hvalid⟩ := h
  have hextends : s.Extends t := by
    obtain ⟨m, hmem, hextends⟩ := ht.extended_by hderives
    exact (Plan.combine_extends hs hmem).trans hextends
  have hsame : t.AgreesWith s := by
    intro name f g hf hg
    obtain ⟨u, hu, hfound⟩ := exists_arrival_of_combined hderives hs hown hg
    exact hagree t u ht hu name f g hf hfound
  -- right after the type has been checked the bound has no part in the check of the struct
  have hafter : ((c.validate heap v (.schema s)).run memo).state.FilledFor c :=
    ((c.onlyResolves_validate v (.schema s)).fills hm).2
  exact ⟨_, hafter, (valid_of_extends hextends hsame hm hafter hvalid).2 (.refl _)⟩

/-- An alias without parameters composes its expression. -/
theorem plan_of_plain_alias {i : Instantiation} {d : AliasDef} (hp : c.plan i = .ok p)
    (hlookup : c.registry.lookup i.name = .ok (.ofAlias d)) (hparameters : d.parameters = []) :
    p.members = d.expression.operands ∧ p.parts.fields = .empty := by
  obtain ⟨found, hd, hparts⟩ := plan_eq_ok.1 hp
  obtain ⟨hfound, hbind, -⟩ := complete_eq_ok.1 hd
  rw [hlookup] at hfound
  cases hfound
  have hbindings : p.bindings = [] := by
    rw [bind_eq_zip hbind]
    show ((d.parameters.map GenericParameter.name).zip p.key.args).reverse = []
    rw [hparameters]
    rfl
  simp only [Definition.composition] at hparts
  split at hparts
  · have hcomposed := Except.ok.inj hparts
    unfold Plan.members
    rw [← hcomposed, hbindings]
    refine ⟨?_, rfl⟩
    show (d.expression.substitute []).operands = d.expression.operands
    rw [TypeExpr.substitute_nil]
  · cases hparts

/-- An absent value fits no intersection. -/
theorem present_of_valid {members : List TypeExpr} {verdict : Verdict}
    (h : ((c.validate heap v (.expression (.intersection members))).run memo).outcome =
      .ok verdict) (hvalid : verdict.valid = true) : v.isAbsent = false := by
  by_contra habsent
  rw [Bool.not_eq_false] at habsent
  have hcheck := validate_eq_ok.1 h
  rw [Checking.checkRoot, Checking.checkExpr, Checking.checkHere, Checking.Site.present,
    if_pos habsent] at hcheck
  unfold Verdict.valid at hvalid
  rw [← Except.ok.inj hcheck] at hvalid
  cases hvalid

end Composer

namespace Session

open Composer (DerivesEach)

/-- **Intersections that are written out and those that are registered.** Let a type be
registered for an intersection, and let a value be checked against the type and against the
intersection as it is written, at any two times on the same registry. If the intersection
leads to some struct, a value that is valid as it is written is valid against the type. If
no two of the structs that it leads to give a field different types, a value that is valid
against the type is valid as it is written. In a registry of raw entries the members
themselves can be compared: there the first holds of every intersection with members, and
the second if no two members give a field different types. -/
theorem inline_and_named_intersection (env : Environment) (maxDepth : Option Int)
    (prelude : Bool) (history other : List Call) (name : String) (members : List TypeExpr)
    (value : ValueGraph) :
    let s := (opened env maxDepth prelude).after history
    let s' := (opened env maxDepth prelude).after other
    let e := TypeExpr.intersection members
    s'.registry = s.registry →
    s.registry.lookup name = .ok (.ofAlias { name, expression := e, parameters := [] }) →
    ∀ inline named, ((validate value (.expression e)).run s).outcome = .ok inline →
      ((validateNamed value name).run s').outcome = .ok named →
      ((∃ t, s.composer.ArrivesAt e t) → inline.valid = true → named.valid = true) ∧
      ((∀ t u, s.composer.ArrivesAt e t → s.composer.ArrivesAt e u → t.AgreesWith u) →
        named.valid = true → inline.valid = true) ∧
      ((∀ call ∈ history, call.IsRaw) →
        (members ≠ [] → inline.valid = true → named.valid = true) ∧
        ((∀ parents, s.composer.DerivesEach members parents →
            ∀ p ∈ parents, ∀ q ∈ parents, p.AgreesWith q) →
          named.valid = true → inline.valid = true)) := by
  intro s s' e hregistry hlookup inline named hinline hnamed
  have hm : s.memo.FilledFor s.composer := lasting_filledFor.after env maxDepth prelude history
  have hm' : s'.memo.FilledFor s'.composer := lasting_filledFor.after env maxDepth prelude other
  have hcomposer : s'.composer = s.composer := composer_after hregistry
  -- the name is resolved to the schema of the type, and that is checked
  have hrun : ((s'.composer.validateNamed value.heap value.root name).run s'.memo).outcome =
      .ok named := hnamed
  rw [hcomposer] at hm' hrun
  obtain ⟨r, hr, hrun⟩ := Action.outcome_bind_eq_ok.1 hrun
  have hm'' : ((s.composer.resolve ⟨name, []⟩).run s'.memo).state.FilledFor s.composer :=
    (Composer.resolve_fills hm').2
  have hdenotes : s.composer.Denotes ⟨name, []⟩ r :=
    (Composer.resolve_denotes hm'.sound).2 r (mapError_eq_ok.1 hr)
  have hregistered : s.composer.registry.lookup (Instantiation.mk name []).name =
      .ok (.ofAlias { name, expression := e, parameters := [] }) := hlookup
  cases hdenotes with
  | @expression d bindings key body hd hplain =>
    -- an intersection is no plain alias
    obtain ⟨hfound, -, -⟩ := Composer.complete_eq_ok.1 hd
    cases Except.ok.inj (hregistered.symm.trans hfound)
    cases hplain
  | @schema d bindings key q hd hplain hq =>
    obtain ⟨p, parents, hp, hparents, hcombine⟩ := Composer.derives_iff.1 hq
    obtain ⟨hmembers, hown⟩ := Composer.plan_of_plain_alias hp hregistered rfl
    rw [hmembers] at hparents
    have hnamed_iff : named.valid = true ↔ s.composer.Accepts value.heap value.root (.schema q) :=
      Composer.valid_iff_accepts hm'' hrun
    have hfirst (hsome : ∃ t, s.composer.ArrivesAt e t) (hvalid : inline.valid = true) :
        named.valid = true := by
      have hpresent := Composer.present_of_valid hinline hvalid
      have hall := (Composer.valid_iff_arrivals hparents hpresent hm hinline).1 hvalid
      rcases Composer.combined_of_arrivals hparents hcombine hown hsome hall hm'' with
        hstop | hok
      · exact absurd hstop (Composer.not_metBound hrun)
      · exact hnamed_iff.2 ⟨_, hm'', hok⟩
    have hsecond
        (hagree : ∀ t u, s.composer.ArrivesAt e t → s.composer.ArrivesAt e u → t.AgreesWith u)
        (hvalid : named.valid = true) : inline.valid = true := by
      have haccepts := hnamed_iff.1 hvalid
      have hpresent : value.root.isAbsent = false := by
        obtain ⟨_, _, hdict⟩ := haccepts
        obtain ⟨a, entries, hroot, -⟩ := Composer.exists_dict_of_valid hdict
        rw [hroot]
        rfl
      refine (Composer.valid_iff_arrivals hparents hpresent hm hinline).2 fun t ht => ?_
      exact Composer.arrivals_of_combined hparents hcombine hown hagree haccepts ht
    refine ⟨hfirst, hsecond, fun hraw => ?_⟩
    have hform : s.composer.registry.FixedForm := fixedForm_after env maxDepth prelude hraw
    constructor
    · intro hne
      exact hfirst (Composer.exists_arrival hform hparents hne)
    · intro hagree
      refine hsecond fun t u ht hu name f g hf hg => ?_
      -- the members that lead to the two structs have their fields
      obtain ⟨a, ha, hta⟩ := ht.exists_parent hform hparents
      obtain ⟨b, hb, hub⟩ := hu.exists_parent hform hparents
      rw [← hta] at hf
      rw [← hub] at hg
      exact hagree parents hparents a ha b hb name f g hf hg

/-- A coloured part is a sized one, and so is a big one, which is only another name. -/
def bigAndColoured : List Call :=
  [.register "Sized" (.table [(.text "size", .atom (.text "number"))]),
   .register "Big" (.atom (.text "Sized")),
   .register "Coloured" (.table [(.text "$super", .atom (.text "Sized")),
      (.text "colour", .atom (.text "string?"))]),
   .register "Both" (.atom (.text "Big+Coloured"))]

/-- A red part of size three. -/
def redPart : ValueGraph :=
  .ofDatum (.dict [(.text "size", .atom (.int 3)), (.text "colour", .atom (.text "red"))])

/-- A red part is both, whichever way that is said. -/
theorem redPart_is_both :
    let s := (opened .empty none false).after bigAndColoured
    let e := TypeExpr.intersection [.reference "Big", .reference "Coloured"]
    ∃ inline named, ((validate redPart (.expression e)).run s).outcome = .ok inline ∧
      ((validateNamed redPart "Both").run s).outcome = .ok named ∧
      (inline.valid = true → named.valid = true) ∧ (named.valid = true → inline.valid = true) ∧
      inline.valid = true := by
  intro s e
  have hraw : ∀ call ∈ bigAndColoured, call.IsRaw := by decide
  have hlookup : (s.registry.lookup "Both").toOption =
      some (.ofAlias { name := "Both", expression := e, parameters := [] }) := by decide +kernel
  have hinline : ((validate redPart (.expression e)).run s).outcome.toOption.map Verdict.valid =
      some true := by decide +kernel
  have hnamed : ((validateNamed redPart "Both").run s).outcome.toOption.map Verdict.valid =
      some true := by decide +kernel
  have hagree : (Composer.deriveEach (s.composer.derive 8)
      [.reference "Big", .reference "Coloured"]).map
        (fun parents => decide (∀ p ∈ parents, ∀ q ∈ parents, p.AgreesWith q)) = some true := by
    decide +kernel
  obtain ⟨parents, hparents, hall⟩ := Option.map_eq_some_iff.1 hagree
  obtain ⟨inline, hi, hvalid⟩ := exists_of_toOption_map hinline
  obtain ⟨named, hn, -⟩ := exists_of_toOption_map hnamed
  obtain ⟨-, -, hboth⟩ := inline_and_named_intersection .empty none false bigAndColoured
    bigAndColoured "Both" [.reference "Big", .reference "Coloured"] redPart rfl
    (eq_ok_of_toOption hlookup) inline named hi hn
  obtain ⟨hforth, hback⟩ := hboth hraw
  refine ⟨inline, named, hi, hn, hforth (List.cons_ne_nil _ _), hback ?_, hvalid⟩
  intro other hother
  rw [hother.unique (.of_height hparents)]
  exact of_decide_eq_true hall

/-- An alias that stands for its parameter, and types that apply it: to an intersection of
which one member overrides the other, and to one without members. -/
def readyIdentity : List Call :=
  [.register "Id" (.definition (.ofAlias
      { name := "Id", expression := .reference "P", parameters := [⟨"P", none⟩] }) .none),
   .register "A" (.table [(.text "x", .atom (.text "number"))]),
   .register "B" (.table [(.text "$super", .atom (.text "A")),
      (.text "x", .atom (.text "string"))]),
   .register "C" (.table [(.text "y", .atom (.text "number"))]),
   .register "X" (.atom (.text "Id(A+B)+C")),
   .register "Y" (.definition (.ofAlias
      { name := "Y", parameters := []
        expression := .intersection [.generic "Id" [.intersection []],
          .generic "Id" [.intersection []]] }) .none)]

/-- **The members of an intersection do not decide how it is checked.** The first type is
composed of members that share no field, and yet its value does not fit the intersection as
it is written; the second one does not accept a value that fits what is written. -/
theorem inline_differs_from_named :
    let s := (opened .empty none false).after readyIdentity
    let overridden := ValueGraph.ofDatum (.dict [(.text "x", .atom (.text "s")),
      (.text "y", .atom (.int 1))])
    let number := ValueGraph.ofDatum (.atom (.int 5))
    let members : List TypeExpr :=
      [.generic "Id" [.intersection [.reference "A", .reference "B"]], .reference "C"]
    let void : List TypeExpr := [.generic "Id" [.intersection []], .generic "Id" [.intersection []]]
    ((s.registry.lookup "X").toOption =
        some (.ofAlias { name := "X", expression := .intersection members, parameters := [] }) ∧
      (∃ parents, s.composer.DerivesEach members parents ∧
        ∀ p ∈ parents, ∀ q ∈ parents, p.AgreesWith q) ∧
      ((validateNamed overridden "X").run s).outcome.toOption.map Verdict.valid = some true ∧
      ((validate overridden (.expression (.intersection members))).run s).outcome.toOption.map
        Verdict.valid = some false) ∧
    ((s.registry.lookup "Y").toOption =
        some (.ofAlias { name := "Y", expression := .intersection void, parameters := [] }) ∧
      ((validate number (.expression (.intersection void))).run s).outcome.toOption.map
        Verdict.valid = some true ∧
      ((validateNamed number "Y").run s).outcome.toOption.map Verdict.valid = some false) := by
  intro s overridden number members void
  have hagree : (Composer.deriveEach (s.composer.derive 8) members).map
      (fun parents => decide (∀ p ∈ parents, ∀ q ∈ parents, p.AgreesWith q)) = some true := by
    decide +kernel
  obtain ⟨parents, hparents, hall⟩ := Option.map_eq_some_iff.1 hagree
  refine ⟨⟨?_, ⟨parents, .of_height hparents, of_decide_eq_true hall⟩, ?_, ?_⟩, ?_, ?_, ?_⟩ <;>
    decide +kernel

end Session

end WidgetSchema
