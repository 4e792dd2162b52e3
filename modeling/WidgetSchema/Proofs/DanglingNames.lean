/-
What a registry without dangling names promises, and where it breaks.

A registry reports the names that its definitions mention and that are neither
registered nor parameters. The report excuses a parameter wherever it stands. The
composer replaces it almost everywhere: not as the base of a generic, and not in the
default of a parameter that it does not stand before. There it stays in what is
resolved, as a loose parameter (`survivors_accounted_for`), and is looked up like a
type (`never_dangles`).
-/
import WidgetSchema.Proofs.MentionedNames
import WidgetSchema.Proofs.VerdictMeaning

set_option autoImplicit false

namespace WidgetSchema

/-! ## What the report says -/

namespace Registry

variable {r : Registry} {n : String}

/-- The report of dangling names has this one. -/
def Reports (r : Registry) (n : String) : Prop := ∃ row ∈ r.unresolvedReferences, n ∈ row.2

/-- A registered definition leaves this parameter of its own standing. -/
def Loose (r : Registry) (n : String) : Prop :=
  ∃ d ∈ r.definitions.values, n ∈ d.looseParameters

/-- **Every name that stays in a definition is accounted for.** -/
theorem keepsWithin_accounted (r : Registry) :
    r.KeepsWithin fun n => n ∈ r.names ∨ r.Reports n ∨ r.Loose n := by
  intro name d hd n hn
  have hentry := lookup_mem.1 hd
  rcases Definition.loose_or_free hn with hloose | hfree
  · exact .inr (.inr ⟨d, List.mem_map_of_mem hentry, hloose⟩)
  · by_cases hname : n ∈ r.names
    · exact .inl hname
    · -- a free reference that is not registered stands in the row of its definition
      have hcontains : r.definitions.contains n = false := by
        rw [← Bool.not_eq_true, OrderedMap.contains_iff]
        exact hname
      have hdangling : n ∈ r.danglingIn d := by
        refine LiteralSet.mem_ofList.2 (List.mem_filter.2 ⟨hfree, ?_⟩)
        rw [hcontains]
        rfl
      refine .inr (.inl ⟨(name, r.danglingIn d), ?_, hdangling⟩)
      refine List.mem_filter.2 ⟨List.mem_map_of_mem hentry, ?_⟩
      simpa using List.ne_nil_of_mem hdangling

/-- If nothing is reported and loose parameters are registered names, no other names stay. -/
theorem keepsWithin_names (hreport : r.unresolvedReferences = [])
    (hloose : ∀ n, r.Loose n → n ∈ r.names) : r.KeepsWithin (· ∈ r.names) := by
  intro name d hd n hn
  rcases r.keepsWithin_accounted name d hd n hn with hname | ⟨row, hrow, -⟩ | hn
  · exact hname
  · rw [hreport] at hrow
    cases hrow
  · exact hloose n hn

end Registry

/-! ## Errors that are left -/

/-- The error is not that a name is not registered. -/
def SchemaError.NotDangling (e : SchemaError) : Prop := ∀ n, e ≠ .unknownType n

/-- The same of a fault. -/
def Fault.NotDangling (e : Fault) : Prop := ∀ n, e ≠ .schema (.unknownType n)

/-- An error in a type that is not about a dangling name stays one as a fault. -/
theorem SchemaError.NotDangling.fault {e : SchemaError} (h : e.NotDangling) :
    (Fault.schema e).NotDangling := by
  intro n hn
  cases hn
  exact h n rfl

/-- The names of a part are names of the whole. -/
theorem TypeExpr.Within.part {A : String → Prop} {e e' : TypeExpr} (h : e.Within A)
    (hpart : e' ∈ e.parts) : e'.Within A := by
  cases e with
  | union members | intersection members => exact within_all.1 h e' hpart
  | generic base args => exact within_all.1 (List.forall_mem_cons.1 h).2 e' hpart
  | optional inner | sequence inner | mapping inner =>
    obtain rfl := List.mem_singleton.1 hpart
    exact h
  | _ => cases hpart

/-- What an answer consists of mentions no more than the answer. -/
theorem Resolved.Within.all {A : String → Prop} {r : Resolved} (h : r.Within A) :
    r.All (TypeExpr.Within A) := by
  cases r with
  | schema s => exact h.2
  | expression e => exact h

namespace Composer

variable {c : Composer} {i : Instantiation}

/-- Binding fails for the number of arguments. -/
theorem bind_notDangling {d : Definition} {args : List TypeExpr} {e : SchemaError}
    (h : d.bind args = .error e) : e.NotDangling := by
  rintro n rfl
  unfold Definition.bind at h
  dsimp only at h
  split at h
  · cases h
  · cases hb : bindFrom [] d.parameters args with
    | error p => rw [hb] at h; cases h
    | ok found => rw [hb] at h; cases h

/-- An alias that cannot denote a struct makes no composition, which is an error of its own. -/
theorem composition_notDangling {d : Definition} {e : SchemaError}
    (h : d.composition = .error e) : e.NotDangling := by
  rintro n rfl
  cases d with
  | ofStruct d => cases h
  | ofAlias d =>
    simp only [Definition.composition] at h
    split at h <;> cases h

/-- Completing fails for the number of arguments only, if the name is registered. -/
theorem complete_notDangling {e : SchemaError} (hname : i.name ∈ c.registry.names)
    (h : c.complete i = .error e) : e.NotDangling := by
  obtain ⟨d, hd⟩ := Registry.mem_names.1 hname
  unfold complete at h
  rw [hd] at h
  cases hb : d.bind i.args with
  | error e' =>
    simp only [bind, Except.bind, hb] at h
    cases h
    exact bind_notDangling hb
  | ok found => simp [bind, Except.bind, pure, Except.pure, hb] at h

/-- A composition of a registered name starts with its plan, or fails for another reason than a
dangling name. -/
theorem start_yields (chain : List Instantiation) (hname : i.name ∈ c.registry.names) :
    (c.start chain i).Yields (fun _ => True)
      (fun start => ∀ key bindings parts, start = .fresh key bindings parts →
        c.plan i = .ok { key, bindings, parts }) SchemaError.NotDangling where
  keeps _ _ := trivial
  returns memo _ start hstart key bindings parts hfresh := by
    rw [hfresh] at hstart
    exact start_eq_fresh hstart
  fails memo _ e he := by
    rw [start_outcome] at he
    cases hc : c.complete i with
    | error e' =>
      rw [hc] at he
      cases he
      exact complete_notDangling hname hc
    | ok found =>
      obtain ⟨d, bindings, key⟩ := found
      simp only [hc] at he
      split at he
      · cases he
      · split at he
        · next hparts =>
          cases he
          exact composition_notDangling hparts
        · split at he <;> cases he
          exact fun n => nofun

/-- The instantiations whose names are all registered. -/
def Registered (c : Composer) (i : Instantiation) : Prop := i.Within (· ∈ c.registry.names)

variable {resolve : Instantiation → Resolving ResolvedSchema}

/-- Members are looked up by their own names. -/
theorem mergeEach_yields
    (hresolve : ∀ i, c.Registered i →
      (resolve i).Yields (fun _ => True) (fun _ => True) SchemaError.NotDangling)
    (owner : String) {members : List TypeExpr}
    (hmembers : ∀ member ∈ members, member.Within (· ∈ c.registry.names)) (merged : Merged) :
    (mergeEach resolve owner members merged).Yields (fun _ => True) (fun _ => True)
      SchemaError.NotDangling := by
  induction members generalizing merged with
  | nil =>
    rw [mergeEach]
    exact Action.yields_pure trivial
  | cons member rest ih =>
    rw [mergeEach]
    obtain ⟨hmember, hrest⟩ := List.forall_mem_cons.1 hmembers
    split
    · exact Action.yields_fail fun n h => by cases h
    · next j hj =>
      refine (hresolve j (hmember.instantiation hj)).bind fun parent _ => ?_
      split
      · exact (Action.yields_note _ _ _).bind fun _ _ =>
          Action.yields_fail fun n h => by cases h
      · exact ih hrest _

/-- **Composing looks no name up that is not registered**, if no such name stays in
a definition. The induction is on the room below the bound. -/
theorem compose_yields (hkept : c.registry.KeepsWithin (· ∈ c.registry.names)) (room : Nat)
    (chain : List Instantiation) (hi : c.Registered i) :
    (c.compose room chain i).Yields (fun _ => True) (fun _ => True) SchemaError.NotDangling := by
  induction room generalizing chain i with
  | zero =>
    rw [compose]
    refine (start_yields chain hi.1).bind fun start _ => ?_
    cases start with
    | known schema => exact Action.yields_pure trivial
    | fresh key bindings parts => exact Action.yields_fail fun n h => by cases h
  | succ room ih =>
    rw [compose]
    refine (start_yields chain hi.1).bind fun start hstart => ?_
    cases start with
    | known schema => exact Action.yields_pure trivial
    | fresh key bindings parts =>
      -- only members are looked up, and all they mention was there before they were bound
      obtain ⟨-, hmembers, -⟩ := plan_within hkept (hstart _ _ _ rfl) hi.2
      unfold composeNew
      refine (mergeEach_yields (fun j hj => ih _ hj) _ hmembers _).bind fun merged _ => ?_
      refine (Action.yields_note _ _ _).bind fun _ _ => ?_
      exact (Action.yields_modify fun _ _ => trivial).bind fun _ _ => Action.yields_pure trivial

/-- Resolving within registered names meets no dangling one. -/
theorem resolve_yields (hkept : c.registry.KeepsWithin (· ∈ c.registry.names))
    (hi : c.Registered i) :
    (c.resolve i).Yields (fun _ => True) (fun _ => True) SchemaError.NotDangling := by
  unfold Composer.resolve
  refine (Action.yields_ofExcept (fun _ _ => trivial) fun e he =>
    complete_notDangling hi.1 he).bind fun found _ => ?_
  obtain ⟨d, bindings, key⟩ := found
  dsimp only
  split
  · exact (compose_yields hkept _ [] hi).map fun _ _ => trivial
  · refine Action.yields_get.bind fun memo _ => ?_
    split
    · exact Action.yields_pure trivial
    · exact (Action.yields_modify fun _ _ => trivial).bind fun _ _ => Action.yields_pure trivial

/-- **Resolution keeps the contract in which no name dangles.** -/
theorem contract_of_registered (hkept : c.registry.KeepsWithin (· ∈ c.registry.names)) :
    c.Contract (Memo.SoundFor · c) (TypeExpr.Within (· ∈ c.registry.names)) Fault.NotDangling where
  sound _ hm := hm
  parts _ he _ hpart := he.part hpart
  resolve _ _ hi he :=
    { keeps := fun _ hm => (resolve_denotes hm).1
      returns := fun _ hm r hr => by
        have hdenotes := (resolve_denotes hm).2 r hr
        exact ⟨hdenotes, (hdenotes.within hkept (he.instantiation hi).2).all⟩
      fails := fun memo _ e herror =>
        ((resolve_yields hkept (he.instantiation hi)).fails memo trivial e herror).fault }
  cyclic _ := fun n => nofun
  depth _ _ := fun n => nofun
  ends _ _ _ _ _ _ := fun n => nofun

theorem resolveStruct_yields (hkept : c.registry.KeepsWithin (· ∈ c.registry.names))
    (hi : c.Registered i) :
    ((c.resolveStruct i).mapError Fault.schema).Yields (Memo.SoundFor · c)
      (fun s => (Resolved.schema s).All (TypeExpr.Within (· ∈ c.registry.names)))
      Fault.NotDangling := by
  refine Action.Yields.mapError
    { keeps := keeps_resolveStruct_soundFor i
      returns := fun memo hm s hs => ?_
      fails := fun memo _ e he =>
        ((compose_yields hkept _ [] hi).fails memo trivial e he).fault }
  obtain ⟨height, hheight⟩ := resolveStruct_derives hm.schemas hs
  exact (derive_within hkept height hheight hi.2).2

end Composer

/-! ## Sessions -/

namespace Session

/-- The action does not end because a name is not registered. -/
def NeverDangles {α : Type} (s : Session) (x : Action Fault Session α) : Prop :=
  ∀ n, (x.run s).outcome ≠ .error (.schema (.unknownType n))

/-- What yields no such fault from a sound memo never dangles. -/
theorem neverDangles_of_yields {α : Type} {s : Session} {x : Action Fault Session α}
    {Q : α → Prop} (hs : s.memo.SoundFor s.composer)
    (hx : x.Yields (fun t => t.composer = s.composer ∧ t.memo.SoundFor s.composer) Q
      Fault.NotDangling) : s.NeverDangles x :=
  fun n hn => hx.fails s ⟨rfl, hs⟩ _ hn n rfl

open Composer in
/-- **A registry that reports nothing never dangles**, except by loose parameters.
After any history of calls on a new session, let the report be empty and let every
loose parameter be a registered name. Then a registered name with arguments that
mention registered names only can be resolved, asked for its required fields and
checked against, and no name that is not registered is ever looked up. -/
theorem never_dangles (env : Environment) (maxDepth : Option Int) (prelude : Bool)
    (history : List Call) (i : Instantiation) (value : ValueGraph) :
    let s := (opened env maxDepth prelude).after history
    s.registry.unresolvedReferences = [] → (∀ n, s.registry.Loose n → n ∈ s.registry.names) →
    s.composer.Registered i →
      s.NeverDangles (resolve i) ∧ s.NeverDangles (resolveStruct i) ∧
      s.NeverDangles (resolveStruct i >>= requiredFields) ∧
      s.NeverDangles (resolve i >>= fun r => validate value (.ofResolved r)) ∧
      s.NeverDangles (validate value (.expression (.generic i.name i.args))) ∧
      s.NeverDangles (validateNamed value i.name) := by
  intro s hreport hloose hi
  have hkept : s.composer.registry.KeepsWithin (· ∈ s.composer.registry.names) :=
    s.registry.keepsWithin_names hreport hloose
  have h := contract_of_registered hkept
  -- a name with arguments is an expression, and so is one without
  have hself : (TypeExpr.generic i.name i.args).Within (· ∈ s.composer.registry.names) :=
    List.forall_mem_cons.2 ⟨hi.1, TypeExpr.within_all.2 hi.2⟩
  have hbare : (TypeExpr.reference i.name).Within (· ∈ s.composer.registry.names) :=
    List.forall_mem_singleton.2 hi.1
  have hresolve := yields_onMemo (x := fun c => (c.resolve i).mapError Fault.schema)
    (h.resolve _ i rfl hself).mapError
  have hstruct := yields_onMemo (x := fun c => (c.resolveStruct i).mapError Fault.schema)
    (resolveStruct_yields hkept hi)
  -- what these return depends on the type, so only their errors are kept for the sequences
  have hrequired (t : ResolvedSchema)
      (ht : (Resolved.schema t).All (TypeExpr.Within (· ∈ s.composer.registry.names))) :=
    yields_onMemo (Q := fun _ => True) (x := fun c => c.requiredFields t)
      ((requiredAmong_yields h ht).imp fun _ _ => trivial)
  have hchecked (r : Resolved) (hr : r.All (TypeExpr.Within (· ∈ s.composer.registry.names))) :
      (s.composer.validate value.heap value.root (.ofResolved r)).Yields
        (Memo.SoundFor · s.composer) (fun _ => True) Fault.NotDangling :=
    (validate_yields h hr fun _ _ hdigits => by cases hdigits).imp fun _ _ => trivial
  have hvalidate (r : Resolved) (hr : r.All (TypeExpr.Within (· ∈ s.composer.registry.names))) :=
    yields_onMemo (x := fun c => c.validate value.heap value.root (.ofResolved r)) (hchecked r hr)
  have hnamed := yields_onMemo (Q := fun _ => True)
    (x := fun c => c.validateNamed value.heap value.root i.name)
    ((h.resolve _ ⟨i.name, []⟩ rfl hbare).mapError.bind fun r hr => hchecked r hr.2)
  have hsound : s.memo.SoundFor s.composer := lasting_soundFor.after env maxDepth prelude history
  exact ⟨neverDangles_of_yields hsound hresolve, neverDangles_of_yields hsound hstruct,
    neverDangles_of_yields hsound (hstruct.bind hrequired),
    neverDangles_of_yields hsound (hresolve.bind fun r hr => hvalidate r hr.2),
    neverDangles_of_yields hsound (hvalidate (.expression _) hself),
    neverDangles_of_yields hsound hnamed⟩

/-- A struct with a field of its own type, and one to put into it. -/
def boxOfPoints : List Call :=
  [.register "Point" (.definition (Composer.ofPlainTypes.plain "Point" [] [("x", "number")]) .none),
   .register "Box" (.definition
     (.ofStruct
       { name := "Box"
         fields := .ofList
           [("item", { expression := .reference "T", tags := .empty, raw := "T" }),
            ("next",
              { expression := .optional (.generic "Box" [.reference "T"]), tags := .empty
                raw := "Box(T)?" })]
         supertype := none
         parameters := [{ name := "T", default := none }] }) .none)]

theorem boxOfPoints_sound :
    let s := (opened .empty none false).after boxOfPoints
    s.registry.unresolvedReferences = [] ∧ ∀ n, ¬ s.registry.Loose n := by
  intro s
  have hnone : ∀ d ∈ s.registry.definitions.values, d.looseParameters = [] := by decide
  refine ⟨by decide, ?_⟩
  rintro n ⟨d, hd, hn⟩
  rw [hnone d hd] at hn
  cases hn

/-- A box of points inside another one. -/
def pointsInBoxes : ValueGraph :=
  let point (x : Int) : Datum := .dict [(.text "x", .atom (.int x))]
  .ofDatum (.dict [(.text "item", point 1), (.text "next", .dict [(.text "item", point 2)])])

/-- Boxes of points can be resolved and checked. -/
theorem boxes_never_dangle :
    let s := (opened .empty none false).after boxOfPoints
    s.NeverDangles (resolve ⟨"Box", [.reference "Point"]⟩) ∧
      s.NeverDangles (validate pointsInBoxes
        (.expression (.generic "Box" [.reference "Point"]))) := by
  intro s
  obtain ⟨hreport, hloose⟩ := boxOfPoints_sound
  have hregistered : s.composer.Registered ⟨"Box", [.reference "Point"]⟩ := by
    unfold Composer.Registered Instantiation.Within TypeExpr.Within
    decide
  have h := never_dangles .empty none false boxOfPoints ⟨"Box", [.reference "Point"]⟩
    pointsInBoxes hreport (fun n hn => absurd hn (hloose n)) hregistered
  exact ⟨h.1, h.2.2.2.2.1⟩

/-- A table entry whose parameter is the base of a generic. -/
def parameterAsBase : List Call :=
  [.register "Box" (.table
    [(.text "$macro", .list [.atom (.text "T=number")]), (.text "x", .atom (.text "T(string)"))])]

/-- **The report excuses a parameter that is looked up as a type.** -/
theorem parameter_looked_up :
    let s := (opened .empty none false).after parameterAsBase
    let value : ValueGraph := .ofDatum (.dict [(.text "x", .atom (.int 1))])
    s.registry.unresolvedReferences = [] ∧ s.registry.names = ["Box"] ∧
      ((validateNamed value "Box").run s).outcome = .error (.schema (.unknownType "T")) := by
  decide

/-- **Which names survive resolution.** After any history of calls on a new session,
every name that a resolved type mentions is registered or stands in the arguments,
or it is reported as dangling, or it is a parameter that a registered definition
leaves standing. And what its own definition leaves standing in what it shows is
mentioned. -/
theorem survivors_accounted_for (env : Environment) (maxDepth : Option Int) (prelude : Bool)
    (history : List Call) (i : Instantiation) (r : Resolved) :
    let s := (opened env maxDepth prelude).after history
    ((resolve i).run s).outcome = .ok r →
      (∀ n, r.Mentions n → n ∈ s.registry.names ∨ (∃ arg ∈ i.args, n ∈ arg.references) ∨
        s.registry.Reports n ∨ s.registry.Loose n) ∧
      ∀ d, s.registry.lookup i.name = .ok d → ∀ n ∈ d.shownNames, r.Mentions n := by
  intro s hr
  have hsound : s.memo.SoundFor s.composer := lasting_soundFor.after env maxDepth prelude history
  have hdenotes : s.composer.Denotes i r :=
    (Composer.resolve_denotes hsound).2 r (outcome_resolving.1 hr)
  have hwithin : r.Within fun n => n ∈ s.registry.names ∨ (∃ arg ∈ i.args, n ∈ arg.references) ∨
      s.registry.Reports n ∨ s.registry.Loose n := by
    refine hdenotes.within (fun name d hd n hn => ?_) fun arg harg n hn =>
      .inr (.inl ⟨arg, harg, hn⟩)
    rcases s.registry.keepsWithin_accounted name d hd n hn with hname | hreport | hloose
    · exact .inl hname
    · exact .inr (.inr (.inl hreport))
    · exact .inr (.inr (.inr hloose))
  exact ⟨fun n hn => hwithin.mentions hn, fun d hd n hn => hdenotes.mentions_kept hd hn⟩

/-- A box of points mentions nothing but the two types. -/
theorem boxes_mention_types :
    let s := (opened .empty none false).after boxOfPoints
    ∃ r, ((resolve ⟨"Box", [.reference "Point"]⟩).run s).outcome = .ok r ∧
      ∀ n, r.Mentions n → n ∈ ["Point", "Box"] := by
  intro s
  obtain ⟨hreport, hloose⟩ := boxOfPoints_sound
  have hok : ((resolve ⟨"Box", [.reference "Point"]⟩).run s).outcome.isOk = true := by decide
  obtain ⟨r, hr⟩ := exists_of_isOk hok
  have haccounted := (survivors_accounted_for .empty none false boxOfPoints
    ⟨"Box", [.reference "Point"]⟩ r hr).1
  refine ⟨r, hr, fun n hn => ?_⟩
  rcases haccounted n hn with hname | ⟨arg, harg, hn⟩ | ⟨row, hrow, -⟩ | hn
  · exact hname
  · obtain rfl := List.mem_singleton.1 harg
    obtain rfl := List.mem_singleton.1 hn
    exact List.mem_cons_self
  · rw [hreport] at hrow
    cases hrow
  · exact absurd hn (hloose n)

/-- A table entry with a parameter whose default is the parameter behind it. -/
def defaultBehind : List Call :=
  [.register "Box" (.table
    [(.text "$macro", .list [.atom (.text "T=U"), .atom (.text "U=number")]),
      (.text "x", .atom (.text "T"))])]

/-- **A parameter survives** in an argument and in a field: the default of the first
one is read before the second one is bound. It is neither registered nor reported,
and no argument was supplied. -/
theorem parameter_survives :
    let s := (opened .empty none false).after defaultBehind
    s.registry.names = ["Box"] ∧ s.registry.unresolvedReferences = [] ∧
      ∃ r, ((resolve ⟨"Box", []⟩).run s).outcome = .ok r ∧ r.Mentions "U" := by
  intro s
  have hr : ((resolve ⟨"Box", []⟩).run s).outcome = .ok (.schema
      { instantiation := ⟨"Box", [.reference "U", .primitive "number"]⟩
        fields := .ofList [("x", { expression := .reference "U", tags := .empty, origin := "Box" })]
        lineage := .ofList ["Box(U,number)"] }) := by decide
  refine ⟨by decide, by decide, _, hr, .inl ⟨.reference "U", ?_, ?_⟩⟩
  · exact List.mem_cons_self
  · exact List.mem_cons_self

end Session

end WidgetSchema
