/-
A type, by its name and by its schema.

A name is resolved to one schema by composing it. A check by the name goes along the
aliases instead, to the struct that they lead to. An alias of a type composes that type
alone and declares nothing, so its schema has the fields of the type in their order
(`exists_only_operand`), and a check against a schema depends on its fields: the label
only goes into the words (`findings_checkStruct`). So what is found by the name is found
with the schema, at the same parts, in the same order and of the same kinds
(`checkNamed_matches`).

The way of the check must not fork for that. It forks at an intersection that an alias comes
to, and an alias comes to one only where a parameter stands for it: an intersection that an
alias is declared with is composed. Raw entries declare no such alias.
-/
import WidgetSchema.Proofs.InlineIntersections
import WidgetSchema.Proofs.TypeAliases
import WidgetSchema.Proofs.UnfoldingBound

set_option autoImplicit false

namespace WidgetSchema

namespace Composer

variable {c : Composer} {i j : Instantiation} {e e' member : TypeExpr} {s t : ResolvedSchema}

/-! ## Ways that do not fork -/

/-- Along aliases, and into intersections that have one member only, the check of the first
expression comes to the second one. -/
inductive ComesTo (c : Composer) : TypeExpr → TypeExpr → Prop
  | here (e : TypeExpr) : ComesTo c e e
  | next {e e' e'' : TypeExpr} {i : Instantiation} (hi : e.instantiation? = some i)
      (hr : c.Denotes i (.expression e')) (h : ComesTo c e' e'') : ComesTo c e e''
  | only {member e : TypeExpr} (h : ComesTo c member e) : ComesTo c (.intersection [member]) e

/-- No intersection with several members, or with none, is on the way. -/
def NeverForks (c : Composer) (e : TypeExpr) : Prop :=
  ∀ members, c.ComesTo e (.intersection members) → members.length = 1

theorem NeverForks.next (h : c.NeverForks e) (hi : e.instantiation? = some i)
    (hr : c.Denotes i (.expression e')) : c.NeverForks e' :=
  fun members hcomes => h members (.next hi hr hcomes)

theorem NeverForks.only (h : c.NeverForks (.intersection [member])) : c.NeverForks member :=
  fun members hcomes => h members (.only hcomes)

/-- An alias of a fixed form that resolves to an expression does not resolve to an
intersection. -/
theorem Denotes.not_intersection (hform : c.registry.FixedForm)
    (hr : c.Denotes i (.expression e)) (members : List TypeExpr) : e ≠ .intersection members := by
  cases hr with
  | @expression d bindings key body hd hplain =>
    obtain ⟨hlookup, hbind, -⟩ := complete_eq_ok.1 hd
    rcases hform _ d (Registry.lookup_mem.1 hlookup) body hplain with
      ⟨inner, rfl⟩ | ⟨hparameters, -⟩
    · rw [TypeExpr.substitute]
      exact fun h => by cases h
    · have hbindings : bindings = [] := by
        rw [bind_eq_zip hbind, hparameters]
        rfl
      rw [hbindings, TypeExpr.substitute_nil]
      rintro rfl
      -- an alias that is declared as an intersection resolves to a schema
      cases d with
      | ofStruct d => cases hplain
      | ofAlias d =>
        have hbody := List.mem_singleton.1 (plainExpression_body hplain)
        simp [Definition.plainExpression?, ← hbody] at hplain

/-- **Where aliases have a fixed form, no name comes to an intersection.** -/
theorem ComesTo.not_intersection (hform : c.registry.FixedForm) (h : c.ComesTo e e')
    (he : ∀ members, e ≠ .intersection members) : ∀ members, e' ≠ .intersection members := by
  induction h with
  | here e => exact he
  | only h ih => exact absurd rfl (he _)
  | next hi hr h ih => exact ih (hr.not_intersection hform)

theorem neverForks_name (hform : c.registry.FixedForm) (hi : e.instantiation? = some i) :
    c.NeverForks e := by
  intro members hcomes
  refine absurd rfl (hcomes.not_intersection hform ?_ members)
  rintro other rfl
  cases hi

/-- An alias whose expression has one operand has the fields of that operand, in their order. -/
theorem exists_only_operand (hr : c.Denotes i (.expression e)) (hoperand : e.operands = [member])
    (hs : c.Derives i s) :
    ∃ j t, member.instantiation? = some j ∧ c.Derives j t ∧ t.fields = s.fields := by
  obtain ⟨p, parents, hp, hparents, hcombine⟩ := derives_iff.1 hs
  obtain ⟨hmembers, hown⟩ := plan_of_denotes_expression hr hp
  rw [hmembers, hoperand] at hparents
  cases hparents with
  | cons hfirst hrest =>
    cases hrest
    obtain ⟨j, hj, ht⟩ := hfirst
    exact ⟨j, _, hj, ht, (fields_combine_singleton hcombine hown).symm⟩

end Composer

/-! ## Findings -/

/-- What a failure says apart from its words: where it is and of which kind. -/
def Failure.finding (f : Failure) : Path × FailureKind := (f.path, f.mismatch.kind)

namespace Checking

variable {n : Nat} {c : Composer} {heap : Heap (Fin n)} {s t : ResolvedSchema}

/-- Where two parts find the same, so does their sequence. -/
theorem findings_append {x x' y y' : Check}
    (hx : List.map Failure.finding <$> x = List.map Failure.finding <$> x')
    (hy : List.map Failure.finding <$> y = List.map Failure.finding <$> y') :
    List.map Failure.finding <$> (do
        let here ← x
        let further ← y
        return here ++ further : Check) =
      List.map Failure.finding <$> (do
        let here ← x'
        let further ← y'
        return here ++ further : Check) := by
  have := Action.lawfulMonad (ε := Fault) (σ := Memo)
  have hfindings (x y : Check) : List.map Failure.finding <$> (do
        let here ← x
        let further ← y
        return here ++ further : Check) = do
      let here ← List.map Failure.finding <$> x
      let further ← List.map Failure.finding <$> y
      return here ++ further := by
    simp only [map_bind, map_pure, bind_map_left, List.map_append]
  rw [hfindings, hfindings, hx, hy]

theorem findings_refuse {path : Path} {mismatch mismatch' : Mismatch}
    (h : mismatch.kind = mismatch'.kind) :
    List.map Failure.finding <$> refuse path mismatch =
      List.map Failure.finding <$> refuse path mismatch' := by
  show (pure [(path, mismatch.kind)] : Action Fault Memo _) = pure [(path, mismatch'.kind)]
  rw [h]

/-- The label of a schema goes into the words only. -/
theorem findings_checkFields (part : Path → Value (Fin n) → TypeExpr → Check) (path : Path)
    (s t : ResolvedSchema) (entries : List (Scalar × Value (Fin n)))
    (fields : List (String × ResolvedField)) :
    List.map Failure.finding <$> checkFields c part path s entries fields =
      List.map Failure.finding <$> checkFields c part path t entries fields := by
  have := Action.lawfulMonad (ε := Fault) (σ := Memo)
  induction fields with
  | nil => rfl
  | cons field rest ih =>
    rw [checkFields, checkFields]
    dsimp only
    split
    · simp only [map_bind]
      refine bind_congr fun admits => ?_
      cases admits with
      | true => exact findings_append rfl ih
      | false => exact findings_append (findings_refuse rfl) ih
    · exact findings_append rfl ih

/-- **What a check against a schema finds depends on the fields of the schema.** -/
theorem findings_checkStruct {part : PartCheck n} {active : List (Fin n)} {path : Path}
    {v : Value (Fin n)} (h : s.fields = t.fields) :
    List.map Failure.finding <$> checkStruct c heap part active path v s =
      List.map Failure.finding <$> checkStruct c heap part active path v t := by
  unfold checkStruct
  cases v with
  | atom a =>
    dsimp only
    split <;> exact findings_refuse rfl
  | container p =>
    dsimp only
    split
    · split
      · rfl
      · rw [h]
        exact findings_checkFields _ _ _ _ _ _
    all_goals exact findings_refuse rfl

/-! ## The check by the name -/

/-- From some filled memo the check of the value against the schema finds the same. -/
def Matches (c : Composer) (heap : Heap (Fin n)) (v : Value (Fin n)) (s : ResolvedSchema)
    (failures : List Failure) : Prop :=
  ∃ memo found, memo.FilledFor c ∧ ((checkRoot c heap v (.schema s)).run memo).outcome = .ok found ∧
    failures.map Failure.finding = found.map Failure.finding

variable {v : Value (Fin n)} {e : TypeExpr} {i : Instantiation} {failures : List Failure}

/-- Schemas with the same fields are matched alike. -/
theorem Matches.of_fields_eq (hmatches : Matches c heap v t failures) (h : t.fields = s.fields) :
    Matches c heap v s failures := by
  obtain ⟨memo, found, hm, hrun, hsame⟩ := hmatches
  have hfindings : List.map Failure.finding <$> checkRoot c heap v (.schema t) =
      List.map Failure.finding <$> checkRoot c heap v (.schema s) :=
    findings_checkStruct h
  have houtcomes := Action.outcome_map (x := checkRoot c heap v (.schema t)) (s := memo)
    (List.map Failure.finding)
  rw [hfindings, Action.outcome_map, hrun] at houtcomes
  cases hfound : ((checkRoot c heap v (.schema s)).run memo).outcome with
  | error err =>
    rw [hfound] at houtcomes
    cases houtcomes
  | ok found' =>
    rw [hfound] at houtcomes
    exact ⟨memo, found', hm, hfound, hsame.trans (Except.ok.inj houtcomes).symm⟩

theorem checkRoot_matches (c : Composer) (heap : Heap (Fin n)) (v : Value (Fin n))
    (s : ResolvedSchema) :
    (checkRoot c heap v (.schema s)).Yields (Memo.FilledFor · c) (Matches c heap v s)
      fun _ => True where
  keeps _ hm := ((onlyResolves_checkRoot c v (.schema s)).fills hm).2
  returns m hm failures hfailures := ⟨m, failures, hm, hfailures, rfl⟩
  fails _ _ _ _ := trivial

/-- No schema accepts an absent value, and every one says so alike. -/
theorem matches_of_absent (h : v.isAbsent = true) (type : String) :
    Matches c heap v s [{ path := .root, mismatch := .absentValue type }] := by
  refine ⟨.empty, [{ path := .root, mismatch := .absent s.label }],
    ⟨.empty c, .empty c⟩, ?_, rfl⟩
  show ((checkStruct c heap (checkPart c heap n) [] .root v s).run .empty).outcome = _
  rw [checkStruct_of_absent h]
  rfl

/-- **What is found by a name on whose way nothing forks is found with its schema.** The
induction is on the names that may still be unfolded. -/
theorem checkCounted_matches (depth : Nat) (hi : e.instantiation? = some i) (hs : c.Derives i s)
    (hway : v.isAbsent = true ∨ c.NeverForks e) :
    (checkCounted c heap v depth e).Yields (Memo.FilledFor · c) (Matches c heap v s)
      fun _ => True := by
  unfold checkCounted
  induction depth generalizing e i s with
  | zero =>
    rw [checkNamed]
    exact Action.yields_fail trivial
  | succ depth ih =>
    rw [checkNamed]
    refine ((Composer.contract_of_filled c).resolveExpression hi trivial).bind fun r hr => ?_
    obtain ⟨hdenotes, -⟩ := hr
    cases r with
    | schema t =>
      cases hdenotes with
      | schema _ _ ht =>
        rw [ht.unique hs]
        exact checkRoot_matches c heap v s
    | expression e' =>
      dsimp only
      have hway' : v.isAbsent = true ∨ c.NeverForks e' := hway.imp_right fun h => h.next hi hdenotes
      -- an operand that stands alone is a name with the fields of the schema
      have hoperand {member : TypeExpr} (hone : e'.operands = [member])
          (hway : v.isAbsent = true ∨ c.NeverForks member) :
          (checkHere (rootSite c heap v) (checkNamed c (rootSite c heap v)
            (checkStruct c heap (checkPart c heap n) [] .root v) depth) member).Yields
            (Memo.FilledFor · c) (Matches c heap v s) fun _ => True := by
        obtain ⟨j, t, hj, ht, hfields⟩ := Composer.exists_only_operand hdenotes hone hs
        rw [checkHere_name hj]
        exact (ih hj ht hway).imp fun failures hmatches => hmatches.of_fields_eq hfields
      cases e' with
      | intersection members =>
        rw [checkHere, Site.present]
        split
        · next habsent => exact refuse_yields (matches_of_absent habsent _)
        · next hpresent =>
          have hforks := hway'.resolve_left hpresent
          obtain ⟨member, rfl⟩ := List.length_eq_one_iff.1 (hforks members (.here _))
          rw [checkEach, checkEach]
          refine (hoperand rfl (.inr hforks.only)).bind fun here hhere => ?_
          refine Action.Yields.bind (Action.yields_pure (Q := (· = [])) rfl) fun further hnone => ?_
          rw [hnone, List.append_nil]
          exact Action.yields_pure hhere
      | _ => exact hoperand rfl hway'

end Checking

namespace Composer

variable {n : Nat} {c : Composer} {heap : Heap (Fin n)} {v : Value (Fin n)} {memo memo' : Memo}
  {s : ResolvedSchema} {name : String} {named given : Verdict}

/-- Two verdicts that are returned, one by a name on whose way nothing forks and one with its
schema, hold the same findings. -/
theorem findings_by_name (hs : c.Derives ⟨name, []⟩ s) (hm : memo.FilledFor c)
    (hm' : memo'.FilledFor c) (hway : v.isAbsent = true ∨ c.NeverForks (.reference name))
    (hnamed : ((c.validateNamed heap v name).run memo).outcome = .ok named)
    (hgiven : ((c.validate heap v (.schema s)).run memo').outcome = .ok given) :
    named.failures.map Failure.finding = given.failures.map Failure.finding := by
  have hcheck : ((Checking.checkLed c heap v (.reference name)).run memo).outcome =
      .ok named.failures := by
    have hled : ((c.validateLed heap v (.reference name)).run memo).outcome = .ok named := hnamed
    rw [(validateLed_ends c heap v _ memo).1] at hled
    cases hrun : ((Checking.checkLed c heap v (.reference name)).run memo).outcome with
    | error err =>
      rw [hrun] at hled
      cases hled
    | ok failures =>
      rw [hrun] at hled
      cases hled
      rfl
  rw [Checking.checkLed_eq] at hcheck
  obtain ⟨filled, found, hfilled, hfound, hsame⟩ :=
    (Checking.checkCounted_matches (c.maxDepth + 1) rfl hs hway).returns memo hm _ hcheck
  -- a check against the schema that returns finds the same from every filled memo
  have hschema := validate_eq_ok.1 hgiven
  have hagree := (Checking.onlyResolves_checkRoot c v (.schema s)).agrees hfilled hm'
    (not_metBound hfound) (not_metBound hschema)
  rw [hfound, hschema] at hagree
  rw [hsame, Except.ok.inj hagree]

end Composer

namespace Session

/-- **By its name and with its schema a type is checked alike.** Let a name be resolved to a
schema, and let a value be checked by the name and against the schema, at any three times on the
same registry. If both checks return, they find the same at the same places, in the same order, as
long as the value is absent or the aliases that the name leads along come to no intersection with
several members or with none. In a registry of raw entries they never do. -/
theorem name_and_schema_find_alike (env : Environment) (maxDepth : Option Int) (prelude : Bool)
    (history other third : List Call) (name : String) (value : ValueGraph) :
    let s := (opened env maxDepth prelude).after history
    let s' := (opened env maxDepth prelude).after other
    let s'' := (opened env maxDepth prelude).after third
    s'.registry = s.registry → s''.registry = s.registry →
    ∀ schema named given, ((resolveStruct ⟨name, []⟩).run s).outcome = .ok schema →
      ((validateNamed value name).run s').outcome = .ok named →
      ((validate value (.schema schema)).run s'').outcome = .ok given →
      (value.root.isAbsent = true ∨ s.composer.NeverForks (.reference name) →
        named.failures.map Failure.finding = given.failures.map Failure.finding) ∧
      ((∀ call ∈ history, call.IsRaw) →
        named.failures.map Failure.finding = given.failures.map Failure.finding) := by
  intro s s' s'' hother hthird schema named given hschema hnamed hgiven
  have hm : s.memo.FilledFor s.composer := lasting_filledFor.after env maxDepth prelude history
  have hm' : s'.memo.FilledFor s'.composer := lasting_filledFor.after env maxDepth prelude other
  have hm'' : s''.memo.FilledFor s''.composer :=
    lasting_filledFor.after env maxDepth prelude third
  -- the three sessions compose alike, as their registries are one
  have hcomposer : s'.composer = s.composer := composer_after hother
  have hcomposer' : s''.composer = s.composer := composer_after hthird
  have hderives : s.composer.Derives ⟨name, []⟩ schema :=
    Composer.resolveStruct_derives hm.sound.schemas (outcome_resolving.1 hschema)
  have hnamed' : ((s'.composer.validateNamed value.heap value.root name).run s'.memo).outcome =
      .ok named := hnamed
  have hgiven' : ((s''.composer.validate value.heap value.root (.schema schema)).run
      s''.memo).outcome = .ok given := hgiven
  rw [hcomposer] at hm' hnamed'
  rw [hcomposer'] at hm'' hgiven'
  refine ⟨fun hway => Composer.findings_by_name hderives hm' hm'' hway hnamed' hgiven',
    fun hraw => Composer.findings_by_name hderives hm' hm'' (.inr ?_) hnamed' hgiven'⟩
  exact Composer.neverForks_name (fixedForm_after env maxDepth prelude hraw) rfl

/-- A label is another name for a coloured disc, which is composed of two structs. -/
def labelledDiscs : List Call :=
  [.register "Round" (.table [(.text "radius", .atom (.text "number"))]),
   .register "Coloured" (.table [(.text "colour", .atom (.text "string"))]),
   .register "Disc" (.atom (.text "Round+Coloured")),
   .register "Plate" (.atom (.text "Disc")),
   .register "Label" (.atom (.text "Plate"))]

/-- A disc of which the radius is a text and the colour is missing. -/
def wordyDisc : ValueGraph := .ofDatum (.dict [(.text "radius", .atom (.text "large"))])

/-- By its name and with its schema a label asks for both fields, in one order. -/
theorem wordyDisc_found_alike :
    let s := (opened .empty none false).after labelledDiscs
    ∃ schema named given, ((resolveStruct ⟨"Label", []⟩).run s).outcome = .ok schema ∧
      ((validateNamed wordyDisc "Label").run s).outcome = .ok named ∧
      ((validate wordyDisc (.schema schema)).run s).outcome = .ok given ∧
      named.failures.map Failure.finding = given.failures.map Failure.finding ∧
      named.failures.map Failure.finding =
        [([.field "radius"], .typeMismatch), ([.field "colour"], .missingField)] := by
  intro s
  have hraw : ∀ call ∈ labelledDiscs, call.IsRaw := by decide
  have hschema : (((resolveStruct ⟨"Label", []⟩).run s).outcome.toOption.map fun schema =>
      ((validate wordyDisc (.schema schema)).run s).outcome.isOk) = some true := by decide +kernel
  have hnamed : ((validateNamed wordyDisc "Label").run s).outcome.toOption.map
      (fun verdict => verdict.failures.map Failure.finding) =
        some [([.field "radius"], .typeMismatch), ([.field "colour"], .missingField)] := by
    decide +kernel
  obtain ⟨schema, hs, hreturns⟩ := exists_of_toOption_map hschema
  obtain ⟨given, hg⟩ := exists_of_isOk hreturns
  obtain ⟨named, hn, hfound⟩ := exists_of_toOption_map hnamed
  obtain ⟨-, halike⟩ := name_and_schema_find_alike .empty none false labelledDiscs labelledDiscs
    labelledDiscs "Label" wordyDisc rfl rfl schema named given hs hn hg
  exact ⟨schema, named, given, hs, hn, hg, halike hraw, hfound⟩

/-- An alias that stands for its parameter, and a type that applies it to an intersection. -/
def appliedIdentity : List Call :=
  [.register "Id" (.definition (.ofAlias
      { name := "Id", expression := .reference "P", parameters := [⟨"P", none⟩] }) .none),
   .register "A" (.table [(.text "x", .atom (.text "number"))]),
   .register "B" (.table [(.text "y", .atom (.text "string"))]),
   .register "X" (.atom (.text "Id(A+B)"))]

/-- **Where the way forks, the findings differ.** A number is refused by each of the two
structs that the name leads to, and once by the schema that they are composed to. -/
theorem name_forks_and_schema_does_not :
    let s := (opened .empty none false).after appliedIdentity
    let number := ValueGraph.ofDatum (.atom (.int 5))
    (((validateNamed number "X").run s).outcome.toOption.map
        (fun verdict => verdict.failures.map Failure.finding) =
      some [([], .typeMismatch), ([], .typeMismatch)]) ∧
    ((resolveStruct ⟨"X", []⟩).run s).outcome.toOption.map (fun schema =>
        ((validate number (.schema schema)).run s).outcome.toOption.map
          fun verdict => verdict.failures.map Failure.finding) =
      some (some [([], .typeMismatch)]) := by
  decide +kernel

end Session

end WidgetSchema
