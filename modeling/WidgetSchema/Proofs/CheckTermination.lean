/-
Validation ends on every value.

It ends with a verdict, with an error in a type or a value, or, if the value holds an integer
with too many digits, with the fault that such an integer cannot be written.

A check recurses along the value, along the names of its type and along the
expression. Of these only the expression shrinks by itself.

* Into a container a check goes only if it does not stand in it already, so the
  number of containers bounds the nesting, and the bound of the model on it is never
  what ends a check (`Checking.checkRoot_eq_checkWhole`).
* Names are unfolded up to the bound of the composer, and then the check ends with an
  error.
* The test for absence, which a missing field asks for, unfolds names without that
  bound. It stops at a text that it has met, and the model gives it up after a number
  of unfoldings.

The last is where the registry counts. Raw entries declare aliases without parameters,
and the only alias of the prelude that takes one is optional. Such aliases have a fixed
form (`Definition.FixedForm`): after the first unfolding every name is one that a text
denotes, so its text is its name, and the registered names that have not been met grow
fewer. The test is never given up, and more unfoldings would not change its answer.
-/
import WidgetSchema.Proofs.DanglingNames
import WidgetSchema.Proofs.NestingBound
import WidgetSchema.Proofs.RawEntries
import WidgetSchema.Proofs.Redeclaration

set_option autoImplicit false

namespace WidgetSchema

/-! ## Aliases of a fixed form -/

namespace Definition

/-- If the definition is an alias that resolves to an expression, it stands for an
optional type, or it takes no arguments and stands for what a text denotes. -/
def FixedForm (d : Definition) : Prop :=
  ∀ e, d.plainExpression? = some e →
    (∃ inner, e = .optional inner) ∨ (d.parameters = [] ∧ e.WellFormed)

/-- An alias from a text has no parameters, so nothing is ever put into its expression. -/
theorem fixedForm_of_raw {strict : Bool} {name : String} {entry : Entry} {d : Definition}
    (hraw : entry.IsRaw) (h : (Definition.build strict name entry).outcome = .ok d) :
    d.FixedForm := by
  intro e he
  have hvalid := valid_of_build hraw h
  cases d with
  | ofStruct s => cases he
  | ofAlias a =>
    obtain ⟨hwell, hparameters⟩ := hvalid
    have hbody : e = a.expression := List.mem_singleton.1 (Composer.plainExpression_body he)
    rw [hbody]
    exact .inr ⟨hparameters, hwell⟩

end Definition

namespace Registry

/-- All aliases have a fixed form. -/
def FixedForm (r : Registry) : Prop :=
  ∀ name d, (name, d) ∈ r.definitions.entries → d.FixedForm

/-- Raw entries declare aliases of a fixed form. The prelude has one ready definition, and
that is optional. -/
theorem holdsOfRaw_fixedForm : HoldsOfRaw fun d => d.2.FixedForm := by
  rintro strict e d (hraw | he) hdeclares -
  · exact Definition.fixedForm_of_raw hraw hdeclares.2
  · simp only [prelude, List.mem_cons, List.not_mem_nil, or_false] at he
    rcases he with rfl | rfl | rfl
    · exact Definition.fixedForm_of_raw (Entry.isRaw_atom _) hdeclares.2
    · exact Definition.fixedForm_of_raw (Entry.isRaw_atom _) hdeclares.2
    · obtain ⟨name, d⟩ := d
      obtain ⟨-, hbuild⟩ := hdeclares
      cases hbuild
      intro e he
      cases he
      exact .inl ⟨_, rfl⟩

end Registry

/-- **Registries of raw entries have aliases of a fixed form.** -/
theorem Session.fixedForm_after (env : Environment) (maxDepth : Option Int) (prelude : Bool)
    {history : List Call} (hraw : ∀ call ∈ history, call.IsRaw) :
    ((opened env maxDepth prelude).after history).registry.FixedForm := by
  intro name d hmem
  exact each_after Registry.holdsOfRaw_fixedForm env maxDepth prelude hraw (name, d) hmem

/-! ## The test for absence ends -/

/-- Parts of well-formed expressions are well-formed. -/
theorem TypeExpr.WellFormed.part {e e' : TypeExpr} (h : e.WellFormed) (hpart : e' ∈ e.parts) :
    e'.WellFormed := by
  cases e with
  | primitive | reference | literal | enumSet => cases hpart
  | optional inner | sequence inner | mapping inner =>
    rw [List.mem_singleton.1 hpart]
    simpa only [WellFormed] using h
  | union members | intersection members =>
    rw [WellFormed] at h
    exact wellFormedEach_iff.1 h.2 e' hpart
  | generic base args =>
    rw [WellFormed] at h
    exact wellFormedEach_iff.1 h.2.2 e' hpart

/-- A name without arguments that a text denotes is written as it is. -/
theorem TypeExpr.WellFormed.render_name {e : TypeExpr} {i : Instantiation} (h : e.WellFormed)
    (hi : e.instantiation? = some i) (hargs : i.args = []) : e.render = i.name := by
  cases e with
  | reference name =>
    cases hi
    simp [render, lexemes, Lexeme.text]
  | generic base args =>
    -- an application has arguments
    cases hi
    cases hargs
    simp [WellFormed] at h
  | _ => cases hi

/-- An error in a table, a type or a value. -/
def Fault.IsSchemaError : Fault → Prop
  | .schema _ => True
  | _ => False

namespace Composer

variable {c : Composer} {i : Instantiation} {e : TypeExpr}

/-- What an alias of a fixed form denotes. -/
theorem Denotes.fixedForm (hform : c.registry.FixedForm) (h : c.Denotes i (.expression e)) :
    (∃ inner, e = .optional inner) ∨
      (i.name ∈ c.registry.names ∧ i.args = [] ∧ e.WellFormed) := by
  cases h with
  | @expression d bindings key body hd hplain =>
    obtain ⟨hlookup, hbind, -⟩ := complete_eq_ok.1 hd
    rcases hform _ d (Registry.lookup_mem.1 hlookup) body hplain with
      ⟨inner, rfl⟩ | ⟨hparameters, hwell⟩
    · exact .inl ⟨inner.substitute bindings, by rw [TypeExpr.substitute]⟩
    · -- without parameters there are no arguments, and nothing is put in
      have hargs : i.args = [] := args_eq_nil_of_bind hbind hparameters
      have hbindings : bindings = [] := by
        rw [bind_eq_zip hbind, hparameters]
        rfl
      rw [hbindings, TypeExpr.substitute_nil]
      exact .inr ⟨Registry.mem_names.2 ⟨d, hlookup⟩, hargs, hwell⟩

/-- Resolution fails with errors in types only. -/
theorem resolve_yields_schemaError (hi : e.instantiation? = some i) :
    (c.resolve i).Yields (Memo.SoundFor · c) (fun r => c.Denotes i r ∧ r.All fun _ => True)
      fun err => Fault.IsSchemaError (.schema err) :=
  ((contract_of_sound c).resolve e i hi trivial).allow fun _ _ => trivial

/-- A type name resolves to what it denotes, or fails with an error in a type. -/
theorem resolveExpression_yields_schemaError (hi : e.instantiation? = some i) :
    ((c.resolveExpression e).mapError Fault.schema).Yields (Memo.SoundFor · c)
      (fun r => c.Denotes i r ∧ r.All fun _ => True) Fault.IsSchemaError := by
  unfold Composer.resolveExpression
  rw [hi]
  exact (resolve_yields_schemaError hi).mapError

/-- The registered names that have not been met. -/
def unseen (c : Composer) (seen : List String) : List String :=
  c.registry.names.filter fun name => name ∉ seen

/-- Unfolding a name leaves one name less to be unfolded. The names of the registry are finite, so
this is what ends the test. -/
theorem length_unseen_cons {seen : List String} {name : String} (hname : name ∈ c.registry.names)
    (hseen : name ∉ seen) : (c.unseen (name :: seen)).length < (c.unseen seen).length := by
  have hfilter : c.unseen (name :: seen) = (c.unseen seen).filter fun other => other ≠ name := by
    rw [unseen, unseen, List.filter_filter]
    congr 1
    funext other
    simp [not_or]
  rw [hfilter, List.length_filter_lt_length_iff_exists]
  refine ⟨name, ?_, by simp⟩
  simpa [unseen] using ⟨hname, hseen⟩

/-- **From a name that a text denotes, the test needs no more unfoldings than there are
names left**, and one to find out that a name is none of them. The induction is on the
unfoldings. -/
theorem absentFitsName_ends (hform : c.registry.FixedForm) {steps : Nat} {seen : List String}
    (hleft : (c.unseen seen).length < steps) (hi : e.instantiation? = some i)
    (hwell : e.WellFormed) :
    (c.absentFitsName steps seen e).Yields (Memo.SoundFor · c)
      (fun b => b = true ↔ c.AbsenceFitsName steps seen e) Fault.IsSchemaError := by
  induction steps generalizing seen e i with
  | zero => exact absurd hleft (Nat.not_lt_zero _)
  | succ steps ih =>
    apply absentFitsName_succ_yields hi (resolveExpression_yields_schemaError hi)
    intro hseen e' hdenotes _
    rcases hdenotes.fixedForm hform with ⟨inner, rfl⟩ | ⟨hname, hargs, hwell'⟩
    · rw [absentFits, AbsenceFits]
      exact Action.yields_pure (by simp)
    · -- the name is met now, so one less is left
      rw [hwell.render_name hi hargs] at hseen ⊢
      have hfewer := length_unseen_cons hname hseen
      have hleft' : (c.unseen (i.name :: seen)).length < steps := by omega
      apply absentFits_yields (fun _ h _ hpart => h.part hpart) _ e' hwell'
      intro e'' j hj hwell''
      exact ih hleft' hj hwell''

/-- **The test ends on every expression.** The first name may be applied to anything;
what it leads to is what a text denotes. -/
theorem absentFits_ends (hform : c.registry.FixedForm) {steps : Nat}
    (hsteps : c.registry.definitions.size + 2 ≤ steps) (e : TypeExpr) :
    (absentFits (c.absentFitsName steps []) e).Yields (Memo.SoundFor · c)
      (fun b => b = true ↔ AbsenceFits (c.AbsenceFitsName steps []) e) Fault.IsSchemaError := by
  obtain ⟨steps, rfl⟩ : ∃ rest, steps = rest + 1 := ⟨steps - 1, by omega⟩
  have hnames : c.registry.names.length = c.registry.definitions.size := List.length_map _
  apply absentFits_yields (fun _ _ _ _ => trivial) _ e trivial
  intro e₁ i hi _
  apply absentFitsName_succ_yields hi (resolveExpression_yields_schemaError hi)
  intro _ e' hdenotes _
  rcases hdenotes.fixedForm hform with ⟨inner, rfl⟩ | ⟨-, -, hwell⟩
  · rw [absentFits, AbsenceFits]
    exact Action.yields_pure (by simp)
  · have hleft : (c.unseen [e₁.render]).length < steps := by
      have hle : (c.unseen [e₁.render]).length ≤ c.registry.names.length :=
        List.length_filter_le _ _
      omega
    apply absentFits_yields (fun _ h _ hpart => h.part hpart) _ e' hwell
    intro e'' j hj hwell''
    exact absentFitsName_ends hform hleft hj hwell''

/-- **With aliases of a fixed form the test is never given up.** -/
theorem contract_of_fixedForm (hform : c.registry.FixedForm) :
    c.Contract (Memo.SoundFor · c) (fun _ => True) Fault.IsSchemaError where
  sound _ hm := hm
  parts _ _ _ _ := trivial
  resolve _ _ hi _ := resolve_yields_schemaError hi
  cyclic _ := trivial
  depth _ _ := trivial
  ends e _ memo hm label h := by
    have hsteps : c.registry.definitions.size + 2 ≤
        c.registry.definitions.size + spareUnfoldings := by
      rw [spareUnfoldings]
      omega
    exact (absentFits_ends hform hsteps e).fails memo hm _ h

end Composer

/-! ## More unfoldings change nothing -/

namespace Action

variable {ε σ α β : Type} {P : σ → Prop} {E : ε → Prop} {x y : Action ε σ α}
  {f g : α → Action ε σ β}

/-- The first action keeps `P`, and from the states with `P` the two run alike, unless the
first one ends with an error in `E`. -/
structure AgreesFrom (P : σ → Prop) (E : ε → Prop) (x y : Action ε σ α) : Prop where
  keeps : x.Keeps P
  agrees : ∀ s, P s → (∃ e, (x.run s).outcome = .error e ∧ E e) ∨ x.run s = y.run s

/-- An action agrees with itself. -/
theorem AgreesFrom.refl (hx : x.Keeps P) : AgreesFrom P E x x := ⟨hx, fun _ _ => .inr rfl⟩

/-- A failure that is excused agrees with everything. -/
theorem AgreesFrom.fail {e : ε} (he : E e) : AgreesFrom P E (fail e) y :=
  ⟨keeps_fail e, fun _ _ => .inl ⟨e, rfl, he⟩⟩

/-- What may be gone on with has to agree where the first part returns from a state with `P`. -/
theorem AgreesFrom.bind_of {Q : α → Prop} (hx : AgreesFrom P E x y)
    (hreturns : ∀ s, P s → ∀ a, (x.run s).outcome = .ok a → Q a)
    (hf : ∀ a, Q a → AgreesFrom P E (f a) (g a)) : AgreesFrom P E (x >>= f) (y >>= g) where
  keeps s hs :=
    bind_invariant (hx.keeps s hs) fun a ha =>
      (hf a (hreturns s hs a ha)).keeps _ (hx.keeps s hs)
  agrees s hs := by
    -- the first part is given up, or it runs alike and the second parts are compared
    rcases hx.agrees s hs with ⟨e, he, hE⟩ | hsame
    · exact .inl ⟨e, by rw [outcome_bind, he], hE⟩
    · cases ha : (x.run s).outcome with
      | error e =>
        rw [run_bind_error ha, run_bind_error (hsame ▸ ha), hsame]
        exact .inr rfl
      | ok a =>
        have hnext := hf a (hreturns s hs a ha)
        rcases hnext.agrees _ (hx.keeps s hs) with ⟨e, he, hE⟩ | hrest
        · refine .inl ⟨e, ?_, hE⟩
          rw [outcome_bind, ha]
          exact he
        · rw [run_bind_ok ha, run_bind_ok (hsame ▸ ha), ← hsame, hrest]
          exact .inr rfl

/-- Sequences agree if their parts do. -/
theorem AgreesFrom.bind (hx : AgreesFrom P E x y) (hf : ∀ a, AgreesFrom P E (f a) (g a)) :
    AgreesFrom P E (x >>= f) (y >>= g) :=
  hx.bind_of (fun _ _ _ _ => trivial) fun a _ => hf a

/-- More failures may be excused. -/
theorem AgreesFrom.allow {E' : ε → Prop} (hx : AgreesFrom P E x y) (h : ∀ e, E e → E' e) :
    AgreesFrom P E' x y where
  keeps := hx.keeps
  agrees s hs := (hx.agrees s hs).imp_left fun hfails => hfails.imp fun e he => ⟨he.1, h e he.2⟩

/-- The two run alike, unless the first ends with an error in `E`. -/
def AgreesUnless (E : ε → Prop) (x y : Action ε σ α) : Prop :=
  ∀ s, (∃ e, (x.run s).outcome = .error e ∧ E e) ∨ x.run s = y.run s

/-- Without a condition on the state the two notions are one. -/
theorem agreesUnless_iff : AgreesUnless E x y ↔ AgreesFrom (fun _ => True) E x y :=
  ⟨fun h => ⟨fun _ _ => trivial, fun s _ => h s⟩, fun h s => h.agrees s trivial⟩

/-- An action agrees with itself, whatever is excused. -/
theorem AgreesUnless.refl (x : Action ε σ α) : AgreesUnless E x x := fun _ => .inr rfl

/-- Sequences agree if their parts do; the first parts leave the same state where they return. -/
theorem AgreesUnless.bind (hx : AgreesUnless E x y) (hf : ∀ a, AgreesUnless E (f a) (g a)) :
    AgreesUnless E (x >>= f) (y >>= g) :=
  agreesUnless_iff.2 ((agreesUnless_iff.1 hx).bind fun a => agreesUnless_iff.1 (hf a))

end Action

/-- The test for absence was given up. -/
def Fault.IsEndless (err : Fault) : Prop := ∃ label, err = .endlessAlias label

namespace Composer

open WidgetSchema.Action (AgreesUnless)

variable {c : Composer} {named named' : TypeExpr → Asking} {E : Fault → Prop}

mutual
/-- The test agrees where the questions about names agree, one case for each kind of type. -/
theorem absentFits_agrees (h : ∀ e, AgreesUnless E (named e) (named' e)) :
    (e : TypeExpr) → AgreesUnless E (absentFits named e) (absentFits named' e)
  | .optional _ | .primitive _ | .literal _ | .enumSet _ | .sequence _ | .mapping _ => by
    rw [absentFits, absentFits]
    exact .refl _
  | .reference name => by
    rw [absentFits, absentFits]
    exact h _
  | .generic base args => by
    rw [absentFits, absentFits]
    exact h _
  | .union members => by
    rw [absentFits, absentFits]
    exact absentFitsSome_agrees h members
  | .intersection members => by
    rw [absentFits, absentFits]
    exact absentFitsEach_agrees h members

/-- The same for the members of a union. -/
theorem absentFitsSome_agrees (h : ∀ e, AgreesUnless E (named e) (named' e)) :
    (es : List TypeExpr) → AgreesUnless E (absentFitsSome named es) (absentFitsSome named' es)
  | [] => by
    rw [absentFitsSome, absentFitsSome]
    exact .refl _
  | e :: es => by
    rw [absentFitsSome, absentFitsSome]
    refine (absentFits_agrees h e).bind fun b => ?_
    cases b with
    | true => exact .refl _
    | false => exact absentFitsSome_agrees h es

/-- The same for the members of an intersection. -/
theorem absentFitsEach_agrees (h : ∀ e, AgreesUnless E (named e) (named' e)) :
    (es : List TypeExpr) → AgreesUnless E (absentFitsEach named es) (absentFitsEach named' es)
  | [] => by
    rw [absentFitsEach, absentFitsEach]
    exact .refl _
  | e :: es => by
    rw [absentFitsEach, absentFitsEach]
    refine (absentFits_agrees h e).bind fun b => ?_
    cases b with
    | true => exact absentFitsEach_agrees h es
    | false => exact .refl _
end

/-- A test that is not given up runs as it would with more unfoldings. -/
theorem absentFitsName_agrees (steps more : Nat) (seen : List String) (e : TypeExpr) :
    AgreesUnless Fault.IsEndless (c.absentFitsName steps seen e)
      (c.absentFitsName (steps + more) seen e) := by
  induction steps generalizing seen e with
  | zero =>
    rw [Nat.zero_add, absentFitsName]
    -- without a step left only a text that was seen is answered
    by_cases hseen : e.render ∈ seen
    · cases more <;> simp only [absentFitsName, if_pos hseen] <;> exact .refl _
    · rw [if_neg hseen]
      exact fun s => .inl ⟨_, rfl, _, rfl⟩
  | succ steps ih =>
    rw [Nat.add_right_comm, absentFitsName, absentFitsName]
    split
    · exact .refl _
    · refine (AgreesUnless.refl _).bind fun r => ?_
      cases r with
      | schema s => exact .refl _
      | expression e' => exact absentFits_agrees (ih _) e'

/-- **From enough unfoldings on their number does not matter.** -/
theorem absentFits_stable (hform : c.registry.FixedForm) {steps : Nat}
    (hsteps : c.registry.definitions.size + 2 ≤ steps) (more : Nat) (e : TypeExpr) {memo : Memo}
    (hm : memo.SoundFor c) :
    (absentFits (c.absentFitsName steps []) e).run memo =
      (absentFits (c.absentFitsName (steps + more) []) e).run memo := by
  rcases absentFits_agrees (absentFitsName_agrees steps more []) e memo with
    ⟨err, herr, label, rfl⟩ | hsame
  · exact ((absentFits_ends hform hsteps e).fails memo hm _ herr).elim
  · exact hsame

/-- **More unfoldings change nothing**: where every alias has a fixed form, so many steps as there
are names are enough. -/
theorem admitsAbsence_stable (hform : c.registry.FixedForm) {steps : Nat}
    (hsteps : c.registry.definitions.size + 2 ≤ steps) (e : TypeExpr) {memo : Memo}
    (hm : memo.SoundFor c) :
    (absentFits (c.absentFitsName steps []) e).run memo = (c.admitsAbsence e).run memo := by
  -- both numbers are reached from the least that is enough
  obtain ⟨more, rfl⟩ := Nat.exists_eq_add_of_le hsteps
  have hgiven := absentFits_stable hform (Nat.le_refl _) more e hm
  have hmodel := absentFits_stable hform (Nat.le_refl _) (spareUnfoldings - 2) e hm
  rw [← hgiven, hmodel]
  rfl

end Composer

/-! ## Validation -/

/-- The request returned, or it ended with an error in a table, a type or a value. -/
def Settles {α : Type} (outcome : Except Fault α) : Prop :=
  (∃ a, outcome = .ok a) ∨ ∃ e, outcome = .error (.schema e)

/-- A request settles, unless it ends with one of the other faults that are allowed. -/
theorem settles_or {σ α : Type} {P : σ → Prop} {Q : α → Prop} {Other : Fault → Prop}
    {x : Action Fault σ α} (hx : x.Yields P Q fun err => err.IsSchemaError ∨ Other err) {s : σ}
    (hs : P s) :
    Settles (x.run s).outcome ∨ ∃ err, (x.run s).outcome = .error err ∧ Other err := by
  cases houtcome : (x.run s).outcome with
  | ok a => exact .inl (.inl ⟨a, rfl⟩)
  | error err =>
    rcases hx.fails s hs err houtcome with hschema | hother
    · cases err with
      | schema e => exact .inl (.inr ⟨e, rfl⟩)
      | _ => exact hschema.elim
    · exact .inr ⟨err, rfl, hother⟩

/-- What fails with errors in types only settles in every state that it may start from. -/
theorem settles_of_yields {σ α : Type} {P : σ → Prop} {Q : α → Prop} {x : Action Fault σ α}
    (hx : x.Yields P Q Fault.IsSchemaError) {s : σ} (hs : P s) : Settles (x.run s).outcome := by
  have hor : x.Yields P Q fun err => err.IsSchemaError ∨ False := hx.allow fun _ => .inl
  rcases settles_or hor hs with hsettles | ⟨_, _, hfalse⟩
  · exact hsettles
  · exact hfalse.elim

/-- The request ended because an integer that the value holds is too long to be written. -/
def StopsAtLong {α : Type} (value : ValueGraph) (outcome : Except Fault α) : Prop :=
  outcome = .error .tooManyDigits ∧ value.root.HoldsLong value.heap

/-- What a check of the value may fail with: an error in a table, a type or a value, and the
fault of a long integer if the value holds one. -/
def Fault.OfCheck (value : ValueGraph) (err : Fault) : Prop :=
  err.IsSchemaError ∨ err = .tooManyDigits ∧ value.root.HoldsLong value.heap

/-- The ways in which a check of the value ends on a stack with room for its calls or without. -/
def EndsCheck {α : Type} (value : ValueGraph) (overflows : Bool) (outcome : Except Fault α) :
    Prop :=
  if overflows then outcome = .error .stackOverflow
  else Settles outcome ∨ StopsAtLong value outcome

/-- A check that fails otherwise has met an integer that is too long to be written. -/
theorem settles_or_stops {σ α : Type} {P : σ → Prop} {Q : α → Prop} {x : Action Fault σ α}
    {value : ValueGraph} (hx : x.Yields P Q (Fault.OfCheck value)) {s : σ} (hs : P s) :
    Settles (x.run s).outcome ∨ StopsAtLong value (x.run s).outcome := by
  refine (settles_or hx hs).imp_right ?_
  rintro ⟨_, houtcome, rfl, hlong⟩
  exact ⟨houtcome, hlong⟩

/-- A stack without room ends a check; with room the check is as it is. -/
theorem endsCheck_onStack {σ α : Type} {x : Action Fault σ α} {value : ValueGraph} {s : σ}
    (h : Settles (x.run s).outcome ∨ StopsAtLong value (x.run s).outcome) (overflows : Bool) :
    EndsCheck value overflows ((x.onStack overflows).run s).outcome := by
  unfold Action.onStack EndsCheck
  cases overflows with
  | true => rfl
  | false => exact h

namespace Composer

variable {c : Composer}

/-- **A check ends**, if the aliases have a fixed form: with a verdict, with an error in a
type or a value, or at a long integer of the value. -/
theorem checks_end (hform : c.registry.FixedForm) (value : ValueGraph) :
    (∀ r, (c.validate value.heap value.root (.ofResolved r)).Yields (Memo.SoundFor · c)
      (fun _ => True) (Fault.OfCheck value)) ∧
    ∀ name, (c.validateNamed value.heap value.root name).Yields (Memo.SoundFor · c)
      (fun _ => True) (Fault.OfCheck value) := by
  have h : c.Contract (Memo.SoundFor · c) (fun _ => True) (Fault.OfCheck value) :=
    (contract_of_fixedForm hform).allow fun _ => .inl
  have hvalidate (r : Resolved) :
      (c.validate value.heap value.root (.ofResolved r)).Yields (Memo.SoundFor · c)
        (fun _ => True) (Fault.OfCheck value) :=
    (validate_yields h (r.all_of_forall fun _ => trivial) fun hlong => .inr ⟨rfl, hlong⟩).imp
      fun _ _ => trivial
  refine ⟨hvalidate, fun name => ?_⟩
  have hresolve : ((c.resolve ⟨name, []⟩).mapError Fault.schema).Yields _ _ _ :=
    (h.resolve (.reference name) ⟨name, []⟩ rfl trivial).mapError
  exact hresolve.bind fun r _ => hvalidate r

end Composer

namespace Session

open Composer Checking in
/-- **Validation ends on every value.** After any history of calls on a new session in
which raw entries only are registered, a check of any value, which may contain itself,
against any schema or expression, or against any name, returns a verdict or ends with
an error in a type or a value. It ends in a third way only if the value holds an integer
with too many digits, and then because that integer would have had to be written, and in a
fourth way exactly on a stack without room for its calls.

The bounds of the model are not what ends it. A check stands in each container once at
most, so it is the same with any room for all containers of the value and whatever
comes beyond, and the texts of values are whole; and from every right memo the test for
absence runs as it does with any number of unfoldings above that of the
definitions. -/
theorem validation_ends (env : Environment) (maxDepth : Option Int) (prelude : Bool)
    (history : List Call) (hraw : ∀ call ∈ history, call.IsRaw) (value : ValueGraph) :
    let s := (opened env maxDepth prelude).after history
    (∀ r overflows, EndsCheck value overflows
      (((validate value (.ofResolved r)).onStack overflows).run s).outcome) ∧
    (∀ name overflows, EndsCheck value overflows
      (((validateNamed value name).onStack overflows).run s).outcome) ∧
    (∀ beyond room target, value.size ≤ room →
      checkRoot s.composer value.heap value.root target =
        checkWhole s.composer value.heap (checkWithin s.composer value.heap beyond room)
          value.root target) ∧
    (∀ v room, value.size ≤ room →
      Value.shown? value.heap v = v.shownWithin value.heap room []) ∧
    ∀ memo, memo.SoundFor s.composer → ∀ e steps, s.registry.definitions.size + 2 ≤ steps →
      (absentFits (s.composer.absentFitsName steps []) e).run memo =
        (s.composer.admitsAbsence e).run memo := by
  intro s
  have hform : s.composer.registry.FixedForm := fixedForm_after env maxDepth prelude hraw
  have hsound : s.memo.SoundFor s.composer := lasting_soundFor.after env maxDepth prelude history
  obtain ⟨hvalidate, hnamed⟩ := checks_end hform value
  refine ⟨?_, ?_, ?_, ?_, ?_⟩
  · intro r overflows
    refine endsCheck_onStack ?_ overflows
    exact settles_or_stops (hvalidate r) hsound
  · intro name overflows
    refine endsCheck_onStack ?_ overflows
    exact settles_or_stops (hnamed name) hsound
  · intro beyond room target hroom
    exact checkRoot_eq_checkWhole beyond hroom value.root target
  · intro v room hroom
    exact Value.shown_eq_shownWithin hroom v
  · intro memo hm e steps hsteps
    exact admitsAbsence_stable hform hsteps e hm

/-- An integer as a value. -/
def integer (n : Int) : ValueGraph := .ofDatum (.atom (.int n))

/-- A check of a long integer against a literal ends where the integer is to be repeated. -/
theorem stops_at_literal {n : Int} (hlong : Digits.areFew n = false) (t : String) (s : Session) :
    ((validate (integer n) (.expression (.literal t))).run s).outcome = .error .tooManyDigits := by
  have hshown : (integer n).root.shown? (integer n).heap = none := by
    show Atom.shown? (.int n) = none
    rw [Atom.shown?, Atom.isWritable, hlong]
    rfl
  have hcheck : Checking.checkRoot s.composer (integer n).heap (integer n).root
      (.expression (.literal t)) = Checking.tooLong := by
    show Checking.refuseShown .root ((integer n).root.shown? (integer n).heap) _ = _
    rw [hshown]
    rfl
  show ((s.composer.validate (integer n).heap (integer n).root _).run s.memo).outcome = _
  rw [Composer.validate, hcheck]
  rfl

/-- **A long integer is not told from a literal.** It is none of the texts that fit, and the
failure that says so would have to repeat it: the check of an integer with 4301 digits against a
literal ends with no verdict and with no error in a type or a value. -/
theorem long_integer_stops :
    let outcome := ((validate (integer (10 ^ 4300)) (.expression (.literal "a"))).run
      (opened .empty none false)).outcome
    outcome = .error .tooManyDigits ∧ ¬ Settles outcome := by
  intro outcome
  have hlong : Digits.areFew (10 ^ 4300) = false := Digits.areFew_pow (Nat.le_refl _)
  have hstops : outcome = .error .tooManyDigits := stops_at_literal hlong "a" _
  refine ⟨hstops, ?_⟩
  rw [hstops]
  rintro (⟨verdict, h⟩ | ⟨e, h⟩)
  · cases h
  · cases h

/-- A struct whose field leads back to it, by two aliases that also lead to each other. -/
def linkedNodes : List Call :=
  [.register "Node" (.table [(.text "next", .atom (.text "Link"))]),
   .register "Link" (.atom (.text "Node|Back")),
   .register "Back" (.atom (.text "Link|string"))]

/-- A dictionary that is its own field. -/
def knot : ValueGraph := .ofDatum (.named "knot" (.dict [(.text "next", .again "knot")]))

/-- Neither the value nor the aliases make a check go on for ever, and five unfoldings
are enough for the test on three definitions. No number in the value is long. -/
theorem knot_settles :
    let s := (opened .empty none false).after linkedNodes
    (∀ r, Settles ((validate knot (.ofResolved r)).run s).outcome) ∧
      Settles ((validateNamed knot "Node").run s).outcome ∧
      ((Composer.absentFits (s.composer.absentFitsName 5 []) (.reference "Link")).run s.memo =
        (s.composer.admitsAbsence (.reference "Link")).run s.memo) := by
  intro s
  have hraw : ∀ call ∈ linkedNodes, call.IsRaw := by
    simp only [linkedNodes, List.forall_mem_cons, List.not_mem_nil, false_imp_iff, implies_true,
      and_true]
    exact ⟨Entry.isRaw_table _, Entry.isRaw_atom _, Entry.isRaw_atom _⟩
  have hsize : s.registry.definitions.size + 2 ≤ 5 := by decide
  have hsound : s.memo.SoundFor s.composer := lasting_soundFor.after .empty none false linkedNodes
  have hshort : ¬ knot.root.HoldsLong knot.heap := Value.not_holdsLong rfl (by decide)
  obtain ⟨hvalidate, hnamed, -, -, htest⟩ :=
    validation_ends .empty none false linkedNodes hraw knot
  exact ⟨fun r => (hvalidate r false).resolve_right fun hstops => hshort hstops.2,
    (hnamed "Node" false).resolve_right fun hstops => hshort hstops.2,
    htest s.memo hsound _ 5 hsize⟩

end Session

end WidgetSchema
