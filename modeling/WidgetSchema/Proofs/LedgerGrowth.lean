/-
What the ledger knows only grows.

Following a computation goes through compositions, tests for absence and checks. The schemas and
the definitions that it enters on the way stand in tables of their own; the table of expressions,
by which aliases are one value, is written in one place only, where an alias is resolved whose key
has no entry yet (`Following.first`). So whatever a computation is, and also if it fails, what the
ledger knew of expressions before it is known behind it (`Following.Grows`).

The lemmas go through the definitions in their order, and the recursions are followed by induction:
on the room for compositions, on the names still to be unfolded, on the type that is checked and on
the containers still to be entered.
-/
import WidgetSchema.Sharing.Session

set_option autoImplicit false

namespace WidgetSchema

/-! ## What the ledger knows -/

/-- What the one ledger knows of expressions, the other one knows too. -/
def Ledger.Within (l l' : Ledger) : Prop :=
  ∀ key origins, l.expressions.lookup key = some origins →
    l'.expressions.lookup key = some origins

/-- A ledger knows what it knows. -/
theorem Ledger.Within.refl (l : Ledger) : l.Within l := fun _ _ h => h

/-- What is known stays known along a sequence of ledgers. -/
theorem Ledger.Within.trans {l l' l'' : Ledger} (h : l.Within l') (h' : l'.Within l'') :
    l.Within l'' := fun key origins hknown => h' key origins (h key origins hknown)

/-- Declaring leaves the expressions alone: it enters texts of definitions. -/
theorem Ledger.expressions_declare (r : Registry) (entries : List (String × Entry)) (l : Ledger) :
    (l.declare r entries).expressions = l.expressions := by
  induction entries generalizing l with
  | nil => rfl
  | cons entry rest ih =>
    rw [Ledger.declare]
    split
    · exact ih _
    · exact ih _

namespace Following

variable {α β : Type} {x : Following α} {f : α → Following β} {g : Guide}

/-- The ledger behind what was followed. -/
def left (x : Following α) (l : Ledger) : Ledger := (x.run.run l).2

/-- What was followed came to an answer, unless it failed. -/
def answer (x : Following α) (l : Ledger) : Option α := (x.run.run l).1

/-- What is done in sequence starts where the first part came to an answer, and ends with it if
there is none. -/
theorem run_bind (l : Ledger) :
    (x >>= f).run.run l =
      (x.answer l).elim (none, x.left l) fun a => (f a).run.run (x.left l) := by
  have hrun : (x >>= f).run.run l = ((x.run.run l).1.elim (pure none : StateM Ledger (Option β))
      fun a => (f a).run).run (x.run.run l).2 := by
    rw [OptionT.run_bind, Option.elimM, StateT.run_bind]
    rfl
  rw [hrun]
  unfold answer left
  cases (x.run.run l).1 <;> rfl

/-- The answer of a sequence is that of the second part, if there is one. -/
theorem answer_bind (l : Ledger) :
    (x >>= f).answer l = (x.answer l).bind fun a => (f a).answer (x.left l) := by
  rw [answer, run_bind]
  cases x.answer l <;> rfl

/-- The ledger behind a sequence is that of its last part that was followed. -/
theorem left_bind (l : Ledger) :
    (x >>= f).left l = (x.answer l).elim (x.left l) fun a => (f a).left (x.left l) := by
  rw [left, run_bind]
  cases x.answer l <;> rfl

/-- Looking the ledger up gives the ledger. -/
theorem answer_get (l : Ledger) : (get : Following Ledger).answer l = some l := rfl

theorem left_get (l : Ledger) : (get : Following Ledger).left l = l := rfl

/-! ## Following only adds -/

/-- Whatever the ledger knew of expressions before, it knows behind what was followed. -/
def Grows (x : Following α) : Prop := ∀ l : Ledger, l.Within (x.left l)

/-- What leaves the expressions as they are adds nothing and loses nothing. -/
theorem grows_of_left (h : ∀ l, (x.left l).expressions = l.expressions) : Grows x := by
  intro l key origins hknown
  rw [h l]
  exact hknown

/-- An answer at hand leaves the ledger as it is. -/
theorem grows_pure (a : α) : Grows (pure a : Following α) := grows_of_left fun _ => rfl

/-- Following ends where the computation failed and leaves what there is. -/
theorem grows_failure : Grows (failure : Following α) := grows_of_left fun _ => rfl

/-- Looking the ledger up changes nothing. -/
theorem grows_get : Grows (get : Following Ledger) := grows_of_left fun _ => rfl

/-- A sequence adds what its parts add, also where the first one fails. -/
theorem Grows.bind (hx : Grows x) (hf : ∀ a, Grows (f a)) : Grows (x >>= f) := by
  intro l
  rw [left_bind]
  cases x.answer l with
  | none => exact hx l
  | some a => exact (hx l).trans (hf a _)

/-- Steps for all items of a list only add if each of them does. -/
theorem grows_forM {walk : α → Following Unit} (items : List α) (h : ∀ a, Grows (walk a)) :
    Grows (items.forM walk) := by
  induction items with
  | nil => exact grows_pure ()
  | cons a rest ih => exact (h a).bind fun _ => ih

/-- A step that is taken only if there is something to follow. -/
theorem grows_ifSome {walk : α → Following Unit} (a? : Option α) (h : ∀ a, Grows (walk a)) :
    Grows (a?.forM walk) := by
  cases a? with
  | none => exact grows_pure ()
  | some a => exact h a

/-- The items of a list are followed one after the other. -/
theorem grows_mapM (items : List α) (h : ∀ a, Grows (f a)) : Grows (items.mapM f) := by
  induction items with
  | nil => exact grows_pure []
  | cons a rest ih =>
    rw [List.mapM_cons]
    exact (h a).bind fun _ => ih.bind fun _ => grows_pure _

/-! ### Resolutions -/

/-- Occasions are counted beside the tables. -/
theorem grows_occasion : Grows occasion := grows_of_left fun _ => rfl

/-- An expression from outside is a new value, which no table names. -/
theorem grows_hold (e : SourcedExpr) : Grows (hold e) := grows_occasion.bind fun _ => grows_pure _

/-- Binding arguments counts an occasion; the values that it makes are in no table yet. -/
theorem grows_bindArgs (name : String) (args : List SharedExpr) : Grows (bindArgs g name args) := by
  unfold bindArgs
  split
  · exact grows_failure
  · exact grows_occasion.bind fun _ => grows_get.bind fun _ => grows_pure _

/-- A schema is entered in a table of its own. -/
theorem grows_enterSchema (b : Bound) : Grows (enterSchema g b) := by
  unfold enterSchema
  split
  · exact grows_failure
  · exact grows_of_left fun _ => rfl

/-- Composing enters schemas only. The induction is on the room for compositions inside
one another. -/
theorem grows_compose (room : Nat) (chain : List Instantiation) (name : String)
    (args : List SharedExpr) : Grows (compose g room chain name args) := by
  induction room generalizing chain name args with
  | zero =>
    rw [compose]
    refine (grows_bindArgs name args).bind fun b => grows_get.bind fun l => ?_
    split
    · exact grows_pure ()
    · exact grows_failure
  | succ room ih =>
    rw [compose]
    refine (grows_bindArgs name args).bind fun b => grows_get.bind fun l => ?_
    split
    · exact grows_pure ()
    · split
      · exact grows_failure
      · -- the members are composed first, and then the schema is entered
        refine Grows.bind (grows_forM _ fun member => ?_) fun _ => grows_enterSchema b
        split
        · exact grows_failure
        · exact ih _ _ _

/-- The schema is found in the memo behind the composition. -/
theorem grows_resolveStruct (name : String) (args : List SharedExpr) :
    Grows (resolveStruct g name args) := by
  unfold resolveStruct
  refine (grows_compose _ _ _ _).bind fun _ => (grows_bindArgs name args).bind fun b => ?_
  split
  · exact grows_pure _
  · exact grows_failure

/-- The value of an alias is the one in its entry, or else the one at hand. -/
theorem answer_first (key : Instantiation) (body : SharedExpr) (l : Ledger) :
    (first key body).answer l =
      some (.expression
        { body with origins := (l.expressions.lookup key).getD body.origins }) := by
  unfold first
  rw [answer_bind, answer_get, left_get, Option.bind_some]
  cases l.expressions.lookup key <;> rfl

/-- An alias leaves an entry, which it makes if there is none. -/
theorem left_first (key : Instantiation) (body : SharedExpr) (l : Ledger) :
    (first key body).left l = (l.expressions.lookup key).elim
      { l with expressions := (key, body.origins) :: l.expressions } fun _ => l := by
  unfold first
  rw [left_bind, answer_get, left_get, Option.elim_some]
  cases l.expressions.lookup key <;> rfl

/-- An alias is entered under a key that has no entry yet. -/
theorem grows_first (key : Instantiation) (body : SharedExpr) : Grows (first key body) := by
  intro l
  rw [left_first]
  cases hknown : l.expressions.lookup key with
  | some origins => exact .refl l
  | none =>
    intro key' origins' hknown'
    have hne : (key' == key) = false := by
      rw [beq_eq_false_iff_ne]
      rintro rfl
      rw [hknown] at hknown'
      cases hknown'
    show List.lookup key' ((key, body.origins) :: l.expressions) = some origins'
    rw [List.lookup_cons, hne]
    exact hknown'

/-- **A resolution adds at most the expression that it resolved to.** -/
theorem grows_resolve (name : String) (args : List SharedExpr) : Grows (resolve g name args) := by
  unfold resolve
  refine (grows_bindArgs name args).bind fun b => ?_
  split
  · exact grows_first _ _
  · exact grows_resolveStruct name args

/-- A type name is resolved; any other expression is its own answer. -/
theorem grows_resolveExpression (e : SharedExpr) : Grows (resolveExpression g e) := by
  unfold resolveExpression
  split
  · exact grows_resolve _ _
  · exact grows_pure _

/-! ### Absence -/

section Absence

variable {named : Question}

mutual
/-- The test for absence goes along names only. -/
theorem grows_absentFits (hnamed : ∀ e, Grows (named e)) :
    (e : TypeExpr) → (o : Origins) → Grows (absentFits named e o)
  | .optional _, _ | .primitive _, _ | .literal _, _ | .enumSet _, _ | .sequence _, _
  | .mapping _, _ => by
    rw [absentFits]
    exact grows_pure _
  | .reference _, _ | .generic _ _, _ => by
    rw [absentFits]
    exact hnamed _
  | .union members, o => by
    rw [absentFits]
    exact grows_absentFitsSome hnamed members o.parts
  | .intersection members, o => by
    rw [absentFits]
    exact grows_absentFitsEach hnamed members o.parts

/-- The members of a union are asked up to the first for which it holds. -/
theorem grows_absentFitsSome (hnamed : ∀ e, Grows (named e)) :
    (es : List TypeExpr) → (os : List Origins) → Grows (absentFitsSome named es os)
  | e :: es, o :: os => by
    rw [absentFitsSome]
    refine (grows_absentFits hnamed e o).bind fun fits => ?_
    split
    · exact grows_pure _
    · exact grows_absentFitsSome hnamed es os
  | [], _ | _ :: _, [] => by
    rw [absentFitsSome]
    · exact grows_pure _
    · simp

/-- The members of an intersection are asked up to the first for which it does not hold. -/
theorem grows_absentFitsEach (hnamed : ∀ e, Grows (named e)) :
    (es : List TypeExpr) → (os : List Origins) → Grows (absentFitsEach named es os)
  | e :: es, o :: os => by
    rw [absentFitsEach]
    refine (grows_absentFits hnamed e o).bind fun fits => ?_
    split
    · exact grows_absentFitsEach hnamed es os
    · exact grows_pure _
  | [], _ | _ :: _, [] => by
    rw [absentFitsEach]
    · exact grows_pure _
    · simp
end

end Absence

/-- The induction is on the names that may still be unfolded. -/
theorem grows_absentFitsName (steps : Nat) (seen : List String) (e : SharedExpr) :
    Grows (absentFitsName g steps seen e) := by
  induction steps generalizing seen e with
  | zero =>
    rw [absentFitsName]
    split
    · exact grows_pure _
    · exact grows_failure
  | succ steps ih =>
    rw [absentFitsName]
    split
    · exact grows_pure _
    · refine (grows_resolveExpression e).bind fun resolved => ?_
      cases resolved with
      | schema s => exact grows_pure _
      | expression e' => exact grows_absentFits (ih _) e'.expression e'.origins

/-- The whole test starts with no name unfolded. -/
theorem grows_admitsAbsence (e : SharedExpr) : Grows (admitsAbsence g e) :=
  grows_absentFits (grows_absentFitsName _ _) e.expression e.origins

/-- The fields of a schema are looked up. -/
theorem grows_fieldsOf (s : ResolvedSchema) : Grows (fieldsOf s) :=
  grows_get.bind fun _ => grows_pure _

/-- Each field is asked whether it may be absent, and the answer is dropped. -/
theorem grows_requiredFields (s : ResolvedSchema) : Grows (requiredFields g s) :=
  (grows_fieldsOf s).bind fun fields => grows_forM fields fun f =>
    (grows_admitsAbsence f.2).bind fun _ => grows_pure _

/-! ### Checks -/

section Checks

variable {n : Nat} {s : Stop n} {named : Walk}

/-- Whether a failure can repeat the value decides only whether following goes on. -/
theorem grows_judged (fits : Bool) : Grows (s.judged fits) := by
  unfold Stop.judged
  split
  · exact grows_pure _
  · exact grows_failure

/-- What a walk does at sequences, at mappings and at names only adds. -/
structure WalkGrows (s : Stop n) (named : Walk) : Prop where
  sequence : ∀ e, Grows (s.atSequence e)
  mapping : ∀ e, Grows (s.atMapping e)
  named : ∀ e, Grows (named e)

mutual
/-- A walk through the check of a value only adds, one case for each kind of type. -/
theorem grows_checkHere (h : WalkGrows s named) :
    (e : TypeExpr) → (o : Origins) → Grows (checkHere s named e o)
  | .primitive _, _ => by
    rw [checkHere]
    exact grows_pure _
  | .literal _, _ | .enumSet _, _ => by
    rw [checkHere]
    exact grows_judged _
  | .optional e, o => by
    rw [checkHere]
    split
    · exact grows_pure _
    · exact grows_forM _ fun p => grows_checkHere h e p
  | .reference _, _ | .generic _ _, _ => by
    rw [checkHere]
    exact h.named _
  | .sequence _, o => by
    rw [checkHere]
    split
    · exact grows_pure _
    · exact grows_forM _ fun _ => h.sequence _
  | .mapping _, o => by
    rw [checkHere]
    split
    · exact grows_pure _
    · exact grows_forM _ fun _ => h.mapping _
  | .union members, o => by
    rw [checkHere]
    split
    · exact grows_pure _
    · exact grows_checkBranches h members o.parts
  | .intersection members, o => by
    rw [checkHere]
    split
    · exact grows_pure _
    · exact grows_checkEach h members o.parts

/-- All operands of an intersection are followed. -/
theorem grows_checkEach (h : WalkGrows s named) :
    (es : List TypeExpr) → (os : List Origins) → Grows (checkEach s named es os)
  | e :: es, o :: os => by
    rw [checkEach]
    exact (grows_checkHere h e o).bind fun _ => grows_checkEach h es os
  | [], _ | _ :: _, [] => by
    rw [checkEach]
    · exact grows_pure _
    · simp

/-- The branches of a union are followed up to the first that fits, which is asked of the check
itself and not of the ledger. -/
theorem grows_checkBranches (h : WalkGrows s named) :
    (es : List TypeExpr) → (os : List Origins) → Grows (checkBranches s named es os)
  | e :: es, o :: os => by
    rw [checkBranches]
    refine (grows_checkHere h e o).bind fun _ => ?_
    split
    · exact grows_pure _
    · exact grows_checkBranches h es os
  | [], _ | _ :: _, [] => by
    rw [checkBranches]
    · exact grows_judged _
    · simp
end

end Checks

/-! ### Whole values -/

section Whole

variable {n : Nat} {heap : Heap (Fin n)} {part : PartWalk n}

/-- A container that is being checked already ends the walk. -/
theorem grows_within {walk : List (Fin n) → Following Unit} (active : List (Fin n)) (p : Fin n)
    (h : ∀ active, Grows (walk active)) : Grows (within active p walk) := by
  unfold within
  split
  · exact grows_failure
  · exact h _

/-- A field that is there is followed as a part, and one that is not as a test for absence. -/
theorem grows_checkStruct (hpart : ∀ active v e, Grows (part active v e)) (active : List (Fin n))
    (v : Value (Fin n)) (s : ResolvedSchema) : Grows (checkStruct g heap part active v s) := by
  refine grows_ifSome _ fun c => grows_within _ _ fun inside => ?_
  refine (grows_fieldsOf s).bind fun fields => grows_forM fields fun f => ?_
  dsimp only
  split
  · exact (grows_admitsAbsence f.2).bind fun _ => grows_pure _
  · exact hpart _ _ _

/-- The items are followed in order. -/
theorem grows_checkSequence (hpart : ∀ active v e, Grows (part active v e))
    (active : List (Fin n)) (v : Value (Fin n)) (inner : SharedExpr) :
    Grows (checkSequence heap part active v inner) := by
  refine grows_ifSome _ fun c => grows_within _ _ fun inside => ?_
  exact grows_forM _ fun item => hpart _ _ _

/-- The entries are followed in order, up to a key that cannot be part of a path. -/
theorem grows_checkMapping (hpart : ∀ active v e, Grows (part active v e))
    (active : List (Fin n)) (v : Value (Fin n)) (inner : SharedExpr) :
    Grows (checkMapping heap part active v inner) := by
  refine grows_ifSome _ fun c => grows_within _ _ fun inside => grows_forM _ fun entry => ?_
  split
  · exact hpart _ _ _
  · exact grows_failure

/-- A name is followed to what it stands for, by induction on the names that may still
be unfolded. -/
theorem grows_checkNamed {s : Stop n} {struct : ResolvedSchema → Following Unit}
    (hsequence : ∀ e, Grows (s.atSequence e)) (hmapping : ∀ e, Grows (s.atMapping e))
    (hstruct : ∀ schema, Grows (struct schema)) (depth : Nat) (e : SharedExpr) :
    Grows (checkNamed g s struct depth e) := by
  induction depth generalizing e with
  | zero =>
    rw [checkNamed]
    exact grows_failure
  | succ depth ih =>
    rw [checkNamed]
    refine (grows_resolveExpression e).bind fun resolved => ?_
    cases resolved with
    | schema schema => exact hstruct schema
    | expression e' =>
      exact grows_checkHere ⟨hsequence, hmapping, ih⟩ e'.expression e'.origins

/-- **A walk through a check only adds**, by induction on the containers that may still
be entered. -/
theorem grows_checkExpr (room : Nat) (active : List (Fin n)) (v : Value (Fin n))
    (e : SharedExpr) : Grows (checkExpr g heap room active v e) := by
  induction room generalizing active v e with
  | zero =>
    rw [checkExpr]
    exact grows_failure
  | succ room ih =>
    rw [checkExpr]
    have hsequence (e : SharedExpr) :
        Grows (checkSequence heap (checkExpr g heap room) active v e) :=
      grows_checkSequence ih active v e
    have hmapping (e : SharedExpr) : Grows (checkMapping heap (checkExpr g heap room) active v e) :=
      grows_checkMapping ih active v e
    -- one layer here, the containers in the room that is left
    refine grows_checkHere ⟨hsequence, hmapping, fun e => ?_⟩ e.expression e.origins
    exact grows_checkNamed hsequence hmapping (grows_checkStruct ih active v) _ e

/-- The walk through the check of a whole value. -/
theorem grows_checkAnswer (v : Value (Fin n)) (answer : SharedAnswer) :
    Grows (checkAnswer g heap v answer) := by
  cases answer with
  | schema s => exact grows_checkStruct (grows_checkExpr n) [] v s
  | expression e => exact grows_checkExpr (n + 1) [] v e

end Whole

end Following

end WidgetSchema
