/-
What the bound on the names counts.

A check unfolds at one value no more names, one inside the other, than the bound allows.
It counts them from the expression it is given. A type that is asked for by its name is
resolved before the check begins, and that unfolding is not counted (`checkLed_eq`): by its
name a type gets one unfolding more than by a reference to it.

Two checks, one of which may unfold a name more, run alike unless the smaller one is stopped
at the end of a row of names that is longer than its bound (`checkNamed_agrees`). Where each
name stands for the next one alone, the row is the way on which they unfold, and its length
decides how each of the two ends (`checkNamed_stops`, `checkNamed_reaches`).
-/
import WidgetSchema.Proofs.AbsenceTermination
import WidgetSchema.Proofs.StructArrivals

set_option autoImplicit false

namespace WidgetSchema

/-! ## Rows of names -/

namespace TypeExpr

mutual
/-- The names in the expression that are checked at the value of the expression itself:
those that stand in no sequence, no mapping and no arguments. -/
def facing : TypeExpr → List TypeExpr
  | reference name => [reference name]
  | generic base args => [generic base args]
  | optional inner => facing inner
  | union members | intersection members => facingEach members
  | primitive _ | literal _ | enumSet _ | sequence _ | mapping _ => []

/-- The names that face the value in one of the expressions. -/
def facingEach : List TypeExpr → List TypeExpr
  | [] => []
  | e :: es => facing e ++ facingEach es
end

/-- A type name faces itself. -/
theorem facing_name {e : TypeExpr} {i : Instantiation} (hi : e.instantiation? = some i) :
    e.facing = [e] := by
  cases e with
  | reference | generic => rw [facing]
  | _ => cases hi

mutual
/-- Only type names are faced. -/
theorem instantiation_of_facing {e' : TypeExpr} :
    (e : TypeExpr) → e' ∈ e.facing → ∃ i, e'.instantiation? = some i
  | reference name, h | generic base args, h => by
    rw [facing, List.mem_singleton] at h
    rw [h]
    exact ⟨_, rfl⟩
  | optional inner, h => by
    rw [facing] at h
    exact instantiation_of_facing inner h
  | union members, h | intersection members, h => by
    rw [facing] at h
    exact instantiation_of_facingEach members h
  | primitive _, h | literal _, h | enumSet _, h | sequence _, h | mapping _, h => by
    rw [facing] at h
    cases h

/-- The same for the members of a list. -/
theorem instantiation_of_facingEach {e' : TypeExpr} :
    (es : List TypeExpr) → e' ∈ facingEach es → ∃ i, e'.instantiation? = some i
  | [], h => by
    rw [facingEach] at h
    cases h
  | e :: es, h => by
    rw [facingEach, List.mem_append] at h
    rcases h with h | h
    · exact instantiation_of_facing e h
    · exact instantiation_of_facingEach es h
end

end TypeExpr

/-- Nothing is left to be unfolded at the value: a schema, or an expression in which no name
faces the value. -/
def Resolved.FacesNone (r : Resolved) : Prop := ∀ e, r = .expression e → e.facing = []

namespace Composer

variable {c : Composer} {i : Instantiation} {e e' last : TypeExpr} {chain : List TypeExpr}
  {r : Resolved} {length : Nat} {memo : Memo}

/-- The first name denotes an expression in which the second one faces the value. -/
def Faces (c : Composer) (e₁ e₂ : TypeExpr) : Prop :=
  ∃ i e, e₁.instantiation? = some i ∧ c.Denotes i (.expression e) ∧ e₂ ∈ e.facing

/-- So many names, beginning with this one, can be unfolded one inside the other at one
value; of the last one it is not asked what it denotes. -/
def HasRow (c : Composer) (e : TypeExpr) (length : Nat) : Prop :=
  ∃ names : List TypeExpr, names.length = length ∧ names.head? = some e ∧ names.IsChain c.Faces

/-- Any expression is a row by itself. -/
theorem hasRow_one (e : TypeExpr) : c.HasRow e 1 := ⟨[e], rfl, rfl, .singleton e⟩

/-- A row of what a name stands for is one longer as a row of the name. -/
theorem HasRow.cons {body : TypeExpr} (hi : e.instantiation? = some i)
    (hdenotes : c.Denotes i (.expression body)) (he' : e' ∈ body.facing)
    (h : c.HasRow e' length) : c.HasRow e (length + 1) := by
  obtain ⟨names, rfl, hhead, hsteps⟩ := h
  refine ⟨e :: names, List.length_cons, rfl, List.isChain_cons.2 ⟨?_, hsteps⟩⟩
  intro next hnext
  rw [hhead] at hnext
  cases hnext
  exact ⟨i, body, hi, hdenotes, he'⟩

/-- Where a name unfolds to what leaves no name, the way of the unfolding is the longest row. -/
theorem HasRow.le_of_unfolds {names : List TypeExpr} (hu : c.Unfolds e chain r)
    (hr : r.FacesNone) (hsteps : names.IsChain c.Faces)
    (hstart : ∀ first ∈ names.head?, first ∈ e.facing) : names.length ≤ chain.length := by
  induction hu generalizing names with
  | @plain e he =>
    cases names with
    | nil => exact Nat.zero_le _
    | cons first rest =>
      have hfirst := hstart first rfl
      rw [hr e rfl] at hfirst
      cases hfirst
  | @struct e i s hi hdenotes =>
    cases names with
    | nil => exact Nat.zero_le _
    | cons first rest =>
      cases rest with
      | nil => exact Nat.le_refl _
      | cons second rest =>
        -- a struct faces nothing
        have hfirst := hstart first rfl
        rw [TypeExpr.facing_name hi, List.mem_singleton] at hfirst
        obtain ⟨j, body, hj, hbody, -⟩ := (List.isChain_cons.1 hsteps).1 second rfl
        rw [hfirst, hi] at hj
        cases hj
        cases hdenotes.unique hbody
  | @next e e' i chain r hi hdenotes _ ih =>
    cases names with
    | nil => exact Nat.zero_le _
    | cons first rest =>
      have hfirst := hstart first rfl
      rw [TypeExpr.facing_name hi, List.mem_singleton] at hfirst
      obtain ⟨hnext, hrest⟩ := List.isChain_cons.1 hsteps
      refine Nat.succ_le_succ (ih hr hrest fun second hsecond => ?_)
      obtain ⟨j, body, hj, hbody, hmem⟩ := hnext second hsecond
      rw [hfirst, hi] at hj
      cases hj
      cases hdenotes.unique hbody
      exact hmem

/-- A name that unfolds to something without names in it has no longer row than its unfolding. -/
theorem HasRow.le_unfolding (hu : c.Unfolds e chain r) (hr : r.FacesNone)
    (hi : e.instantiation? = some i) (h : c.HasRow e length) : length ≤ chain.length := by
  obtain ⟨names, rfl, hhead, hsteps⟩ := h
  refine HasRow.le_of_unfolds hu hr hsteps fun first hfirst => ?_
  rw [hhead] at hfirst
  cases hfirst
  rw [TypeExpr.facing_name hi]
  exact List.mem_singleton_self e

/-- What has names on its way is a name itself. -/
theorem Unfolds.exists_instantiation (hu : c.Unfolds e chain r) (hne : chain ≠ []) :
    ∃ i, e.instantiation? = some i := by
  cases hu with
  | plain _ => exact absurd rfl hne
  | struct hi _ | next hi _ _ => exact ⟨_, hi⟩

/-- The last name on a way denotes what the way leads to. -/
theorem Unfolds.last_denotes {front : List TypeExpr} (hu : c.Unfolds e chain r)
    (hchain : chain = front ++ [last]) :
    ∃ i, last.instantiation? = some i ∧ c.Denotes i r := by
  induction hu generalizing front with
  | plain _ => cases front <;> cases hchain
  | struct hi hdenotes =>
    cases front with
    | nil =>
      cases hchain
      exact ⟨_, hi, hdenotes⟩
    | cons first rest =>
      rw [List.cons_append, List.cons.injEq] at hchain
      cases rest <;> cases hchain.2
  | next hi hdenotes hu ih =>
    cases front with
    | nil =>
      cases hchain
      cases hu
      exact ⟨_, hi, hdenotes⟩
    | cons first rest =>
      rw [List.cons_append, List.cons.injEq] at hchain
      exact ih hchain.2

/-- The check was stopped by the bound, and this many names can be unfolded. -/
def StopsAlong (c : Composer) (e : TypeExpr) (length : Nat) (err : Fault) : Prop :=
  c.HasRow e length ∧ ∃ label, err = .schema (.resolutionDepth label c.maxDepth)

/-- What stops along the body of an alias stops along the alias, one step later. -/
theorem StopsAlong.cons {body : TypeExpr} {err : Fault} (hi : e.instantiation? = some i)
    (hdenotes : c.Denotes i (.expression body)) (he' : e' ∈ body.facing)
    (h : c.StopsAlong e' length err) : c.StopsAlong e (length + 1) err :=
  ⟨h.1.cons hi hdenotes he', h.2⟩

end Composer

/-! ## One unfolding more -/

/-- Whatever only resolves leaves a right memo. -/
theorem Composer.OnlyResolves.keeps_soundFor {c : Composer} {α : Type}
    {x : Action Fault Memo α} (h : c.OnlyResolves x) : x.Keeps (Memo.SoundFor · c) := by
  refine h.keeps fun e => ?_
  unfold Composer.resolveExpression
  cases e.instantiation? with
  | none => exact Action.keeps_pure _
  | some i => exact fun memo hm => (Composer.resolve_denotes hm).1

namespace Checking

open WidgetSchema.Action (AgreesFrom)

variable {n : Nat} {c : Composer} {heap : Heap (Fin n)} {E : Fault → Prop} {s : Site n}
  {named named' : TypeExpr → Check} {struct : ResolvedSchema → Check} {i : Instantiation}
  {e last : TypeExpr} {chain : List TypeExpr} {r : Resolved} {memo : Memo} {v : Value (Fin n)}

/-- From right memos the second check runs as the first one, unless that ends with an
error in `E`. -/
def ChecksAlike (c : Composer) (E : Fault → Prop) {α : Type} (x y : Action Fault Memo α) :
    Prop :=
  AgreesFrom (Memo.SoundFor · c) E x y

/-- A check is like itself, as it keeps right memos right. -/
theorem ChecksAlike.refl {α : Type} {x : Action Fault Memo α} (hx : c.OnlyResolves x) :
    ChecksAlike c E x x :=
  AgreesFrom.refl hx.keeps_soundFor

/-- Whether there is a value at all is asked in front of either check. -/
theorem ChecksAlike.present {check check' : Check} (type : TypeExpr)
    (h : ChecksAlike c E check check') :
    ChecksAlike c E (s.present type check) (s.present type check') := by
  unfold Site.present
  split
  · exact .refl (.pure _)
  · exact h

/-- What is done at sequences and at mappings only resolves. -/
structure SiteResolves (c : Composer) (s : Site n) : Prop where
  sequence : ∀ inner, c.OnlyResolves (s.atSequence inner)
  mapping : ∀ inner, c.OnlyResolves (s.atMapping inner)

mutual
/-- Checks of an expression are alike if they are on the names that face the value. -/
theorem checkHere_agrees (hs : SiteResolves c s) :
    (e : TypeExpr) → (∀ e' ∈ e.facing, ChecksAlike c E (named e') (named' e')) →
      ChecksAlike c E (checkHere s named e) (checkHere s named' e)
  | .reference name, h | .generic base args, h => by
    rw [checkHere, checkHere]
    rw [TypeExpr.facing] at h
    exact h _ (List.mem_singleton_self _)
  | .optional inner, h => by
    rw [checkHere, checkHere]
    rw [TypeExpr.facing] at h
    split
    · exact .refl (.pure _)
    · exact checkHere_agrees hs inner h
  | .primitive kind, _ => by
    rw [checkHere, checkHere]
    exact .refl (onlyResolves_checkPrimitive _ _ _)
  | .literal t, _ | .enumSet values, _ => by
    rw [checkHere, checkHere]
    exact .refl (onlyResolves_present _ (onlyResolves_checkLiterals _ _))
  | .sequence inner, _ => by
    rw [checkHere, checkHere]
    exact .refl (onlyResolves_present _ (hs.sequence inner))
  | .mapping inner, _ => by
    rw [checkHere, checkHere]
    exact .refl (onlyResolves_present _ (hs.mapping inner))
  | .union members, h => by
    rw [checkHere, checkHere]
    rw [TypeExpr.facing] at h
    refine ChecksAlike.present _ (AgreesFrom.bind (checkBranches_agrees hs members h) ?_)
    intro attempts
    cases attempts with
    | none => exact ChecksAlike.refl (.pure _)
    | some attempts => exact ChecksAlike.refl (onlyResolves_refuse _)
  | .intersection members, h => by
    rw [checkHere, checkHere]
    rw [TypeExpr.facing] at h
    exact ChecksAlike.present _ (checkEach_agrees hs members h)

/-- The same for the branches of a union, of which each is judged alike. -/
theorem checkBranches_agrees (hs : SiteResolves c s) :
    (es : List TypeExpr) →
      (∀ e' ∈ TypeExpr.facingEach es, ChecksAlike c E (named e') (named' e')) →
      ChecksAlike c E (checkBranches s named es) (checkBranches s named' es)
  | [], _ => by
    rw [checkBranches, checkBranches]
    exact .refl (.pure _)
  | e :: es, h => by
    rw [checkBranches, checkBranches]
    rw [TypeExpr.facingEach, List.forall_mem_append] at h
    refine AgreesFrom.bind (checkHere_agrees hs e h.1) fun failures => ?_
    cases failures with
    | nil => exact ChecksAlike.refl (.pure _)
    | cons f rest =>
      exact AgreesFrom.bind (checkBranches_agrees hs es h.2) fun _ => ChecksAlike.refl (.pure _)

/-- And for the operands of an intersection. -/
theorem checkEach_agrees (hs : SiteResolves c s) :
    (es : List TypeExpr) →
      (∀ e' ∈ TypeExpr.facingEach es, ChecksAlike c E (named e') (named' e')) →
      ChecksAlike c E (checkEach s named es) (checkEach s named' es)
  | [], _ => by
    rw [checkEach, checkEach]
    exact .refl (.pure _)
  | e :: es, h => by
    rw [checkEach, checkEach]
    rw [TypeExpr.facingEach, List.forall_mem_append] at h
    refine AgreesFrom.bind (checkHere_agrees hs e h.1) fun here => ?_
    exact AgreesFrom.bind (checkEach_agrees hs es h.2) fun _ => ChecksAlike.refl (.pure _)
end

/-- **One unfolding more makes no difference, unless the bound stops the check at the end of
a row that is too long for it.** The induction is on the unfoldings. -/
theorem checkNamed_agrees (hs : SiteResolves c s) (hstruct : ∀ t, c.OnlyResolves (struct t))
    (depth : Nat) (hi : e.instantiation? = some i) :
    ChecksAlike c (c.StopsAlong e (depth + 1)) (checkNamed c s struct depth e)
      (checkNamed c s struct (depth + 1) e) := by
  induction depth generalizing e i with
  | zero =>
    rw [checkNamed]
    exact AgreesFrom.fail ⟨Composer.hasRow_one e, _, rfl⟩
  | succ depth ih =>
    have hdenotes := Composer.resolveExpression_yields_schemaError (c := c) hi
    rw [checkNamed, checkNamed]
    refine AgreesFrom.bind_of (ChecksAlike.refl (.resolve e)) hdenotes.returns fun t ht => ?_
    cases t with
    | schema t => exact ChecksAlike.refl (hstruct t)
    | expression body =>
      refine checkHere_agrees hs body fun e' he' => ?_
      obtain ⟨i', hi'⟩ := TypeExpr.instantiation_of_facing body he'
      exact AgreesFrom.allow (ih hi') fun _ hstops => hstops.cons hi ht.1 he'

/-! ## Along an alias -/

/-- An alias of an expression is unfolded from every right memo, and no schema is entered. -/
theorem unfold_alias {e' : TypeExpr} (hm : memo.SoundFor c) (hi : e.instantiation? = some i)
    (hdenotes : c.Denotes i (.expression e')) (f : Resolved → Check) :
    ∃ memo', memo'.SoundFor c ∧ memo'.schemas = memo.schemas ∧
      (((c.resolveExpression e).mapError Fault.schema >>= f).run memo).outcome =
        ((f (.expression e')).run memo').outcome := by
  obtain ⟨houtcome, hsound⟩ := Composer.resolveExpression_of_denotes hm hi hdenotes
  refine ⟨_, hsound, ?_, ?_⟩
  · cases hdenotes with
    | expression hd hplain =>
      unfold Composer.resolveExpression
      rw [hi]
      exact (Composer.resolve_plain hm hd hplain).2
  · rw [Action.outcome_bind, houtcome]

/-- A way that is longer than the bound stops the check at the name that would be one too many. -/
theorem checkNamed_stops (hu : c.Unfolds e chain r) (depth : Nat)
    (hlast : chain[depth]? = some last) (hm : memo.SoundFor c) :
    ((checkNamed c s struct depth e).run memo).outcome =
      .error (.schema (.resolutionDepth last.render c.maxDepth)) := by
  induction hu generalizing depth memo with
  | plain _ => cases hlast
  | struct _ _ =>
    cases depth with
    | zero =>
      cases hlast
      rw [checkNamed]
      rfl
    | succ depth => cases hlast
  | @next e e' i chain r hi hdenotes hu ih =>
    cases depth with
    | zero =>
      cases hlast
      rw [checkNamed]
      rfl
    | succ depth =>
      rw [List.getElem?_cons_succ] at hlast
      rw [checkNamed]
      -- one unfolding takes one name of the way and one of the bound
      obtain ⟨memo', hm', -, hrun⟩ := unfold_alias hm hi hdenotes _
      rw [hrun]
      dsimp only
      obtain ⟨j, hj⟩ := hu.exists_instantiation (List.ne_nil_of_mem (List.mem_of_getElem? hlast))
      rw [checkHere_name hj]
      exact ih depth hlast hm'

/-- A way that ends within the bound leads the check to its last name. -/
theorem checkNamed_reaches (hu : c.Unfolds e chain r) {front : List TypeExpr}
    (hchain : chain = front ++ [last]) (depth : Nat) (hm : memo.SoundFor c) :
    ∃ memo', memo'.SoundFor c ∧ memo'.schemas = memo.schemas ∧
      ((checkNamed c s struct (front.length + depth) e).run memo).outcome =
        ((checkNamed c s struct depth last).run memo').outcome := by
  induction hu generalizing front memo with
  | plain _ => cases front <;> cases hchain
  | struct _ _ =>
    cases front with
    | nil =>
      cases hchain
      rw [List.length_nil, Nat.zero_add]
      exact ⟨memo, hm, rfl, rfl⟩
    | cons first rest =>
      rw [List.cons_append, List.cons.injEq] at hchain
      cases rest <;> cases hchain.2
  | @next e e' i chain r hi hdenotes hu ih =>
    cases front with
    | nil =>
      rw [List.nil_append, List.cons.injEq] at hchain
      rw [hchain.1, List.length_nil, Nat.zero_add]
      exact ⟨memo, hm, rfl, rfl⟩
    | cons first rest =>
      rw [List.cons_append, List.cons.injEq] at hchain
      rw [List.length_cons, Nat.add_right_comm, checkNamed]
      -- the first name is unfolded, and what it stands for is a name again
      obtain ⟨memo₁, hm₁, hschemas₁, hrun₁⟩ := unfold_alias hm hi hdenotes _
      rw [hrun₁]
      dsimp only
      obtain ⟨j, hj⟩ := hu.exists_instantiation (hchain.2 ▸ List.concat_ne_nil last rest)
      rw [checkHere_name hj]
      obtain ⟨memo₂, hm₂, hschemas₂, hrun₂⟩ := ih hchain.2 hm₁
      exact ⟨memo₂, hm₂, hschemas₂.trans hschemas₁, hrun₂⟩

/-! ## At the root -/

/-- The site of a whole value. -/
def rootSite (c : Composer) (heap : Heap (Fin n)) (v : Value (Fin n)) : Site n where
  heap := heap
  path := .root
  value := v
  atSequence := checkSequence heap (checkPart c heap n) [] .root v
  atMapping := checkMapping heap (checkPart c heap n) [] .root v

/-- A whole value against a name; `depth` names may be unfolded, this one among them. -/
def checkCounted (c : Composer) (heap : Heap (Fin n)) (v : Value (Fin n)) (depth : Nat)
    (e : TypeExpr) : Check :=
  checkNamed c (rootSite c heap v) (checkStruct c heap (checkPart c heap n) [] .root v) depth e

/-- A whole value against what a name resolves to, which is asked for before the check begins. -/
def checkLed (c : Composer) (heap : Heap (Fin n)) (v : Value (Fin n)) (e : TypeExpr) : Check := do
  let r ← (c.resolveExpression e).mapError Fault.schema
  checkRoot c heap v (.ofResolved r)

/-- At the root the checks of containers only resolve, as everywhere. -/
theorem siteResolves_root (c : Composer) (heap : Heap (Fin n)) (v : Value (Fin n)) :
    SiteResolves c (rootSite c heap v) where
  sequence inner := onlyResolves_checkSequence (onlyResolves_checkPart c n) _ _ _ inner
  mapping inner := onlyResolves_checkMapping (onlyResolves_checkPart c n) _ _ _ inner

/-- So does the check against a schema. -/
theorem onlyResolves_rootStruct (t : ResolvedSchema) :
    c.OnlyResolves (checkStruct c heap (checkPart c heap n) [] .root v t) :=
  onlyResolves_checkStruct (onlyResolves_checkPart c n) _ _ _ t

/-- The check against a reference counts its name. -/
theorem checkRoot_name (hi : e.instantiation? = some i) :
    checkRoot c heap v (.expression e) = checkCounted c heap v c.maxDepth e :=
  checkHere_name hi

/-- **Resolving a name before the check begins is one unfolding more.** -/
theorem checkLed_eq (e : TypeExpr) :
    checkLed c heap v e = checkCounted c heap v (c.maxDepth + 1) e := by
  unfold checkLed checkCounted
  rw [checkNamed]
  congr 1
  funext r
  cases r <;> rfl

/-- By its name a type is checked as by a reference to it, unless that check is stopped at
the end of a row of names that is longer than the bound. -/
theorem checkLed_agrees (heap : Heap (Fin n)) (v : Value (Fin n)) (hi : e.instantiation? = some i) :
    ChecksAlike c (c.StopsAlong e (c.maxDepth + 1)) (checkRoot c heap v (.expression e))
      (checkLed c heap v e) := by
  rw [checkRoot_name hi, checkLed_eq]
  exact checkNamed_agrees (siteResolves_root c heap v) onlyResolves_rootStruct c.maxDepth hi

/-- With one unfolding left, the last name of a way is checked as by its name. -/
theorem checkCounted_one (hi : e.instantiation? = some i)
    (hfaces : ∀ t, c.Denotes i t → t.FacesNone) (hm : memo.SoundFor c) :
    (checkCounted c heap v 1 e).run memo = (checkLed c heap v e).run memo := by
  have hdenotes := Composer.resolveExpression_yields_schemaError (c := c) hi
  have halike : ChecksAlike c (fun _ => False) (checkCounted c heap v 1 e)
      (checkLed c heap v e) := by
    rw [checkLed_eq]
    unfold checkCounted
    rw [checkNamed, checkNamed]
    refine AgreesFrom.bind_of (ChecksAlike.refl (.resolve e)) hdenotes.returns fun t ht => ?_
    cases t with
    | schema t => exact ChecksAlike.refl (onlyResolves_rootStruct t)
    | expression body =>
      refine checkHere_agrees (siteResolves_root c heap v) body fun e' he' => ?_
      rw [hfaces _ ht.1 body rfl] at he'
      cases he'
  rcases halike.agrees memo hm with ⟨-, -, hnever⟩ | hsame
  · exact hnever.elim
  · exact hsame

end Checking

namespace Composer

open Checking

variable {n : Nat} {c : Composer} {heap : Heap (Fin n)} {v : Value (Fin n)} {e last : TypeExpr}
  {i : Instantiation} {chain : List TypeExpr} {r : Resolved} {memo : Memo}

/-- The verdict on a value against what a name resolves to. -/
def validateLed (c : Composer) (heap : Heap (Fin n)) (v : Value (Fin n)) (e : TypeExpr) :
    Action Fault Memo Verdict := do
  let r ← (c.resolveExpression e).mapError Fault.schema
  c.validate heap v (.ofResolved r)

/-- A verdict ends as the check that it is made of. -/
theorem validate_ends (c : Composer) (heap : Heap (Fin n)) (v : Value (Fin n)) (t : Target)
    (memo : Memo) :
    ((c.validate heap v t).run memo).outcome =
        ((checkRoot c heap v t).run memo).outcome.map Verdict.mk ∧
      ((c.validate heap v t).run memo).state = ((checkRoot c heap v t).run memo).state := by
  unfold validate
  rw [Action.outcome_bind, Action.state_bind]
  cases ((checkRoot c heap v t).run memo).outcome with
  | error err => exact ⟨rfl, rfl⟩
  | ok failures => exact ⟨rfl, rfl⟩

/-- A verdict is made of the failures that a check returns. -/
theorem validateLed_ends (c : Composer) (heap : Heap (Fin n)) (v : Value (Fin n)) (e : TypeExpr)
    (memo : Memo) :
    ((c.validateLed heap v e).run memo).outcome =
        ((checkLed c heap v e).run memo).outcome.map Verdict.mk ∧
      ((c.validateLed heap v e).run memo).state = ((checkLed c heap v e).run memo).state := by
  unfold validateLed checkLed
  simp only [Action.outcome_bind, Action.state_bind]
  cases (((c.resolveExpression e).mapError Fault.schema).run memo).outcome with
  | error err => exact ⟨rfl, rfl⟩
  | ok r => exact validate_ends c heap v _ _

/-- **By its name and by a reference to it a type gives one verdict**, unless the bound is
met on a row of names that is longer. -/
theorem validateLed_alike (hi : e.instantiation? = some i) (hm : memo.SoundFor c) :
    (((c.validateLed heap v e).run memo).state =
          ((c.validate heap v (.expression e)).run memo).state ∧
        ((c.validateLed heap v e).run memo).outcome =
          ((c.validate heap v (.expression e)).run memo).outcome) ∨
      c.HasRow e (c.maxDepth + 1) ∧ ∃ label,
        ((c.validate heap v (.expression e)).run memo).outcome =
          .error (.schema (.resolutionDepth label c.maxDepth)) := by
  obtain ⟨houtcome, hstate⟩ := validateLed_ends c heap v e memo
  obtain ⟨houtcome', hstate'⟩ := validate_ends c heap v (.expression e) memo
  rw [houtcome, hstate, houtcome', hstate']
  rcases (checkLed_agrees heap v hi).agrees memo hm with
    ⟨err, herr, hrow, label, rfl⟩ | hsame
  · refine .inr ⟨hrow, label, ?_⟩
    rw [herr]
    rfl
  · rw [hsame]
    exact .inl ⟨rfl, rfl⟩

/-- One name above the bound stops the check against a reference. -/
theorem validate_stops {beyond : TypeExpr} (hi : e.instantiation? = some i)
    (hu : c.Unfolds e chain r) (hbeyond : chain[c.maxDepth]? = some beyond)
    (hm : memo.SoundFor c) :
    ((c.validate heap v (.expression e)).run memo).outcome =
      .error (.schema (.resolutionDepth beyond.render c.maxDepth)) := by
  rw [(validate_ends c heap v _ memo).1, checkRoot_name hi, checkCounted,
    checkNamed_stops hu c.maxDepth hbeyond hm]
  rfl

/-- Two names above it stop the check by the name. -/
theorem validateLed_stops {beyond : TypeExpr} (hu : c.Unfolds e chain r)
    (hbeyond : chain[c.maxDepth + 1]? = some beyond) (hm : memo.SoundFor c) :
    ((c.validateLed heap v e).run memo).outcome =
      .error (.schema (.resolutionDepth beyond.render c.maxDepth)) := by
  rw [(validateLed_ends c heap v e memo).1, checkLed_eq, checkCounted,
    checkNamed_stops hu (c.maxDepth + 1) hbeyond hm]
  rfl

/-- With one name above the bound, the check by the name comes to that name and ends as it
does by itself. -/
theorem validateLed_reaches {front : List TypeExpr} (hu : c.Unfolds e chain r)
    (hr : r.FacesNone) (hchain : chain = front ++ [last]) (hlength : front.length = c.maxDepth)
    (hm : memo.SoundFor c) :
    ∃ memo', memo'.SoundFor c ∧ memo'.schemas = memo.schemas ∧
      ((c.validateLed heap v e).run memo).outcome =
        ((c.validateLed heap v last).run memo').outcome := by
  obtain ⟨j, hj, hdenotes⟩ := hu.last_denotes hchain
  have hreaches : ∃ memo', memo'.SoundFor c ∧ memo'.schemas = memo.schemas ∧
      ((checkCounted c heap v (front.length + 1) e).run memo).outcome =
        ((checkCounted c heap v 1 last).run memo').outcome :=
    checkNamed_reaches hu hchain 1 hm
  obtain ⟨memo', hm', hschemas, hrun⟩ := hreaches
  refine ⟨memo', hm', hschemas, ?_⟩
  have hlast : (checkCounted c heap v 1 last).run memo' = (checkLed c heap v last).run memo' :=
    checkCounted_one hj (fun t ht => ht.unique hdenotes ▸ hr) hm'
  rw [(validateLed_ends c heap v e memo).1, (validateLed_ends c heap v last memo').1, checkLed_eq,
    ← hlength, hrun, ← hlast]

end Composer

namespace Session

open Composer in
/-- **A type that is named to the check gets one unfolding more than a reference to it.** Let
there be any history of calls on a new session, any value and any name.

The check by the name and the check against the reference end alike, in the same state,
unless the second one is stopped by the bound, and then more names can be unfolded at the
value, one inside the other, than the bound allows.

Where the name leads along a chain of aliases to a struct or to an expression in which no
name faces the value, the length of the chain decides. Within the bound the two agree. If the
chain is longer, the reference ends with the error on the depth, at the first name above
the bound. By its name the type gets there: if that name is the last one, the check ends
as that name does by itself, and otherwise with the error, at the name after it. -/
theorem name_unfolds_once_more (env : Environment) (maxDepth : Option Int) (prelude : Bool)
    (history : List Call) (value : ValueGraph) (name : String) :
    let s := (opened env maxDepth prelude).after history
    let c := s.composer
    let byName := (validateNamed value name).run s
    let byReference := (validate value (.expression (.reference name))).run s
    ((byName.state = byReference.state ∧ byName.outcome = byReference.outcome) ∨
      c.HasRow (.reference name) (s.maxDepth + 1) ∧
        ∃ label, byReference.outcome = .error (.schema (.resolutionDepth label s.maxDepth))) ∧
    ∀ chain r, c.Unfolds (.reference name) chain r → r.FacesNone →
      (chain.length ≤ s.maxDepth →
        byName.state = byReference.state ∧ byName.outcome = byReference.outcome) ∧
      (∀ beyond, chain[s.maxDepth]? = some beyond →
        byReference.outcome = .error (.schema (.resolutionDepth beyond.render s.maxDepth))) ∧
      (∀ front last, chain = front ++ [last] → front.length = s.maxDepth →
        ∃ memo, memo.SoundFor c ∧ memo.schemas = s.memo.schemas ∧
          byName.outcome = ((c.validateLed value.heap value.root last).run memo).outcome) ∧
      ∀ beyond, chain[s.maxDepth + 1]? = some beyond →
        byName.outcome = .error (.schema (.resolutionDepth beyond.render s.maxDepth)) := by
  intro s c byName byReference
  have hsound : s.memo.SoundFor c := lasting_soundFor.after env maxDepth prelude history
  have hi : (TypeExpr.reference name).instantiation? = some ⟨name, []⟩ := rfl
  have halike : (byName.state = byReference.state ∧ byName.outcome = byReference.outcome) ∨
      c.HasRow (.reference name) (s.maxDepth + 1) ∧ ∃ label,
        byReference.outcome = .error (.schema (.resolutionDepth label s.maxDepth)) := by
    refine (validateLed_alike hi hsound).imp_left fun hsame => ⟨?_, hsame.2⟩
    exact congrArg (fun memo => { s with memo := memo }) hsame.1
  refine ⟨halike, fun chain r hu hr => ⟨fun hlength => ?_, ?_, ?_, ?_⟩⟩
  · refine halike.resolve_right fun hstops => ?_
    -- a row longer than the bound would be longer than the chain
    have hrow := hstops.1.le_unfolding hu hr hi
    omega
  · exact fun beyond hbeyond => validate_stops hi hu hbeyond hsound
  · exact fun front last hchain hlength => validateLed_reaches hu hr hchain hlength hsound
  · exact fun beyond hbeyond => validateLed_stops hu hbeyond hsound

/-- An alias of a kind and an alias of that alias. -/
def outerAndInner : List Call :=
  [.register "Inner" (.atom (.text "number")), .register "Outer" (.atom (.text "Inner"))]

/-- With a bound of two both aliases may be unfolded, and the number is accepted by the name
and by the reference. With a bound of one the reference ends at the inner alias. -/
theorem outer_unfolds_to_inner :
    let value := ValueGraph.ofDatum (.atom (.int 1))
    let wide := (opened .empty (some 2) false).after outerAndInner
    let narrow := (opened .empty (some 1) false).after outerAndInner
    (((validateNamed value "Outer").run wide).outcome =
      ((validate value (.expression (.reference "Outer"))).run wide).outcome) ∧
    ((validate value (.expression (.reference "Outer"))).run narrow).outcome =
      .error (.schema (.resolutionDepth "Inner" 1)) ∧
    ∃ memo, memo.SoundFor narrow.composer ∧ ((validateNamed value "Outer").run narrow).outcome =
      ((narrow.composer.validateLed value.heap value.root (.reference "Inner")).run
        memo).outcome := by
  intro value wide narrow
  have hunfolds (bound : Option Int) :
      ((opened .empty bound false).after outerAndInner).composer.Unfolds (.reference "Outer")
        [.reference "Outer", .reference "Inner"] (.expression (.primitive "number")) := by
    have houter : ((opened .empty bound false).after outerAndInner).composer.complete
        ⟨"Outer", []⟩ = .ok (.ofAlias ⟨"Outer", .reference "Inner", []⟩, [], ⟨"Outer", []⟩) := rfl
    have hinner : ((opened .empty bound false).after outerAndInner).composer.complete
        ⟨"Inner", []⟩ = .ok (.ofAlias ⟨"Inner", .primitive "number", []⟩, [], ⟨"Inner", []⟩) := rfl
    exact .next rfl (.expression houter rfl) (.next rfl (.expression hinner rfl) (.plain rfl))
  have hfaces : (Resolved.expression (.primitive "number")).FacesNone := by
    intro e he
    cases he
    rw [TypeExpr.facing]
  obtain ⟨-, hwide⟩ :=
    name_unfolds_once_more .empty (some 2) false outerAndInner value "Outer"
  obtain ⟨-, hnarrow⟩ :=
    name_unfolds_once_more .empty (some 1) false outerAndInner value "Outer"
  obtain ⟨hsame, -⟩ := hwide _ _ (hunfolds (some 2)) hfaces
  obtain ⟨-, hbeyond, hreaches, -⟩ := hnarrow _ _ (hunfolds (some 1)) hfaces
  obtain ⟨memo, hsound, -, hend⟩ := hreaches [.reference "Outer"] (.reference "Inner") rfl rfl
  exact ⟨(hsame (Nat.le_refl 2)).2, hbeyond (.reference "Inner") rfl, memo, hsound, hend⟩

/-- **A name and a reference to it are checked differently at the bound**: the number is
valid for the name and the reference is too deep. -/
theorem name_outreaches_reference :
    let value := ValueGraph.ofDatum (.atom (.int 1))
    let s := (opened .empty (some 1) false).after outerAndInner
    ((validateNamed value "Outer").run s).outcome.toOption.map Verdict.valid = some true ∧
      ((validate value (.expression (.reference "Outer"))).run s).outcome =
        .error (.schema (.resolutionDepth "Inner" 1)) := by
  decide +kernel

end Session

end WidgetSchema
