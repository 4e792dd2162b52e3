/-
When the test for absence ends.

The test goes from a name to what it denotes and on to the names that stand there
outside of sequences, mappings and optional types (`Composer.Exposes`). It stops at a
text that it has met, and that is all that stops it: where arguments grow, no text
comes back.

What it goes through is a trail (`Composer.Trail`), and the test is given up only at
the end of a trail that is longer than the unfoldings it has (`absentFits_follows`). So
it ends by itself (`Composer.TestEnds`) unless there are trails of any length. A name
exposes finitely many names, so by König's lemma these give one without end
(`endless_of_trails`), and an alias with parameters is applied on it to ever new
arguments (`Endless.applied`).

Not every endless trail is followed, since the test stops at the first member of a
union that admits absence. One that leads on through first members is
(`absentFits_runs_on`), and the bound on the depth, which ends a check on such an alias,
is not looked at.
-/
import Mathlib.Order.KonigLemma
import WidgetSchema.Proofs.AbsentValues
import WidgetSchema.Proofs.CheckTermination
import WidgetSchema.Proofs.VerdictIndependence

set_option autoImplicit false

namespace WidgetSchema

/-- **König's lemma for lists.** A family of lists that has all prefixes of its lists, lists
of every length, and finitely many ways to go on from each, has all prefixes of one path. -/
theorem exists_path_of_finite {α : Type} {p : List α → Prop}
    (htake : ∀ xs n, p xs → p (xs.take n)) (hnext : ∀ xs, {x | p (xs ++ [x])}.Finite)
    (hlong : ∀ n, ∃ xs, xs.length = n ∧ p xs) :
    ∃ path : ℕ → α, ∀ n, p ((List.range n).map path) := by
  let Level (n : ℕ) := { xs : List α // xs.length = n ∧ p xs }
  let cut {n m : ℕ} (hle : n ≤ m) (xs : Level m) : Level n :=
    ⟨xs.1.take n, List.length_take_of_le (xs.2.1.symm ▸ hle), htake xs.1 n xs.2.2⟩
  have hsome (n : ℕ) : Nonempty (Level n) := nonempty_subtype.2 (hlong n)
  have hroot : Subsingleton (Level 0) := by
    refine ⟨fun xs ys => Subtype.ext ?_⟩
    rw [List.length_eq_zero_iff.1 xs.2.1, List.length_eq_zero_iff.1 ys.2.1]
  have hlast (n : ℕ) (xs : Level (n + 1)) : ∃ x, xs.1 = xs.1.take n ++ [x] := by
    have hlt : n < xs.1.length := by
      rw [xs.2.1]
      exact Nat.lt_succ_self n
    refine ⟨xs.1.get ⟨n, hlt⟩, ?_⟩
    rw [List.get_eq_getElem, List.take_append_getElem, List.take_of_length_le xs.2.1.le]
  -- each list of a level goes on to finitely many of the next
  have hfinite (n : ℕ) (xs : Level n) :
      { ys : Level (n + 1) | cut (Nat.le_add_right n 1) ys = xs }.Finite := by
    refine Set.Finite.of_injOn (t := (xs.1 ++ [·]) '' {x | p (xs.1 ++ [x])}) (f := Subtype.val)
      ?_ Subtype.val_injective.injOn ((hnext xs.1).image _)
    rintro ys rfl
    obtain ⟨x, hx⟩ := hlast n ys
    have hys := ys.2.2
    rw [hx] at hys
    exact ⟨x, hys, hx.symm⟩
  -- so there is a list for each level that goes on the one before
  obtain ⟨level, hcut⟩ := exists_seq_forall_proj_of_forall_finite cut
    (fun n xs => Subtype.ext (List.take_of_length_le xs.2.1.le))
    (fun n m k hnm hmk xs => Subtype.ext (by simp [cut, List.take_take, hnm])) hfinite
  choose path hpath using fun n => hlast n (level (n + 1))
  have hlevel (n : ℕ) : (List.range n).map path = (level n).1 := by
    induction n with
    | zero => rw [List.length_eq_zero_iff.1 (level 0).2.1, List.range_zero, List.map_nil]
    | succ n ih =>
      rw [List.range_succ, List.map_append, ih, hpath n, ← hcut (Nat.le_add_right n 1)]
      rfl
  exact ⟨path, fun n => hlevel n ▸ (level n).2.2⟩

/-! ## Names that the test meets -/

namespace TypeExpr

mutual
/-- The names in the expression that stand in no sequence, mapping or optional type and
in no arguments. -/
def exposed : TypeExpr → List TypeExpr
  | reference name => [reference name]
  | generic base args => [generic base args]
  | union members | intersection members => exposedEach members
  | primitive _ | literal _ | enumSet _ | optional _ | sequence _ | mapping _ => []

/-- The names that the expressions expose. -/
def exposedEach : List TypeExpr → List TypeExpr
  | [] => []
  | e :: es => exposed e ++ exposedEach es
end

mutual
/-- The name that the expression begins with, through first members. -/
def leading? : TypeExpr → Option TypeExpr
  | reference name => some (reference name)
  | generic base args => some (generic base args)
  | union members | intersection members => leadingOf? members
  | primitive _ | literal _ | enumSet _ | optional _ | sequence _ | mapping _ => none

/-- The name that the first expression begins with. -/
def leadingOf? : List TypeExpr → Option TypeExpr
  | [] => none
  | e :: _ => leading? e
end

/-- A type name exposes itself. -/
theorem exposed_name {e : TypeExpr} {i : Instantiation} (hi : e.instantiation? = some i) :
    e.exposed = [e] := by
  cases e with
  | reference | generic => rw [exposed]
  | _ => cases hi

mutual
/-- Only type names are exposed. -/
theorem instantiation_of_exposed {e' : TypeExpr} :
    (e : TypeExpr) → e' ∈ e.exposed → ∃ i, e'.instantiation? = some i
  | reference name, h | generic base args, h => by
    rw [exposed, List.mem_singleton] at h
    rw [h]
    exact ⟨_, rfl⟩
  | union members, h | intersection members, h => by
    rw [exposed] at h
    exact instantiation_of_exposedEach members h
  | primitive _, h | literal _, h | enumSet _, h | optional _, h | sequence _, h
  | mapping _, h => by
    rw [exposed] at h
    cases h

/-- The same for the members of a list. -/
theorem instantiation_of_exposedEach {e' : TypeExpr} :
    (es : List TypeExpr) → e' ∈ exposedEach es → ∃ i, e'.instantiation? = some i
  | [], h => by
    rw [exposedEach] at h
    cases h
  | e :: es, h => by
    rw [exposedEach, List.mem_append] at h
    rcases h with h | h
    · exact instantiation_of_exposed e h
    · exact instantiation_of_exposedEach es h
end

end TypeExpr

namespace Composer

variable {c : Composer} {i : Instantiation} {e e' : TypeExpr} {names : List TypeExpr}
  {seen : List String} {P : Memo → Prop} {E : Fault → Prop} {named : TypeExpr → Asking}

/-- The first name denotes an expression that exposes the second one. -/
def Exposes (c : Composer) (e₁ e₂ : TypeExpr) : Prop :=
  ∃ i e, e₁.instantiation? = some i ∧ c.Denotes i (.expression e) ∧ e₂ ∈ e.exposed

/-- The first name denotes an expression that begins with the second one. -/
def BeginsWith (c : Composer) (e₁ e₂ : TypeExpr) : Prop :=
  ∃ i e, e₁.instantiation? = some i ∧ c.Denotes i (.expression e) ∧ e.leading? = some e₂

/-- Names one inside the other, the first of them in the expression, with texts that
differ from each other and from those in `seen`. -/
structure Trail (c : Composer) (seen : List String) (e : TypeExpr) (names : List TypeExpr) :
    Prop where
  start : ∀ first ∈ names.head?, first ∈ e.exposed
  steps : names.IsChain c.Exposes
  fresh : FreshTexts seen names

/-- Names without end, each of which leads to the next, and no text comes back. -/
structure Endless (leads : TypeExpr → TypeExpr → Prop) (names : ℕ → TypeExpr) : Prop where
  steps : ∀ k, leads (names k) (names (k + 1))
  fresh : Function.Injective fun k => (names k).render

/-! ## The test follows trails -/

/-- A new name goes before the names that it exposes. -/
theorem Trail.name (hi : e.instantiation? = some i) (hnew : e.render ∉ seen)
    (hnext : ∀ next ∈ names.head?, c.Exposes e next) (hsteps : names.IsChain c.Exposes)
    (hfresh : FreshTexts (e.render :: seen) names) : c.Trail seen e (e :: names) where
  start first hfirst := by
    cases hfirst
    rw [TypeExpr.exposed_name hi]
    exact List.mem_singleton_self e
  steps := List.isChain_cons.2 ⟨hnext, hsteps⟩
  fresh := freshTexts_cons.2 ⟨hnew, hfresh⟩

/-- A trail from a name that an expression exposes is one from the expression. -/
theorem Trail.of_exposed (he : e' ∈ e.exposed) (h : c.Trail seen e' names) :
    c.Trail seen e names where
  start first hfirst := by
    obtain ⟨i, hi⟩ := TypeExpr.instantiation_of_exposed e he
    have hsame := h.start first hfirst
    rw [TypeExpr.exposed_name hi, List.mem_singleton] at hsame
    rwa [hsame]
  steps := h.steps
  fresh := h.fresh

/-- A part of a trail from its start is a trail. -/
theorem Trail.take (h : c.Trail seen e names) (n : ℕ) : c.Trail seen e (names.take n) where
  start first hfirst := by
    cases n with
    | zero => cases hfirst
    | succ n =>
      rw [List.head?_take, if_neg n.succ_ne_zero] at hfirst
      exact h.start first hfirst
  steps := h.steps.take n
  fresh := by
    refine ⟨?_, fun e he => h.fresh.2 e (List.mem_of_mem_take he)⟩
    rw [List.map_take]
    exact h.fresh.1.take

/-- There is a trail of this length. -/
def HasTrail (c : Composer) (seen : List String) (e : TypeExpr) (length : ℕ) : Prop :=
  ∃ names, names.length = length ∧ c.Trail seen e names

/-- A trail has a trail of each smaller length. -/
theorem HasTrail.shorter {n m : ℕ} (h : c.HasTrail seen e m) (hle : n ≤ m) :
    c.HasTrail seen e n := by
  obtain ⟨names, rfl, htrail⟩ := h
  exact ⟨names.take n, List.length_take_of_le hle, htrail.take n⟩

/-- A trail of an exposed name is one of the expression. -/
theorem HasTrail.of_exposed {n : ℕ} (he : e' ∈ e.exposed) (h : c.HasTrail seen e' n) :
    c.HasTrail seen e n := by
  obtain ⟨names, hlength, htrail⟩ := h
  exact ⟨names, hlength, htrail.of_exposed he⟩

/-- A new name goes before a trail inside what it denotes. -/
theorem HasTrail.name {n : ℕ} (hi : e.instantiation? = some i) (hnew : e.render ∉ seen)
    (hdenotes : c.Denotes i (.expression e')) (h : c.HasTrail (e.render :: seen) e' n) :
    c.HasTrail seen e (n + 1) := by
  obtain ⟨names, rfl, htrail⟩ := h
  refine ⟨e :: names, List.length_cons, .name hi hnew ?_ htrail.steps htrail.fresh⟩
  exact fun next hnext => ⟨i, e', hi, hdenotes, htrail.start next hnext⟩

/-- An error in a type, or the test was given up after a trail of this length. -/
def FailsAlong (c : Composer) (seen : List String) (e : TypeExpr) (length : ℕ) (err : Fault) :
    Prop :=
  err.IsSchemaError ∨ err.IsEndless ∧ c.HasTrail seen e length

/-- A failure that follows one trail follows another one, if there is one wherever there was
the first. -/
theorem FailsAlong.imp {seen' : List String} {n m : ℕ} {err : Fault}
    (h : c.FailsAlong seen e n err) (htrail : c.HasTrail seen e n → c.HasTrail seen' e' m) :
    c.FailsAlong seen' e' m err :=
  Or.imp_right (And.imp_right htrail) h

mutual
/-- The test asks for the names that are exposed, and for no others. -/
theorem absentFits_asks :
    (e : TypeExpr) → (∀ e' ∈ e.exposed, (named e').Yields P (fun _ => True) E) →
      (absentFits named e).Yields P (fun _ => True) E
  | .optional _, _ | .primitive _, _ | .literal _, _ | .enumSet _, _ | .sequence _, _
  | .mapping _, _ => by
    rw [absentFits]
    exact Action.yields_pure trivial
  | .reference name, h | .generic base args, h => by
    rw [absentFits]
    rw [TypeExpr.exposed] at h
    exact h _ (List.mem_singleton_self _)
  | .union members, h => by
    rw [absentFits]
    rw [TypeExpr.exposed] at h
    exact absentFitsSome_asks members h
  | .intersection members, h => by
    rw [absentFits]
    rw [TypeExpr.exposed] at h
    exact absentFitsEach_asks members h

/-- The members of a union are asked for the names they expose. -/
theorem absentFitsSome_asks :
    (es : List TypeExpr) →
      (∀ e' ∈ TypeExpr.exposedEach es, (named e').Yields P (fun _ => True) E) →
      (absentFitsSome named es).Yields P (fun _ => True) E
  | [], _ => by
    rw [absentFitsSome]
    exact Action.yields_pure trivial
  | e :: es, h => by
    rw [absentFitsSome]
    rw [TypeExpr.exposedEach, List.forall_mem_append] at h
    refine (absentFits_asks e h.1).bind fun b _ => ?_
    cases b with
    | true => exact Action.yields_pure trivial
    | false => exact absentFitsSome_asks es h.2

/-- So are those of an intersection. -/
theorem absentFitsEach_asks :
    (es : List TypeExpr) →
      (∀ e' ∈ TypeExpr.exposedEach es, (named e').Yields P (fun _ => True) E) →
      (absentFitsEach named es).Yields P (fun _ => True) E
  | [], _ => by
    rw [absentFitsEach]
    exact Action.yields_pure trivial
  | e :: es, h => by
    rw [absentFitsEach]
    rw [TypeExpr.exposedEach, List.forall_mem_append] at h
    refine (absentFits_asks e h.1).bind fun b _ => ?_
    cases b with
    | true => exact absentFitsEach_asks es h.2
    | false => exact Action.yields_pure trivial
end

/-- If each name is followed along a trail, an expression is. -/
theorem absentFits_failsAlong {steps : ℕ}
    (hnamed : ∀ e' i, e'.instantiation? = some i →
      (named e').Yields P (fun _ => True) (c.FailsAlong seen e' steps)) (e : TypeExpr) :
    (absentFits named e).Yields P (fun _ => True) (c.FailsAlong seen e steps) := by
  apply absentFits_asks
  intro e' he'
  obtain ⟨i, hi⟩ := TypeExpr.instantiation_of_exposed e he'
  exact (hnamed e' i hi).allow fun err hfails => hfails.imp (HasTrail.of_exposed he')

/-- A name is given up at the end of a trail with one name more than there are
unfoldings. The induction is on the unfoldings. -/
theorem absentFitsName_follows (steps : ℕ) (seen : List String) (e : TypeExpr)
    (i : Instantiation) (hi : e.instantiation? = some i) :
    (c.absentFitsName steps seen e).Yields (Memo.SoundFor · c) (fun _ => True)
      (c.FailsAlong seen e (steps + 1)) := by
  induction steps generalizing seen e i with
  | zero =>
    rw [absentFitsName]
    split
    · exact Action.yields_pure trivial
    · next hnew =>
      have halone : c.Trail seen e [e] :=
        .name hi hnew (by simp) .nil ⟨List.nodup_nil, by simp⟩
      exact Action.yields_fail (.inr ⟨⟨_, rfl⟩, [e], rfl, halone⟩)
  | succ steps ih =>
    rw [absentFitsName]
    split
    · exact Action.yields_pure trivial
    · next hnew =>
      have hresolve : ((c.resolveExpression e).mapError Fault.schema).Yields (Memo.SoundFor · c)
          _ (c.FailsAlong seen e (steps + 1 + 1)) :=
        (resolveExpression_yields_schemaError hi).allow fun _ => .inl
      refine hresolve.bind fun r hr => ?_
      obtain ⟨hdenotes, -⟩ := hr
      cases r with
      | schema t => exact Action.yields_pure trivial
      | expression e' =>
        exact (absentFits_failsAlong (ih (e.render :: seen)) e').allow fun err hfails =>
          hfails.imp (HasTrail.name hi hnew hdenotes)

/-- **The test is given up only at the end of a trail.** -/
theorem absentFits_follows (steps : ℕ) (e : TypeExpr) :
    (absentFits (c.absentFitsName steps []) e).Yields (Memo.SoundFor · c) (fun _ => True)
      (c.FailsAlong [] e (steps + 1)) :=
  absentFits_failsAlong (absentFitsName_follows steps []) e

/-! ## The test ends by itself -/

/-- With enough unfoldings the test is settled from every right memo, and more of them
change nothing. -/
def TestEnds (c : Composer) (e : TypeExpr) : Prop :=
  ∃ enough, ∀ memo, memo.SoundFor c → ∀ steps, enough ≤ steps →
    WidgetSchema.Settles ((absentFits (c.absentFitsName steps []) e).run memo).outcome ∧
      (absentFits (c.absentFitsName steps []) e).run memo =
        (absentFits (c.absentFitsName enough []) e).run memo

/-- Without a trail of some length the test ends by itself. -/
theorem testEnds_of_not_hasTrail {n : ℕ} (h : ¬ c.HasTrail [] e n) : c.TestEnds e := by
  have hshort {steps : ℕ} (hle : n ≤ steps) :
      (absentFits (c.absentFitsName steps []) e).Yields (Memo.SoundFor · c) (fun _ => True)
        Fault.IsSchemaError := by
    refine (absentFits_follows steps e).allow ?_
    rintro err (hschema | ⟨-, htrail⟩)
    · exact hschema
    · exact absurd (htrail.shorter (Nat.le_succ_of_le hle)) h
  refine ⟨n, fun memo hm steps hle => ⟨settles_of_yields (hshort hle) hm, ?_⟩⟩
  obtain ⟨more, rfl⟩ := Nat.exists_eq_add_of_le hle
  rcases absentFits_agrees (absentFitsName_agrees n more []) e memo with
    ⟨err, herr, label, rfl⟩ | hsame
  · exact ((hshort (Nat.le_refl n)).fails memo hm _ herr).elim
  · exact hsame.symm

/-! ## Trails of any length -/

/-- A name exposes finitely many names. -/
theorem finite_exposes (c : Composer) (e : TypeExpr) : {e' | c.Exposes e e'}.Finite := by
  by_cases h : ∃ i body, e.instantiation? = some i ∧ c.Denotes i (.expression body)
  · obtain ⟨i, body, hi, hdenotes⟩ := h
    refine body.exposed.finite_toSet.subset ?_
    rintro e' ⟨j, body', hj, hdenotes', he'⟩
    -- a name denotes one expression
    rw [hi] at hj
    cases hj
    cases hdenotes.unique hdenotes'
    exact he'
  · refine Set.finite_empty.subset ?_
    rintro e' ⟨i, body, hi, hdenotes, -⟩
    exact h ⟨i, body, hi, hdenotes⟩

/-- A trail goes on with one of finitely many names. -/
theorem Trail.finite_next (c : Composer) (seen : List String) (e : TypeExpr)
    (names : List TypeExpr) : {e' | c.Trail seen e (names ++ [e'])}.Finite := by
  rcases names.eq_nil_or_concat with rfl | ⟨before, last, rfl⟩
  · exact e.exposed.finite_toSet.subset fun e' h => h.start e' rfl
  · refine (c.finite_exposes last).subset fun e' h => ?_
    exact (List.isChain_append.1 h.steps).2.2 last (by simp) e' rfl

/-- **Trails of any length give one without end.** -/
theorem endless_of_trails (h : ∀ n, c.HasTrail [] e n) :
    ∃ names : ℕ → TypeExpr, names 0 ∈ e.exposed ∧ Endless c.Exposes names := by
  obtain ⟨names, hnames⟩ := exists_path_of_finite (p := c.Trail [] e)
    (fun _ n htrail => htrail.take n) (Trail.finite_next c [] e) h
  refine ⟨names, (hnames 1).start _ rfl, ?_, ?_⟩
  · intro k
    have hsteps := List.isChain_iff_getElem.1 (hnames (k + 2)).steps k
    simpa using hsteps
  · intro j k hsame
    have hfresh := (hnames (j + k + 1)).fresh.1
    rw [List.map_map, List.nodup_map_iff_inj_on List.nodup_range] at hfresh
    exact hfresh j (List.mem_range.2 (by omega)) k (List.mem_range.2 (by omega)) hsame

/-- No name comes back. -/
theorem Endless.finite_eq {leads : TypeExpr → TypeExpr → Prop} {names : ℕ → TypeExpr}
    (h : Endless leads names) (e : TypeExpr) : {k | names k = e}.Finite := by
  refine Set.Subsingleton.finite fun j hj k hk => h.fresh ?_
  exact congrArg TypeExpr.render (Eq.trans hj (Eq.symm hk))

/-- A name that exposes another one is a registered name, with or without arguments. -/
theorem Exposes.name_mem (h : c.Exposes e e') :
    ∃ name ∈ c.registry.names, e = .reference name ∨ ∃ args, e = .generic name args := by
  obtain ⟨i, body, hi, hdenotes, -⟩ := h
  cases hdenotes with
  | expression hcomplete hplain =>
    have hname : i.name ∈ c.registry.names :=
      Registry.mem_names.2 ⟨_, (complete_eq_ok.1 hcomplete).1⟩
    refine ⟨i.name, hname, ?_⟩
    cases e with
    | reference name =>
      cases hi
      exact .inl rfl
    | generic base args =>
      cases hi
      exact .inr ⟨args, rfl⟩
    | _ => cases hi

/-- An alias without parameters is applied to no arguments. -/
theorem Exposes.args_eq_nil {name : String} {args : List TypeExpr} {d : Definition}
    (h : c.Exposes (.generic name args) e) (hd : c.registry.lookup name = .ok d)
    (hparameters : d.parameters = []) : args = [] := by
  obtain ⟨i, body, hi, hdenotes, -⟩ := h
  cases hi
  cases hdenotes with
  | expression hcomplete hplain =>
    obtain ⟨hlookup, hbind, -⟩ := complete_eq_ok.1 hcomplete
    obtain rfl := Except.ok.inj (hd.symm.trans hlookup)
    exact args_eq_nil_of_bind hbind hparameters

/-- **Arguments grow on an endless trail**: an alias with parameters is applied to ever
new ones. -/
theorem Endless.applied {names : ℕ → TypeExpr} (h : Endless c.Exposes names) :
    ∃ name d, c.registry.lookup name = .ok d ∧ d.parameters ≠ [] ∧
      {k | ∃ args, names k = .generic name args}.Infinite := by
  by_contra hnone
  have happlied : ∀ name ∈ c.registry.names, {k | ∃ args, names k = .generic name args}.Finite := by
    intro name hname
    obtain ⟨d, hd⟩ := Registry.mem_names.1 hname
    by_cases hparameters : d.parameters = []
    · -- without arguments it is one name
      refine (h.finite_eq (.generic name [])).subset ?_
      rintro k ⟨args, hk⟩
      have hstep := h.steps k
      rw [hk] at hstep
      exact hk.trans (congrArg _ (hstep.args_eq_nil hd hparameters))
    · exact Set.not_infinite.1 fun hinfinite => hnone ⟨name, d, hd, hparameters, hinfinite⟩
  -- the registered names are finitely many, so they do not last
  have hfinite := c.registry.names.finite_toSet.biUnion fun name hname =>
    (h.finite_eq (.reference name)).union (happlied name hname)
  refine Set.infinite_univ (hfinite.subset fun k _ => ?_)
  obtain ⟨name, hname, hk⟩ := (h.steps k).name_mem
  exact Set.mem_biUnion hname hk

mutual
/-- What the name fails with that an expression begins with, the expression does. -/
theorem error_absentFits_leading {memo : Memo} {err : Fault}
    (hfails : ((named e').run memo).outcome = .error err) :
    (e : TypeExpr) → e.leading? = some e' →
      ((absentFits named e).run memo).outcome = .error err
  | .reference name, h | .generic base args, h => by
    rw [TypeExpr.leading?] at h
    cases h
    rw [absentFits]
    exact hfails
  | .union members, h => by
    rw [TypeExpr.leading?] at h
    rw [absentFits]
    exact error_absentFitsSome_leading hfails members h
  | .intersection members, h => by
    rw [TypeExpr.leading?] at h
    rw [absentFits]
    exact error_absentFitsEach_leading hfails members h
  | .primitive _, h | .literal _, h | .enumSet _, h | .optional _, h | .sequence _, h
  | .mapping _, h => by
    rw [TypeExpr.leading?] at h
    cases h

/-- In a union the first member is always asked. -/
theorem error_absentFitsSome_leading {memo : Memo} {err : Fault}
    (hfails : ((named e').run memo).outcome = .error err) :
    (es : List TypeExpr) → TypeExpr.leadingOf? es = some e' →
      ((absentFitsSome named es).run memo).outcome = .error err
  | [], h => by
    rw [TypeExpr.leadingOf?] at h
    cases h
  | e :: es, h => by
    rw [TypeExpr.leadingOf?] at h
    rw [absentFitsSome, Action.outcome_bind, error_absentFits_leading hfails e h]

/-- And so it is in an intersection. -/
theorem error_absentFitsEach_leading {memo : Memo} {err : Fault}
    (hfails : ((named e').run memo).outcome = .error err) :
    (es : List TypeExpr) → TypeExpr.leadingOf? es = some e' →
      ((absentFitsEach named es).run memo).outcome = .error err
  | [], h => by
    rw [TypeExpr.leadingOf?] at h
    cases h
  | e :: es, h => by
    rw [TypeExpr.leadingOf?] at h
    rw [absentFitsEach, Action.outcome_bind, error_absentFits_leading hfails e h]
end

/-- An alias of an expression is unfolded from every right memo, which stays right. -/
theorem resolveExpression_of_denotes {memo : Memo} (hm : memo.SoundFor c)
    (hi : e.instantiation? = some i) (hdenotes : c.Denotes i (.expression e')) :
    (((c.resolveExpression e).mapError Fault.schema).run memo).outcome =
        .ok (.expression e') ∧
      (((c.resolveExpression e).mapError Fault.schema).run memo).state.SoundFor c := by
  refine ⟨?_, (resolveExpression_yields_schemaError hi).keeps memo hm⟩
  cases hdenotes with
  | expression hd hplain =>
    unfold resolveExpression
    rw [hi]
    exact mapError_eq_ok.2 (resolve_plain hm hd hplain).1

/-- **An endless trail through first members is followed to its end**, so the test is given
up after any number of unfoldings. The induction is on the unfoldings, and what has been
met stands before on the trail. -/
theorem absentFitsName_runs_on {names : ℕ → TypeExpr} (h : Endless c.BeginsWith names)
    (steps k : ℕ) (seen : List String) (hseen : ∀ j, k ≤ j → (names j).render ∉ seen)
    {memo : Memo} (hm : memo.SoundFor c) :
    ∃ label, ((c.absentFitsName steps seen (names k)).run memo).outcome =
      .error (.endlessAlias label) := by
  have hnew := hseen k (Nat.le_refl k)
  induction steps generalizing k seen memo with
  | zero =>
    rw [absentFitsName, if_neg hnew]
    exact ⟨_, rfl⟩
  | succ steps ih =>
    obtain ⟨i, body, hi, hdenotes, hleading⟩ := h.steps k
    obtain ⟨houtcome, hsound⟩ := resolveExpression_of_denotes hm hi hdenotes
    have hseen' : ∀ j, k + 1 ≤ j → (names j).render ∉ (names k).render :: seen := by
      intro j hj hmem
      rcases List.mem_cons.1 hmem with hsame | hmem
      · have := h.fresh hsame
        omega
      · exact hseen j (by omega) hmem
    obtain ⟨label, hlabel⟩ := ih (k + 1) ((names k).render :: seen) hseen' hsound
      (hseen' _ (Nat.le_refl _))
    refine ⟨label, ?_⟩
    rw [absentFitsName, if_neg hnew, Action.outcome_bind, houtcome]
    exact error_absentFits_leading hlabel body hleading

/-- Where the names never end, each step meets the next of them, so no number of steps is enough. -/
theorem absentFits_runs_on {names : ℕ → TypeExpr} (h : Endless c.BeginsWith names)
    (hleading : e.leading? = some (names 0)) {memo : Memo} (hm : memo.SoundFor c) (steps : ℕ) :
    ∃ label, ((absentFits (c.absentFitsName steps []) e).run memo).outcome =
      .error (.endlessAlias label) := by
  obtain ⟨label, hlabel⟩ := absentFitsName_runs_on h steps 0 [] (fun _ _ => List.not_mem_nil) hm
  exact ⟨label, error_absentFits_leading hlabel e hleading⟩

/-! ## The requests that ask -/

/-- The expressions that a check against a type can come to. -/
inductive Meets (c : Composer) : Resolved → TypeExpr → Prop
  | expression (e : TypeExpr) : Meets c (.expression e) e
  | field {s : ResolvedSchema} {field : String × ResolvedField} (h : field ∈ s.fields.entries) :
      Meets c (.schema s) field.2.expression
  | part {r : Resolved} {e e' : TypeExpr} (h : Meets c r e) (hpart : e' ∈ e.parts) : Meets c r e'
  | unfold {r t : Resolved} {e e' : TypeExpr} {i : Instantiation} (h : Meets c r e)
      (hi : e.instantiation? = some i) (ht : c.Denotes i t) (h' : Meets c t e') : Meets c r e'

/-- An answer meets what it is. -/
theorem all_meets (c : Composer) (r : Resolved) : r.All (c.Meets r) := by
  cases r with
  | schema s => exact fun field hfield => .field hfield
  | expression e => exact .expression e

/-- A trail with more names than the unfoldings that the test tries. -/
def LongTrail (c : Composer) (e : TypeExpr) : Prop :=
  c.HasTrail [] e (c.registry.definitions.size + spareUnfoldings + 1)

/-- Errors in types, or the test was given up after a long trail from one of the
expressions. -/
def FailsWithin (c : Composer) (Among : TypeExpr → Prop) (err : Fault) : Prop :=
  err.IsSchemaError ∨ err.IsEndless ∧ ∃ e, Among e ∧ c.LongTrail e

/-- The test fails with an error in a type, or after a long trail from the expression it
is about. -/
theorem admitsAbsence_follows {Among : TypeExpr → Prop} {e : TypeExpr} (he : Among e) :
    (c.admitsAbsence e).Yields (Memo.SoundFor · c) (fun _ => True) (c.FailsWithin Among) := by
  refine (absentFits_follows _ e).allow ?_
  rintro err (hschema | ⟨hendless, htrail⟩)
  · exact .inl hschema
  · exact .inr ⟨hendless, e, he, htrail⟩

/-- The search for required fields asks about the types of fields, so a long trail begins at
one of them. -/
theorem requiredAmong_follows {Among : TypeExpr → Prop} {fields : List (String × ResolvedField)}
    (h : ∀ field ∈ fields, Among field.2.expression) :
    (c.requiredAmong fields).Yields (Memo.SoundFor · c) (fun _ => True) (c.FailsWithin Among) := by
  induction fields with
  | nil =>
    rw [requiredAmong]
    exact Action.yields_pure trivial
  | cons field rest ih =>
    rw [requiredAmong]
    obtain ⟨hfield, hrest⟩ := List.forall_mem_cons.1 h
    refine (admitsAbsence_follows hfield).bind fun b _ => ?_
    exact (ih hrest).bind fun names _ => Action.yields_pure trivial

/-- The contract of checks against what a type leads to. -/
theorem contract_of_meets (c : Composer) (r : Resolved) :
    c.Contract (Memo.SoundFor · c) (c.Meets r) (c.FailsWithin (c.Meets r)) where
  sound _ hm := hm
  parts e he e' hpart := .part he hpart
  resolve e i hi he := by
    refine ((resolve_yields_schemaError hi).allow fun _ => .inl).imp ?_
    rintro t ⟨hdenotes, -⟩
    refine ⟨hdenotes, ?_⟩
    cases t with
    | schema s => exact fun field hfield => .unfold he hi hdenotes (.field hfield)
    | expression e' => exact .unfold he hi hdenotes (.expression e')
  cyclic _ := .inl trivial
  depth _ _ := .inl trivial
  ends e he memo hm label h := (admitsAbsence_follows he).fails memo hm _ h

/-- A request that does not settle follows a long trail. -/
theorem settles_or_longTrail {σ α : Type} {Among : TypeExpr → Prop} {P : σ → Prop}
    {Q : α → Prop} {x : Action Fault σ α} (hx : x.Yields P Q (c.FailsWithin Among)) {s : σ}
    (hs : P s) :
    WidgetSchema.Settles (x.run s).outcome ∨ ∃ e, Among e ∧ c.LongTrail e := by
  refine (settles_or hx hs).imp_right ?_
  rintro ⟨_, _, -, htrail⟩
  exact htrail

/-- A check that does not settle stops at a long integer or follows a long trail. -/
theorem check_settles_or_longTrail {value : ValueGraph} {r : Resolved} {memo : Memo}
    (hm : memo.SoundFor c) :
    let outcome := ((c.validate value.heap value.root (.ofResolved r)).run memo).outcome
    WidgetSchema.Settles outcome ∨ StopsAtLong value outcome ∨
      ∃ e, c.Meets r e ∧ c.LongTrail e := by
  intro outcome
  have hcontract : c.Contract (Memo.SoundFor · c) (c.Meets r) fun err => err.IsSchemaError ∨
      (err.IsEndless ∧ ∃ e, c.Meets r e ∧ c.LongTrail e) ∨
        err = .tooManyDigits ∧ value.root.HoldsLong value.heap :=
    (contract_of_meets c r).allow fun _ => .imp_right .inl
  have hyields : (c.validate value.heap value.root (.ofResolved r)).Yields _ _ _ :=
    validate_yields hcontract (all_meets c r) fun hlong => .inr (.inr ⟨rfl, hlong⟩)
  refine (settles_or hyields hm).imp_right ?_
  rintro ⟨_, houtcome, ⟨-, htrail⟩ | ⟨rfl, hlong⟩⟩
  · exact .inr htrail
  · exact .inl ⟨houtcome, hlong⟩

end Composer

namespace Session

open Composer in
/-- **The test for absence ends unless arguments grow without end.** Let there be any
history of calls on a new session, with ready definitions too.

For every expression the test ends by itself, from every right memo and in a way that no
further unfoldings change, or there is an endless trail of names from the expression. On
that trail some registered alias with parameters is applied to infinitely many different
arguments. Where each name begins what the one before it denotes, the test does run on for
ever: it is given up after any number of unfoldings.

What asks the test settles as well, unless an expression that it comes to has a trail with
more names than the unfoldings that are tried, or a check stops at an integer that is too long. -/
theorem test_ends_unless_arguments_grow (env : Environment) (maxDepth : Option Int)
    (prelude : Bool) (history : List Call) :
    let s := (opened env maxDepth prelude).after history
    let c := s.composer
    (∀ e, c.TestEnds e ∨
      ∃ names : ℕ → TypeExpr, names 0 ∈ e.exposed ∧ Endless c.Exposes names ∧
        ∃ name d, c.registry.lookup name = .ok d ∧ d.parameters ≠ [] ∧
          {k | ∃ args, names k = .generic name args}.Infinite) ∧
    (∀ e names, e.leading? = some (names 0) → Endless c.BeginsWith names →
      ∀ memo, memo.SoundFor c → ∀ steps, ∃ label,
        ((absentFits (c.absentFitsName steps []) e).run memo).outcome =
          .error (.endlessAlias label)) ∧
    (∀ e, Settles ((admitsAbsence e).run s).outcome ∨ c.LongTrail e) ∧
    (∀ t, Settles ((requiredFields t).run s).outcome ∨
      ∃ field ∈ t.fields.entries, c.LongTrail field.2.expression) ∧
    ∀ value r, Settles ((validate value (.ofResolved r)).run s).outcome ∨
      StopsAtLong value ((validate value (.ofResolved r)).run s).outcome ∨
      ∃ e, c.Meets r e ∧ c.LongTrail e := by
  intro s c
  have hsound : s.memo.SoundFor c := lasting_soundFor.after env maxDepth prelude history
  refine ⟨?_, fun _ _ hleading hendless _ hm => absentFits_runs_on hendless hleading hm,
    ?_, ?_, ?_⟩
  · intro e
    by_cases hlong : ∀ n, c.HasTrail [] e n
    · obtain ⟨names, hstart, hendless⟩ := endless_of_trails hlong
      exact .inr ⟨names, hstart, hendless, hendless.applied⟩
    · obtain ⟨n, hshort⟩ := not_forall.1 hlong
      exact .inl (testEnds_of_not_hasTrail hshort)
  · intro e
    have hfollows : (c.admitsAbsence e).Yields _ _ (c.FailsWithin (· = e)) :=
      admitsAbsence_follows rfl
    refine (settles_or_longTrail hfollows hsound).imp_right ?_
    rintro ⟨_, rfl, htrail⟩
    exact htrail
  · intro t
    have hfollows : (c.requiredFields t).Yields _ _
        (c.FailsWithin fun e => ∃ field ∈ t.fields.entries, field.2.expression = e) :=
      requiredAmong_follows fun field hfield => ⟨field, hfield, rfl⟩
    refine (settles_or_longTrail hfollows hsound).imp_right ?_
    rintro ⟨_, ⟨field, hfield, rfl⟩, htrail⟩
    exact ⟨field, hfield, htrail⟩
  · intro value r
    exact check_settles_or_longTrail hsound

/-- An alias of its argument or a text. -/
def wrap : AliasDef :=
  { name := "Wrap"
    expression := .union [.reference "T", .primitive "string"]
    parameters := [{ name := "T", default := none }] }

def wrapping : List Call := [.register "Wrap" (.definition (.ofAlias wrap) .none)]

/-- Each unfolding takes one application away, so a trail comes to its end. -/
theorem wrapped_test_ends :
    ((opened .empty none false).after wrapping).composer.TestEnds
      (.generic "Wrap" [.generic "Wrap" [.primitive "number"]]) := by
  have hwrap (e : TypeExpr) : ((opened .empty none false).after wrapping).composer.complete
      ⟨"Wrap", [e]⟩ = .ok (.ofAlias wrap, [("T", e)], ⟨"Wrap", [e]⟩) := rfl
  have hunwrap (e e' : TypeExpr) (h : ((opened .empty none false).after
      wrapping).composer.Exposes (.generic "Wrap" [e]) e') : e' ∈ e.exposed := by
    obtain ⟨i, body, hi, hdenotes, hexposed⟩ := h
    cases hi
    cases hdenotes.unique (.expression (hwrap e) rfl)
    simpa [wrap, TypeExpr.substitute, TypeExpr.substituteAll, TypeExpr.exposed,
      TypeExpr.exposedEach] using hexposed
  obtain ⟨hends, -⟩ := test_ends_unless_arguments_grow .empty none false wrapping
  refine (hends _).resolve_right ?_
  rintro ⟨names, hstart, hendless, -⟩
  -- both names are met, and the number that is left exposes nothing
  have hsteps := hendless.steps
  have hfirst : names 0 = .generic "Wrap" [.generic "Wrap" [.primitive "number"]] := by
    rwa [TypeExpr.exposed, List.mem_singleton] at hstart
  have hsecond : names 1 = .generic "Wrap" [.primitive "number"] := by
    have hmem := hunwrap _ (names 1) (hfirst ▸ hsteps 0)
    rwa [TypeExpr.exposed, List.mem_singleton] at hmem
  have hthird : names 2 ∈ (TypeExpr.primitive "number").exposed :=
    hunwrap _ _ (hsecond ▸ hsteps 1)
  rw [TypeExpr.exposed] at hthird
  cases hthird

/-- On an endless trail through first names the request does not settle either. -/
theorem never_settles {s : Session} {e : TypeExpr} {names : ℕ → TypeExpr}
    (hsound : s.memo.SoundFor s.composer) (h : Composer.Endless s.composer.BeginsWith names)
    (hleading : e.leading? = some (names 0)) :
    ¬ s.composer.TestEnds e ∧ ¬ Settles ((admitsAbsence e).run s).outcome := by
  have hgivenUp (steps : ℕ) : ¬ Settles ((Composer.absentFits
      (s.composer.absentFitsName steps []) e).run s.memo).outcome := by
    obtain ⟨label, hlabel⟩ := Composer.absentFits_runs_on h hleading hsound steps
    rw [hlabel]
    rintro (⟨b, hb⟩ | ⟨err, herr⟩)
    · cases hb
    · cases herr
  refine ⟨?_, hgivenUp _⟩
  rintro ⟨enough, hsettles⟩
  exact hgivenUp enough (hsettles s.memo hsound enough (Nat.le_refl _)).1

/-- An alias of itself, applied to a sequence of its argument. -/
def pile : AliasDef :=
  { name := "Pile"
    expression := .generic "Pile" [.sequence (.reference "T")]
    parameters := [{ name := "T", default := none }] }

def piling : List Call := [.register "Pile" (.definition (.ofAlias pile) .none)]

/-- A number in this many sequences. -/
def nested : ℕ → TypeExpr
  | 0 => .primitive "number"
  | n + 1 => .sequence (nested n)

/-- The piles are all different expressions, so none of them is met twice. -/
theorem nested_injective : Function.Injective nested := by
  intro m n h
  induction m generalizing n with
  | zero =>
    cases n with
    | zero => rfl
    | succ n => cases h
  | succ m ih =>
    cases n with
    | zero => cases h
    | succ n =>
      rw [nested, nested, TypeExpr.sequence.injEq] at h
      rw [ih h]

/-- Each of them can be written as a text, so a call can ask for it. -/
theorem wellFormed_pile (n : ℕ) : (TypeExpr.generic "Pile" [nested n]).WellFormed := by
  have hnested (n : ℕ) : (nested n).WellFormed := by
    induction n with
    | zero =>
      rw [nested, TypeExpr.WellFormed]
      decide
    | succ n ih => rwa [nested, TypeExpr.WellFormed]
  rw [TypeExpr.WellFormed, TypeExpr.WellFormedEach, TypeExpr.WellFormedEach]
  exact ⟨by decide, by simp, hnested n, trivial⟩

/-- The piles become ever higher. -/
theorem piles_endless :
    Composer.Endless ((opened .empty (some 2) false).after piling).composer.BeginsWith
      fun n => .generic "Pile" [nested n] where
  steps n := by
    have hpile : ((opened .empty (some 2) false).after piling).composer.complete
      ⟨"Pile", [nested n]⟩ = .ok (.ofAlias pile, [("T", nested n)], ⟨"Pile", [nested n]⟩) := rfl
    exact ⟨⟨"Pile", [nested n]⟩, .generic "Pile" [nested (n + 1)], rfl, .expression hpile rfl, rfl⟩
  fresh m n h := by
    -- what can be read back has one text only
    have hread := TypeExpr.parse_render (wellFormed_pile m)
    dsimp only at h
    rw [h, TypeExpr.parse_render (wellFormed_pile n)] at hread
    have hsame := (Except.ok.inj hread).symm
    rw [TypeExpr.generic.injEq, List.cons.injEq] at hsame
    exact nested_injective hsame.2.1

/-- **The test goes on for ever** on a ready alias that applies itself to a sequence of its
argument, while a check of a value against the same type ends at the bound. -/
theorem piles_never_settle :
    let s := (opened .empty (some 2) false).after piling
    let e : TypeExpr := .generic "Pile" [.primitive "number"]
    ¬ s.composer.TestEnds e ∧ ¬ Settles ((admitsAbsence e).run s).outcome ∧
      ((validate (.ofDatum (.atom (.int 1))) (.expression e)).run s).outcome =
        .error (.schema (.resolutionDepth "Pile([[number]])" 2)) := by
  intro s e
  have hsound : s.memo.SoundFor s.composer :=
    lasting_soundFor.after .empty (some 2) false piling
  obtain ⟨hnever, hrequest⟩ := never_settles hsound piles_endless (e := e) rfl
  exact ⟨hnever, hrequest, by decide⟩

end Session

end WidgetSchema
