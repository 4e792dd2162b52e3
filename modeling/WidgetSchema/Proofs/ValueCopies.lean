/-
A check sees what a value holds, and not which of its containers are one object.

One container can stand in several places of a value, and a copy of the value may have a
container of its own in each of them. The two hold the same (`Value.SameContents`), and as
long as neither contains itself a check cannot tell them apart
(`Session.copies_checked_alike`).

A check tells containers apart in one place only: where it finds out that it stands in one
already. In a value that does not contain itself this never happens, since what stands
around a part is no part of it (`Value.Clear`); so the test comes out alike in the two
values, and everything else that a check reads of a value is the same in both. How many
containers there are does differ, but the bound that it puts on the nesting plays no part
(`checkRoot_eq_checkWhole`).
-/
import WidgetSchema.Proofs.NestingBound
import WidgetSchema.Proofs.Satisfaction
import WidgetSchema.Session

set_option autoImplicit false

namespace WidgetSchema

/-! ## Values that do not contain themselves -/

namespace Value

section

variable {A : Type} {heap : Heap A} {active : List A} {v w : Value A} {p : A}

/-- No container of the value is a part of what stands in it. -/
def Acyclic (heap : Heap A) (v : Value A) : Prop :=
  ∀ p, v.HasPart heap (.container p) → ∀ w ∈ (heap p).parts, ¬ w.HasPart heap (.container p)

/-- The value does not contain itself, nor any container of the list. -/
structure Clear (heap : Heap A) (active : List A) (v : Value A) : Prop where
  acyclic : v.Acyclic heap
  outside : ∀ p ∈ active, ¬ v.HasPart heap (.container p)

/-- At the root no container is being checked. -/
theorem Acyclic.clear (h : v.Acyclic heap) : v.Clear heap [] := ⟨h, fun _ hp => nomatch hp⟩

/-- The only part of an atom is the atom. -/
theorem HasPart.of_atom {a : Scalar} (h : (atom a).HasPart heap w) : w = .atom a := by
  induction h with
  | self => rfl
  | inside _ _ ih => cases ih

/-- An atom has no containers in it. -/
theorem clear_atom (a : Scalar) : (atom a).Clear heap active where
  acyclic _ h := nomatch h.of_atom
  outside _ _ h := nomatch h.of_atom

/-- A container is a part of itself, so it is not among those being checked. -/
theorem Clear.not_mem (h : (container p).Clear heap active) : p ∉ active :=
  fun hp => h.outside p hp .self

/-- **Inside a container there is one container more to keep clear of**, and it is kept
clear of. -/
theorem Clear.part (h : (container p).Clear heap active) (hw : w ∈ (heap p).parts) :
    w.Clear heap (p :: active) := by
  have hpart : (container p).HasPart heap w := .inside .self hw
  refine ⟨fun q hq => h.acyclic q (hpart.trans hq), ?_⟩
  intro q hq
  rcases List.mem_cons.1 hq with rfl | hq
  · exact h.acyclic q .self w hw
  · intro hinside
    exact h.outside q hq (hpart.trans hinside)

/-- What gets smaller towards the parts shows that a value does not contain itself. -/
theorem acyclic_of_rank (rank : A → Nat)
    (hrank : ∀ p q, .container q ∈ (heap p).parts → rank q < rank p) (v : Value A) :
    v.Acyclic heap := by
  have hbelow {w x : Value A} (h : w.HasPart heap x) :
      ∀ p, x = .container p → ∃ q, w = .container q ∧ rank p ≤ rank q := by
    induction h with
    | self => exact fun p hp => ⟨p, hp, Nat.le_refl _⟩
    | @inside q x _ hx ih =>
      rintro p rfl
      obtain ⟨top, htop, hle⟩ := ih q rfl
      have hless := hrank q p hx
      exact ⟨top, htop, by omega⟩
  intro p _ w hw hback
  obtain ⟨q, rfl, hle⟩ := hbelow hback p rfl
  have hless := hrank p q hw
  omega

end

end Value

/-! ## Values that hold the same -/

section

variable {A B : Type}

/-- The values are one atom, or they are containers that are related. -/
inductive Value.Matches (R : A → B → Prop) : Value A → Value B → Prop
  | atom (a : Scalar) : Matches R (.atom a) (.atom a)
  | container {p : A} {q : B} (h : R p q) : Matches R (.container p) (.container q)

/-- The entries have one key, and related values. -/
def Container.EntriesMatch (P : Value A → Value B → Prop) (entry : Scalar × Value A)
    (entry' : Scalar × Value B) : Prop :=
  entry.1 = entry'.1 ∧ P entry.2 entry'.2

/-- The containers are of one kind, and what stands at one place is related. -/
inductive Container.Matches (P : Value A → Value B → Prop) : Container A → Container B → Prop
  | list {items : List (Value A)} {items' : List (Value B)} (h : List.Forall₂ P items items') :
      Matches P (.list items) (.list items')
  | tuple {items : List (Value A)} {items' : List (Value B)} (h : List.Forall₂ P items items') :
      Matches P (.tuple items) (.tuple items')
  | dict {entries : List (Scalar × Value A)} {entries' : List (Scalar × Value B)}
      (h : List.Forall₂ (EntriesMatch P) entries entries') :
      Matches P (.dict entries) (.dict entries')

instance Value.Matches.decidable (R : A → B → Prop) [DecidableRel R] :
    (v : Value A) → (v' : Value B) → Decidable (v.Matches R v')
  | .atom a, .atom a' =>
    decidable_of_iff (a = a') ⟨fun h => h ▸ .atom a, fun h => by cases h; rfl⟩
  | .container p, .container q =>
    decidable_of_iff (R p q) ⟨.container, fun h => by cases h; assumption⟩
  | .atom _, .container _ | .container _, .atom _ => isFalse nofun

instance Container.EntriesMatch.decidable (P : Value A → Value B → Prop) [DecidableRel P] :
    DecidableRel (EntriesMatch P) := fun _ _ => inferInstanceAs (Decidable (_ ∧ _))

instance Container.Matches.decidable (P : Value A → Value B → Prop) [DecidableRel P] :
    (held : Container A) → (held' : Container B) → Decidable (held.Matches P held')
  | .list items, .list items' =>
    decidable_of_iff (List.Forall₂ P items items') ⟨.list, fun h => by cases h; assumption⟩
  | .tuple items, .tuple items' =>
    decidable_of_iff (List.Forall₂ P items items') ⟨.tuple, fun h => by cases h; assumption⟩
  | .dict entries, .dict entries' =>
    decidable_of_iff (List.Forall₂ (EntriesMatch P) entries entries')
      ⟨.dict, fun h => by cases h; assumption⟩
  | .list _, .tuple _ | .list _, .dict _ | .tuple _, .list _ | .tuple _, .dict _ | .dict _, .list _
  | .dict _, .tuple _ => isFalse nofun

/-- **The two values hold the same.** Their containers can be related so that related ones
match part by part. One container may be related to several, and the other way round: how
often a container is shared is not compared. -/
def Value.SameContents (heap : Heap A) (heap' : Heap B) (v : Value A) (v' : Value B) : Prop :=
  ∃ R : A → B → Prop,
    (∀ p q, R p q → (heap p).Matches (Value.Matches R) (heap' q)) ∧ v.Matches R v'

/-- Two values that match, each of them clear of the containers around it. -/
structure Value.Alike (R : A → B → Prop) (heap : Heap A) (heap' : Heap B) (active : List A)
    (active' : List B) (v : Value A) (v' : Value B) : Prop where
  same : v.Matches R v'
  clear : v.Clear heap active
  clear' : v'.Clear heap' active'

namespace Container

variable {P Q : Value A → Value B → Prop} {held : Container A} {held' : Container B}

/-- A relation of the parts may be replaced by one that follows from it for them. -/
theorem Matches.imp (h : held.Matches P held')
    (hPQ : ∀ w ∈ held.parts, ∀ w' ∈ held'.parts, P w w' → Q w w') : held.Matches Q held' := by
  cases h with
  | list h | tuple h =>
    rw [List.forall₂_iff_get] at h
    constructor
    rw [List.forall₂_iff_get]
    exact ⟨h.1, fun i hi hi' => hPQ _ (List.get_mem _ _) _ (List.get_mem _ _) (h.2 i hi hi')⟩
  | dict h =>
    rw [List.forall₂_iff_get] at h
    constructor
    rw [List.forall₂_iff_get]
    refine ⟨h.1, fun i hi hi' => ⟨(h.2 i hi hi').1, ?_⟩⟩
    exact hPQ _ (List.mem_map_of_mem (List.get_mem _ _)) _
      (List.mem_map_of_mem (List.get_mem _ _)) (h.2 i hi hi').2

/-- Containers that hold the same are of one kind. -/
theorem Matches.kindName_eq (h : held.Matches P held') : held.kindName = held'.kindName := by
  cases h <;> rfl

/-- What stands for a container inside itself depends on its kind only. -/
theorem Matches.ellipsis_eq (h : held.Matches P held') :
    Value.ellipsis held = Value.ellipsis held' := by
  cases h <;> rfl

end Container

variable {R : A → B → Prop} {heap : Heap A} {heap' : Heap B} {active : List A} {active' : List B}
  {p : A} {q : B} {v : Value A} {v' : Value B}

namespace Value

/-- Absence is a matter of atoms, which are equal. -/
theorem Matches.isAbsent_eq (h : v.Matches R v') : v.isAbsent = v'.isAbsent := by
  cases h <;> rfl

theorem Matches.kindName_eq (hR : ∀ p q, R p q → (heap p).Matches (Matches R) (heap' q))
    (h : v.Matches R v') : v.kindName heap = v'.kindName heap' := by
  cases h with
  | atom a => rfl
  | container hpq => exact (hR _ _ hpq).kindName_eq

/-- An atom is like itself wherever it stands. -/
theorem alike_atom (a : Scalar) : Alike R heap heap' active active' (.atom a) (.atom a) :=
  ⟨.atom a, clear_atom a, clear_atom a⟩

/-- **What stands in alike containers is alike**, with these two around it. -/
theorem Alike.contents (hR : ∀ p q, R p q → (heap p).Matches (Matches R) (heap' q))
    (h : Alike R heap heap' active active' (.container p) (.container q)) :
    (heap p).Matches (Alike R heap heap' (p :: active) (q :: active')) (heap' q) := by
  have hpq : R p q := by
    cases h.same with
    | container hpq => exact hpq
  apply (hR p q hpq).imp
  intro w hw w' hw' hsame
  exact ⟨hsame, h.clear.part hw, h.clear'.part hw'⟩

end Value

/-- Under one key two dictionaries hold alike values, or neither holds any. -/
theorem Container.entry?_alike {entries : List (Scalar × Value A)}
    {entries' : List (Scalar × Value B)}
    (h : List.Forall₂ (EntriesMatch (Value.Alike R heap heap' active active')) entries entries')
    (key : String) :
    Value.Alike R heap heap' active active' ((Container.entry? entries key).getD (.atom .missing))
      ((Container.entry? entries' key).getD (.atom .missing)) := by
  induction h with
  | nil => exact Value.alike_atom .missing
  | @cons entry entry' rest rest' hentry _ ih =>
    obtain ⟨k, v⟩ := entry
    obtain ⟨k', v'⟩ := entry'
    obtain ⟨rfl, halike⟩ : k = k' ∧ Value.Alike R heap heap' active active' v v' := hentry
    unfold entry? at ih ⊢
    rw [List.find?_cons, List.find?_cons]
    cases k == Atom.text key with
    | true => exact halike
    | false => exact ih

/-! ## Texts -/

/-- Traversals of related items have one result, if related items are taken to the same. -/
theorem mapM_eq_mapM_of_forall₂ {α β γ : Type} {P : α → β → Prop} {f : α → Option γ}
    {g : β → Option γ} {l : List α} {l' : List β} (h : List.Forall₂ P l l')
    (hfg : ∀ a b, P a b → f a = g b) : l.mapM f = l'.mapM g := by
  induction h with
  | nil => rfl
  | cons hab _ ih => rw [List.mapM_cons, List.mapM_cons, hfg _ _ hab, ih]

/-- **Alike values are shown alike.** No container of them is being shown already, so both
are written out to the same places. -/
theorem Value.Alike.shownWithin_eq [DecidableEq A] [DecidableEq B]
    (hR : ∀ p q, R p q → (heap p).Matches (Matches R) (heap' q)) {room : Nat}
    (h : Alike R heap heap' active active' v v') :
    v.shownWithin heap room active = v'.shownWithin heap' room active' := by
  induction room generalizing active active' v v' with
  | zero =>
    cases h.same with
    | atom a => rw [shownWithin, shownWithin]
    | container hpq => exact congrArg some (hR _ _ hpq).ellipsis_eq
  | succ room ih =>
    cases h.same with
    | atom a => rw [shownWithin, shownWithin]
    | @container p q _ =>
      rw [shownWithin, shownWithin, if_neg h.clear.not_mem, if_neg h.clear'.not_mem]
      -- neither is being shown already: both are written out
      have hcontents := h.contents hR
      generalize heap p = held at hcontents
      generalize heap' q = held' at hcontents
      cases hcontents with
      | list halike | tuple halike =>
        have hinside := mapM_eq_mapM_of_forall₂ halike fun _ _ hw => ih hw
        simp only [hinside]
      | dict halike =>
        have hinside := mapM_eq_mapM_of_forall₂ halike fun entry entry' hentry =>
          show entryText <$> entry.1.shown? <*> shownWithin heap room (p :: active) entry.2 =
            entryText <$> entry'.1.shown? <*> shownWithin heap' room (q :: active') entry'.2 by
            rw [hentry.1, ih hentry.2]
        simp only [hinside]

end

/-! ## Checks -/

namespace Checking

variable {n m : Nat} {c : Composer} {R : Fin n → Fin m → Prop} {heap : Heap (Fin n)}
  {heap' : Heap (Fin m)} {active : List (Fin n)} {active' : List (Fin m)} {v : Value (Fin n)}
  {v' : Value (Fin m)}

open WidgetSchema.Value (Alike Matches)
open WidgetSchema.Container (EntriesMatch)

/-- The two go on alike with alike values. -/
def PartsAlike (R : Fin n → Fin m → Prop) (heap : Heap (Fin n)) (heap' : Heap (Fin m))
    (part : PartCheck n) (part' : PartCheck m) : Prop :=
  ∀ ⦃active active' v v'⦄, Alike R heap heap' active active' v v' →
    ∀ path e, part active path v e = part' active' path v' e

/-! ### Containers -/

section

variable {part : PartCheck n} {part' : PartCheck m}

/-- Items that are alike are checked alike, each at its index. The induction is on both
lists at once. -/
theorem checkItems_alike (hpart : PartsAlike R heap heap' part part') (path : Path)
    (inner : TypeExpr) {items : List (Value (Fin n))} {items' : List (Value (Fin m))}
    (h : List.Forall₂ (Alike R heap heap' active active') items items') (index : Nat) :
    checkItems (part active) path inner index items =
      checkItems (part' active') path inner index items' := by
  induction h generalizing index with
  | nil => rw [checkItems, checkItems]
  | cons hw _ ih => rw [checkItems, checkItems, hpart hw, ih]

/-- Entries that are alike have the same key and so the same path. -/
theorem checkEntries_alike (hpart : PartsAlike R heap heap' part part') (path : Path)
    (inner : TypeExpr) {entries : List (Scalar × Value (Fin n))}
    {entries' : List (Scalar × Value (Fin m))}
    (h : List.Forall₂ (EntriesMatch (Alike R heap heap' active active')) entries entries') :
    checkEntries (part active) path inner entries =
      checkEntries (part' active') path inner entries' := by
  induction h with
  | nil => rw [checkEntries, checkEntries]
  | cons hw _ ih =>
    rw [checkEntries, checkEntries, checkEntry, checkEntry, hw.1, hpart hw.2, ih]

/-- A field is found in both dictionaries or in neither, since the keys are the same. -/
theorem checkFields_alike (hpart : PartsAlike R heap heap' part part') (path : Path)
    (schema : ResolvedSchema) {entries : List (Scalar × Value (Fin n))}
    {entries' : List (Scalar × Value (Fin m))}
    (h : List.Forall₂ (EntriesMatch (Alike R heap heap' active active')) entries entries')
    (fields : List (String × ResolvedField)) :
    checkFields c (part active) path schema entries fields =
      checkFields c (part' active') path schema entries' fields := by
  induction fields with
  | nil => rw [checkFields, checkFields]
  | cons field rest ih =>
    obtain ⟨name, f⟩ := field
    have hfound := Container.entry?_alike h name
    rw [checkFields, checkFields, ih]
    simp only [hfound.same.isAbsent_eq, hpart hfound]

variable (hR : ∀ p q, R p q → (heap p).Matches (Matches R) (heap' q))
  (hpart : PartsAlike R heap heap' part part')

include hR hpart

/-- Neither sequence is being checked already, so both are entered. -/
theorem checkSequence_alike (h : Alike R heap heap' active active' v v') (path : Path)
    (inner : TypeExpr) :
    checkSequence heap part active path v inner =
      checkSequence heap' part' active' path v' inner := by
  cases h.same with
  | atom a => rfl
  | @container p q _ =>
    simp only [checkSequence, if_neg h.clear.not_mem, if_neg h.clear'.not_mem]
    have hcontents := h.contents hR
    generalize heap p = held at hcontents
    generalize heap' q = held' at hcontents
    cases hcontents with
    | list halike | tuple halike => exact checkItems_alike hpart path inner halike 0
    | dict _ => rfl

/-- The same for mappings. -/
theorem checkMapping_alike (h : Alike R heap heap' active active' v v') (path : Path)
    (inner : TypeExpr) :
    checkMapping heap part active path v inner =
      checkMapping heap' part' active' path v' inner := by
  cases h.same with
  | atom a => rfl
  | @container p q _ =>
    simp only [checkMapping, if_neg h.clear.not_mem, if_neg h.clear'.not_mem]
    have hcontents := h.contents hR
    generalize heap p = held at hcontents
    generalize heap' q = held' at hcontents
    cases hcontents with
    | list _ | tuple _ => rfl
    | dict halike => exact checkEntries_alike hpart path inner halike

/-- The same for values of a schema. -/
theorem checkStruct_alike (h : Alike R heap heap' active active' v v') (path : Path)
    (schema : ResolvedSchema) :
    checkStruct c heap part active path v schema =
      checkStruct c heap' part' active' path v' schema := by
  cases h.same with
  | atom a => rfl
  | @container p q _ =>
    simp only [checkStruct, if_neg h.clear.not_mem, if_neg h.clear'.not_mem]
    have hcontents := h.contents hR
    generalize heap p = held at hcontents
    generalize heap' q = held' at hcontents
    cases hcontents with
    | list _ | tuple _ => rfl
    | dict halike => exact checkFields_alike hpart path schema halike schema.fields.entries

end

/-! ### One value -/

/-- What a check reads of a site is the same at both. -/
structure SitesAlike (s : Site n) (s' : Site m) : Prop where
  path : s.path = s'.path
  isAbsent : s.value.isAbsent = s'.value.isAbsent
  refuse : ∀ mismatch, s.refuse mismatch = s'.refuse mismatch
  primitive : ∀ kind,
    checkPrimitive s.heap s.path s.value kind = checkPrimitive s'.heap s'.path s'.value kind
  literals : ∀ fitting mismatch,
    s.checkLiterals fitting mismatch = s'.checkLiterals fitting mismatch
  atSequence : s.atSequence = s'.atSequence
  atMapping : s.atMapping = s'.atMapping

section

variable {s : Site n} {s' : Site m}

/-- A value is missing in both places or in neither. -/
theorem SitesAlike.present (hs : SitesAlike s s') (type : TypeExpr) (check : Check) :
    s.present type check = s'.present type check := by
  rw [Site.present, Site.present, hs.isAbsent, hs.path]

mutual
/-- One layer of a type, one case for each kind of type: the two values differ only in the addresses
of their containers, which no case looks at. -/
theorem checkHere_alike (hs : SitesAlike s s') (named : TypeExpr → Check) :
    (e : TypeExpr) → checkHere s named e = checkHere s' named e
  | .optional inner => by rw [checkHere, checkHere, hs.isAbsent, checkHere_alike hs named inner]
  | .primitive kind => by rw [checkHere, checkHere, hs.primitive]
  | .reference name => by rw [checkHere, checkHere]
  | .generic base args => by rw [checkHere, checkHere]
  | .literal t => by rw [checkHere, checkHere, hs.present, hs.literals]
  | .enumSet values => by rw [checkHere, checkHere, hs.present, hs.literals]
  | .sequence inner => by rw [checkHere, checkHere, hs.present, hs.atSequence]
  | .mapping inner => by rw [checkHere, checkHere, hs.present, hs.atMapping]
  | .union members => by
    simp only [checkHere, hs.present, checkBranches_alike hs named members, hs.refuse]
  | .intersection members => by
    rw [checkHere, checkHere, hs.present, checkEach_alike hs named members]

/-- The first branch that fits is the same one. -/
theorem checkBranches_alike (hs : SitesAlike s s') (named : TypeExpr → Check) :
    (es : List TypeExpr) → checkBranches s named es = checkBranches s' named es
  | [] => by rw [checkBranches, checkBranches]
  | e :: es => by
    rw [checkBranches, checkBranches, checkHere_alike hs named e, checkBranches_alike hs named es]

/-- All operands report the same. -/
theorem checkEach_alike (hs : SitesAlike s s') (named : TypeExpr → Check) :
    (es : List TypeExpr) → checkEach s named es = checkEach s' named es
  | [] => by rw [checkEach, checkEach]
  | e :: es => by
    rw [checkEach, checkEach, checkHere_alike hs named e, checkEach_alike hs named es]
end

/-- At alike sites names are unfolded alike. -/
theorem checkNamed_alike (hs : SitesAlike s s') (struct : ResolvedSchema → Check) (depth : Nat) :
    checkNamed c s struct depth = checkNamed c s' struct depth := by
  induction depth with
  | zero =>
    funext e
    rw [checkNamed, checkNamed]
  | succ depth ih =>
    funext e
    rw [checkNamed, checkNamed, ih]
    simp only [checkHere_alike hs]

end

/-! ### Nested values -/

section

variable {part : PartCheck n} {part' : PartCheck m}
  (hR : ∀ p q, R p q → (heap p).Matches (Matches R) (heap' q))

include hR

/-- Primitive types ask for the kind of the value. -/
theorem checkPrimitive_alike (h : v.Matches R v') (path : Path) (kind : String) :
    checkPrimitive heap path v kind = checkPrimitive heap' path v' kind := by
  unfold checkPrimitive
  rw [h.isAbsent_eq, h.kindName_eq hR]
  cases h with
  | atom a => rfl
  | container hpq => simp only [(hR _ _ hpq).kindName_eq]

omit hR in
/-- The two are looked up alike among literals, if a failure repeats them alike. -/
theorem checkLiterals_alike {s : Site n} {s' : Site m}
    (hrefuse : ∀ mismatch, s.refuse mismatch = s'.refuse mismatch)
    (h : s.value.Matches R s'.value) (fitting : List String) (mismatch : String → Mismatch) :
    s.checkLiterals fitting mismatch = s'.checkLiterals fitting mismatch := by
  unfold Site.checkLiterals
  rw [hrefuse]
  generalize s.value = w at h
  generalize s'.value = w' at h
  cases h with
  | atom a => cases a <;> rfl
  | container _ => rfl

/-- Alike values are shown alike, each with room for its own containers. -/
theorem shown_alike (h : v.Matches R v') (hacyclic : v.Acyclic heap)
    (hacyclic' : v'.Acyclic heap') : v.shown? heap = v'.shown? heap' := by
  rw [Value.shown_eq_shownWithin (Nat.le_max_left n m) v,
    Value.shown_eq_shownWithin (Nat.le_max_right n m) v']
  exact Alike.shownWithin_eq hR ⟨h, hacyclic.clear, hacyclic'.clear⟩

/-- **Alike values are checked alike**, if the parts of their containers are. -/
theorem checkExpr_alike (hpart : PartsAlike R heap heap' part part') :
    PartsAlike R heap heap' (checkExpr c heap part) (checkExpr c heap' part') := by
  intro active active' v v' h path e
  have hstruct :
      checkStruct c heap part active path v = checkStruct c heap' part' active' path v' := by
    funext schema
    exact checkStruct_alike hR hpart h path schema
  rw [checkExpr, checkExpr, hstruct]
  have hshown := shown_alike hR h.same h.clear.acyclic h.clear'.acyclic
  have hrefuse (mismatch : String → Mismatch) :
      refuseShown path (v.shown? heap) mismatch = refuseShown path (v'.shown? heap') mismatch := by
    rw [hshown]
  -- at the two values everything is alike that one layer of the check looks at
  have hsites : SitesAlike
      { heap, path, value := v, atSequence := checkSequence heap part active path v,
        atMapping := checkMapping heap part active path v }
      { heap := heap', path, value := v', atSequence := checkSequence heap' part' active' path v',
        atMapping := checkMapping heap' part' active' path v' } :=
    { path := rfl
      isAbsent := h.same.isAbsent_eq
      refuse := hrefuse
      primitive := checkPrimitive_alike hR h.same path
      literals := checkLiterals_alike hrefuse h.same
      atSequence := funext fun inner => checkSequence_alike hR hpart h path inner
      atMapping := funext fun inner => checkMapping_alike hR hpart h path inner }
  simp only [checkHere_alike hsites, checkNamed_alike hsites]

/-- With the same room on both sides the check goes on alike. Where the room ends, both
say that there is a cycle. -/
theorem checkWithin_alike (room : Nat) :
    PartsAlike R heap heap' (checkWithin c heap (fun _ path _ _ => cyclic path) room)
      (checkWithin c heap' (fun _ path _ _ => cyclic path) room) := by
  induction room with
  | zero => exact fun _ _ _ _ _ _ _ => rfl
  | succ room ih => exact checkExpr_alike hR ih

/-- **A whole value and a copy of it are checked alike.** The two have room for different
numbers of containers, so both are given the room of the larger one. -/
theorem checkRoot_alike (h : v.Matches R v') (hacyclic : v.Acyclic heap)
    (hacyclic' : v'.Acyclic heap') (target : Target) :
    checkRoot c heap v target = checkRoot c heap' v' target := by
  -- with more room than needed a check is the same, so both take the larger room
  have hwithin := checkWithin_alike (c := c) hR (max n m)
  have halike : Alike R heap heap' [] [] v v' := ⟨h, hacyclic.clear, hacyclic'.clear⟩
  rw [checkRoot_eq_checkWhole (fun _ path _ _ => cyclic path) (Nat.le_max_left n m),
    checkRoot_eq_checkWhole (fun _ path _ _ => cyclic path) (Nat.le_max_right n m)]
  cases target with
  | schema s => exact checkStruct_alike hR hwithin halike .root s
  | expression e => exact checkExpr_alike hR hwithin halike .root e
  | unsupported shown => rw [checkWhole, checkWhole, h.isAbsent_eq]

end

end Checking

/-! ## Validation -/

namespace Session

/-- **Sharing does not matter.** Two values that hold the same and do not contain
themselves get the same verdict, or end with the same error, from every session and
against every schema, expression or name; which of their containers are one object makes
no difference. Also the memo that is left and the notes are the same. -/
theorem copies_checked_alike (value value' : ValueGraph)
    (hacyclic : value.root.Acyclic value.heap) (hacyclic' : value'.root.Acyclic value'.heap)
    (hsame : value.root.SameContents value.heap value'.heap value'.root) :
    (∀ s target, (validate value target).run s = (validate value' target).run s) ∧
    ∀ s name, (validateNamed value name).run s = (validateNamed value' name).run s := by
  obtain ⟨R, hR, hroot⟩ := hsame
  have hvalidate (c : Composer) (target : Target) :
      c.validate value.heap value.root target = c.validate value'.heap value'.root target := by
    rw [Composer.validate, Composer.validate, Checking.checkRoot_alike hR hroot hacyclic hacyclic']
  refine ⟨?_, ?_⟩
  · intro s target
    unfold validate
    simp only [hvalidate]
  · intro s name
    unfold validateNamed Composer.validateNamed
    simp only [hvalidate]

/-- A list that stands under two keys. -/
def sharedList : ValueGraph :=
  .ofDatum (.dict [(.text "first", .named "tags" (.list [.atom (.text "a")])),
    (.text "second", .again "tags")])

/-- The same with a list of its own under each key. -/
def separateLists : ValueGraph :=
  .ofDatum (.dict [(.text "first", .list [.atom (.text "a")]),
    (.text "second", .list [.atom (.text "a")])])

/-- The one list is related to both, and no check can tell that it is one. -/
theorem lists_checked_alike :
    (∀ s target, (validate sharedList target).run s = (validate separateLists target).run s) ∧
    ∀ s name,
      (validateNamed sharedList name).run s = (validateNamed separateLists name).run s := by
  -- a container has its address before its parts have theirs
  have hacyclic : sharedList.root.Acyclic sharedList.heap := by
    apply Value.acyclic_of_rank fun p => sharedList.size - p.val
    decide
  have hacyclic' : separateLists.root.Acyclic separateLists.heap := by
    apply Value.acyclic_of_rank fun p => separateLists.size - p.val
    decide
  have hsame : sharedList.root.SameContents sharedList.heap separateLists.heap
      separateLists.root := ⟨fun p q => p.val = 0 ↔ q.val = 0, by decide, by decide⟩
  exact copies_checked_alike sharedList separateLists hacyclic hacyclic' hsame

end Session

end WidgetSchema
