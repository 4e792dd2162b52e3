/-
A table has many spellings.

A group of types may stand in a table as it is, or each of its types may stand there in its
place under its full name, and so at every depth of the groups around it (`Respelled`). Both
flatten to the same entries, because a group does nothing but put its name before the names
inside it (`flattenAll_leading`). What is flat has no groups left, so flattening it again
changes nothing (`flattenAll_flat`), and dissolving one group after the other ends there
(`respelled_flat`).

Registration reads a table by its flat entries only, so all spellings register alike.
-/
import Mathlib.Logic.Relation
import WidgetSchema.Session

set_option autoImplicit false

namespace WidgetSchema

/-- A table of entries under keys, in order. -/
abbrev EntryTable := List (Atom × Entry)

namespace Entry

variable {name leading : String} {entry : Entry} {fields before behind : EntryTable}

/-- A group of types. -/
def IsGroup : Entry → Prop
  | table fields => isNamespace fields = true
  | _ => False

/-! ## Names -/

/-- Types with a text before their names. -/
def ledBy (leading : String) (types : List (String × Entry)) : List (String × Entry) :=
  types.map fun e => (leading ++ e.1, e.2)

@[simp] theorem ledBy_nil : ledBy leading [] = [] := rfl

@[simp] theorem ledBy_append (types others : List (String × Entry)) :
    ledBy leading (types ++ others) = ledBy leading types ++ ledBy leading others :=
  List.map_append

theorem flatten_group (h : isNamespace fields = true) :
    flatten name (table fields) = flattenAll (name ++ ".") fields := by
  rw [flatten, if_pos h]

/-- What is no group stands for itself. -/
theorem flatten_of_not_group (h : ¬ entry.IsGroup) : flatten name entry = [(name, entry)] := by
  cases entry with
  | table fields =>
    have hfields : ¬ isNamespace fields = true := h
    rw [flatten, if_neg hfields]
  | atom | list | tuple | definition => rw [flatten]

theorem flattenAll_append :
    flattenAll leading (before ++ behind) =
      flattenAll leading before ++ flattenAll leading behind := by
  induction before with
  | nil => rw [flattenAll, List.nil_append, List.nil_append]
  | cons e before ih =>
    obtain ⟨key, entry⟩ := e
    rw [List.cons_append, flattenAll, flattenAll, ih, List.append_assoc]

mutual
/-- A text before the name of an entry comes before the names of all its types. -/
theorem flatten_leading (leading name : String) :
    (entry : Entry) → flatten (leading ++ name) entry = ledBy leading (flatten name entry)
  | table fields => by
    rw [flatten, flatten]
    split
    · rw [String.append_assoc]
      exact flattenAll_leading leading (name ++ ".") fields
    · rfl
  | atom _ | list _ | tuple _ | definition _ _ => by
    rw [flatten, flatten]
    rfl

/-- **A text before a table comes before the names of all its types.** -/
theorem flattenAll_leading (leading further : String) :
    (fields : EntryTable) →
      flattenAll (leading ++ further) fields = ledBy leading (flattenAll further fields)
  | [] => by
    rw [flattenAll, flattenAll, ledBy_nil]
  | (key, entry) :: rest => by
    rw [flattenAll, flattenAll, ledBy_append, String.append_assoc,
      flatten_leading leading (further ++ key.keyText) entry,
      flattenAll_leading leading further rest]
end

/-! ## Flat tables -/

/-- Types as a table of their own. -/
def tableOf (types : List (String × Entry)) : EntryTable :=
  types.map fun e => (.text e.1, e.2)

mutual
theorem not_group_of_mem_flatten (name : String) :
    (entry : Entry) → ∀ e ∈ flatten name entry, ¬ e.2.IsGroup
  | table fields => by
    rw [flatten]
    split
    · exact not_group_of_mem_flattenAll _ fields
    · next h =>
      intro e he
      rw [List.mem_singleton.1 he]
      exact h
  | atom _ | list _ | tuple _ | definition _ _ => by
    rw [flatten]
    intro e he
    rw [List.mem_singleton.1 he]
    exact id

/-- **No group is left** among the types of a table. -/
theorem not_group_of_mem_flattenAll (leading : String) :
    (fields : EntryTable) → ∀ e ∈ flattenAll leading fields, ¬ e.2.IsGroup
  | [] => by
    rw [flattenAll]
    exact List.forall_mem_nil _
  | (key, entry) :: rest => by
    rw [flattenAll]
    intro e he
    rcases List.mem_append.1 he with he | he
    · exact not_group_of_mem_flatten _ entry e he
    · exact not_group_of_mem_flattenAll leading rest e he
end

/-- A table without groups has the types that stand in it. -/
theorem flattenAll_tableOf {types : List (String × Entry)} (h : ∀ e ∈ types, ¬ e.2.IsGroup) :
    flattenAll leading (tableOf types) = ledBy leading types := by
  induction types with
  | nil =>
    rw [tableOf, List.map_nil, flattenAll, ledBy_nil]
  | cons e types ih =>
    obtain ⟨hfirst, hrest⟩ := List.forall_mem_cons.1 h
    have hflat := ih hrest
    show flattenAll leading ((.text e.1, e.2) :: tableOf types) = _
    rw [flattenAll, hflat, flatten_of_not_group hfirst]
    rfl

/-- **Flattening what is flat changes nothing.** -/
theorem flattenAll_flat (leading : String) (fields : EntryTable) :
    flattenAll "" (tableOf (flattenAll leading fields)) = flattenAll leading fields := by
  rw [flattenAll_tableOf (not_group_of_mem_flattenAll leading fields)]
  simp [ledBy]

/-! ## Spellings -/

/-- Entries under their names, which are their keys behind a leading text. -/
def underNames (leading : String) (fields : EntryTable) : EntryTable :=
  fields.map fun e => (.text (leading ++ e.1.keyText), e.2)

@[simp] theorem underNames_nil : underNames leading [] = [] := rfl

/-- One group of the first table is dissolved in the second one: its types stand in its place,
each under the key of the group, a dot and its own key. The group may stand in other groups. -/
inductive Respelled : EntryTable → EntryTable → Prop
  | dissolve (before behind : EntryTable) {inner : EntryTable} {key : Atom}
      (h : isNamespace inner = true) :
      Respelled (before ++ (key, table inner) :: behind)
        (before ++ underNames (key.keyText ++ ".") inner ++ behind)
  | within (before behind : EntryTable) {inner inner' : EntryTable} {key : Atom}
      (h : isNamespace inner = true) (hinner : Respelled inner inner') :
      Respelled (before ++ (key, table inner) :: behind) (before ++ (key, table inner') :: behind)

/-- The tables differ in spelling only: groups are dissolved, or formed again, one after the
other, or a table is given as the list of its types. -/
def SpelledAlike : EntryTable → EntryTable → Prop :=
  Relation.EqvGen fun fields fields' =>
    Respelled fields fields' ∨ fields' = tableOf (flattenAll "" fields)

theorem isNamespace_iff :
    isNamespace fields = true ↔ fields ≠ [] ∧ ∀ e ∈ fields, isCapitalized e.1 = true := by
  simp [isNamespace]

/-- The first letter stays the first. -/
theorem isCapitalized_append {s : String} (h : isCapitalized (.text s) = true) (t : String) :
    isCapitalized (.text (s ++ t)) = true := by
  simp only [isCapitalized, String.toList_append] at h ⊢
  cases hs : s.toList with
  | nil =>
    rw [hs] at h
    cases h
  | cons c cs =>
    rw [hs] at h
    exact h

theorem isCapitalized_of_key {key : Atom} (h : isCapitalized key = true) (behind : String) :
    isCapitalized (.text (key.keyText ++ behind)) = true := by
  cases key with
  | text s => exact isCapitalized_append h behind
  | _ => cases h

/-- A group in which a group is dissolved is a group still. -/
theorem Respelled.isNamespace {inner inner' : EntryTable} (h : Respelled inner inner')
    (hinner : Entry.isNamespace inner = true) : Entry.isNamespace inner' = true := by
  rw [isNamespace_iff] at hinner ⊢
  obtain ⟨-, hcapital⟩ := hinner
  cases h with
  | @dissolve before behind group key hgroup =>
    -- the names that replace the group begin with its own, which is capitalized
    have hkey : isCapitalized key = true := hcapital (key, table group) (by simp)
    obtain ⟨hne, -⟩ := isNamespace_iff.1 hgroup
    refine ⟨by simp [underNames, hne], fun e he => ?_⟩
    simp only [List.mem_append, List.append_assoc] at he
    rcases he with he | he | he
    · exact hcapital e (by simp [he])
    · obtain ⟨f, -, rfl⟩ := List.mem_map.1 he
      dsimp only
      rw [String.append_assoc]
      exact isCapitalized_of_key hkey _
    · exact hcapital e (by simp [he])
  | @within before behind group group' key hgroup _ =>
    refine ⟨by simp, fun e he => ?_⟩
    simp only [List.mem_append, List.mem_cons] at he
    rcases he with he | rfl | he
    · exact hcapital e (by simp [he])
    · exact hcapital (key, table group) (by simp)
    · exact hcapital e (by simp [he])

/-- A text before the keys of a table may as well stand before the table. -/
theorem flattenAll_underNames (leading further : String) (fields : EntryTable) :
    flattenAll leading (underNames further fields) = flattenAll (leading ++ further) fields := by
  induction fields with
  | nil => rw [underNames_nil, flattenAll, flattenAll]
  | cons e fields ih =>
    obtain ⟨key, entry⟩ := e
    show flattenAll leading
      ((.text (further ++ key.keyText), entry) :: underNames further fields) = _
    rw [flattenAll, flattenAll, ih, String.append_assoc]
    rfl

/-- **A dissolved group leaves the flat table as it was**, by induction on the groups
around it. -/
theorem Respelled.flattenAll_eq {fields fields' : EntryTable} (h : Respelled fields fields')
    (leading : String) : flattenAll leading fields = flattenAll leading fields' := by
  induction h generalizing leading with
  | dissolve before behind h =>
    rw [List.append_assoc, flattenAll_append, flattenAll_append, flattenAll_append, flattenAll,
      flatten_group h, flattenAll_underNames, String.append_assoc]
  | within before behind h hinner ih =>
    rw [flattenAll_append, flattenAll_append, flattenAll, flattenAll, flatten_group h,
      flatten_group (hinner.isNamespace h), ih]

theorem SpelledAlike.flattenAll_eq {fields fields' : EntryTable} (h : SpelledAlike fields fields') :
    flattenAll "" fields = flattenAll "" fields' := by
  induction h with
  | rel fields fields' h =>
    rcases h with h | rfl
    · exact h.flattenAll_eq ""
    · exact (flattenAll_flat "" fields).symm
  | refl => rfl
  | symm _ _ _ ih => exact ih.symm
  | trans _ _ _ _ _ ih ih' => exact ih.trans ih'

/-! ## Dissolving all groups -/

/-- A group may be dissolved wherever its entries stand. -/
theorem Respelled.between {fields fields' : EntryTable} (h : Respelled fields fields')
    (first last : EntryTable) : Respelled (first ++ fields ++ last) (first ++ fields' ++ last) := by
  cases h with
  | @dissolve before behind inner key h =>
    have hstep : Respelled (first ++ before ++ (key, table inner) :: (behind ++ last))
        (first ++ before ++ underNames (key.keyText ++ ".") inner ++ (behind ++ last)) :=
      .dissolve _ _ h
    simpa only [List.append_assoc, List.cons_append] using hstep
  | @within before behind inner inner' key h hinner =>
    have hstep : Respelled (first ++ before ++ (key, table inner) :: (behind ++ last))
        (first ++ before ++ (key, table inner') :: (behind ++ last)) := .within _ _ h hinner
    simpa only [List.append_assoc, List.cons_append] using hstep

open Relation (ReflTransGen)

mutual
theorem respelled_flatten (name : String) : (entry : Entry) →
    ReflTransGen Respelled [(.text name, entry)] (tableOf (flatten name entry))
  | table fields => by
    rw [flatten]
    split
    · next h =>
      have hstep : Respelled ([] ++ (.text name, table fields) :: [])
          ([] ++ underNames (name ++ ".") fields ++ []) := .dissolve [] [] h
      rw [List.nil_append, List.nil_append, List.append_nil] at hstep
      exact .head hstep (respelled_flattenAll (name ++ ".") fields)
    · exact .refl
  | atom _ | list _ | tuple _ | definition _ _ => by
    rw [flatten]
    exact .refl

/-- **Dissolving one group after the other ends with the flat table.** -/
theorem respelled_flattenAll (leading : String) : (fields : EntryTable) →
    ReflTransGen Respelled (underNames leading fields) (tableOf (flattenAll leading fields))
  | [] => by
    rw [flattenAll]
    exact .refl
  | (key, entry) :: rest => by
    -- first the groups of this entry, then those of the others
    have hfirst := respelled_flatten (leading ++ key.keyText) entry
    have hrest := respelled_flattenAll leading rest
    rw [flattenAll, tableOf, List.map_append]
    refine .trans ?_ (hrest.lift (tableOf (flatten (leading ++ key.keyText) entry) ++ ·) ?_)
    · exact hfirst.lift (· ++ underNames leading rest) fun _ _ h => h.between [] _
    · intro t t' h
      have hbetween := h.between (tableOf (flatten (leading ++ key.keyText) entry)) []
      simpa only [List.append_nil] using hbetween
end

/-- Keys that are texts are the names of the entries. -/
theorem underNames_empty {fields : EntryTable} (h : ∀ e ∈ fields, ∃ name, e.1 = .text name) :
    underNames "" fields = fields := by
  have hid : fields.map (fun e => (Atom.text ("" ++ e.1.keyText), e.2)) = fields.map id := by
    refine List.map_congr_left fun e he => ?_
    obtain ⟨name, hname⟩ := h e he
    obtain ⟨key, entry⟩ := e
    cases hname
    rw [Atom.keyText, String.empty_append]
    rfl
  rw [List.map_id] at hid
  exact hid

end Entry

/-! ## Registering -/

namespace Session

open Entry (Respelled SpelledAlike tableOf)

/-- **Nested, dotted and flat tables are one table.** A text before a table comes before the
names of its types, and what is flat stays as it is. A group at any depth may be dissolved
into its types without changing the flat table, and if the keys are texts, dissolving one
group after the other ends with the flat table. So tables that differ in spelling only register
alike: on every registry they leave the same registry and return the same names or fail with
the same error, and in every session so does a registration that ends the build phase. -/
theorem spellings_register_alike :
    (∀ leading table, flattenTable leading table =
      (flattenTable "" table).map fun e => (leading ++ e.1, e.2)) ∧
    (∀ leading table,
      flattenTable "" (tableOf (flattenTable leading table)) = flattenTable leading table) ∧
    (∀ table table', Respelled table table' →
      ∀ leading, flattenTable leading table = flattenTable leading table') ∧
    (∀ table, (∀ e ∈ table, ∃ name, e.1 = .text name) →
      Relation.ReflTransGen Respelled table (tableOf (flattenTable "" table))) ∧
    ∀ table table', SpelledAlike table table' →
      (∀ strict r, (Registry.registerAll strict (flattenTable "" table)).run r =
        (Registry.registerAll strict (flattenTable "" table')).run r) ∧
      ∀ allow s, (buildFrom (flattenTable "" table) allow).run s =
        (buildFrom (flattenTable "" table') allow).run s := by
  refine ⟨fun leading table => ?_, Entry.flattenAll_flat, fun table table' h => h.flattenAll_eq,
    fun table htexts => ?_, fun table table' h => ?_⟩
  · have hled := Entry.flattenAll_leading leading "" table
    rw [String.append_empty] at hled
    exact hled
  · have hsteps := Entry.respelled_flattenAll "" table
    rw [Entry.underNames_empty htexts] at hsteps
    exact hsteps
  · have hflat : flattenTable "" table = flattenTable "" table' := h.flattenAll_eq
    rw [hflat]
    exact ⟨fun _ _ => rfl, fun _ _ => rfl⟩

/-- A group with a struct and a group inside it. -/
def nestedShapes : EntryTable :=
  [(.text "Shape", .table
    [(.text "Disc", .table [(.text "radius", .atom (.text "number"))]),
     (.text "Edge", .table [(.text "Style", .atom (.text "string"))])])]

/-- The same with the types of the inner group in its place. -/
def dottedShapes : EntryTable :=
  [(.text "Shape", .table
    [(.text "Disc", .table [(.text "radius", .atom (.text "number"))]),
     (.text "Edge.Style", .atom (.text "string"))])]

/-- The two declare the same types, and so does the list of these types. -/
theorem shapes_register_alike :
    let flat := [("Shape.Disc", Entry.table [(.text "radius", .atom (.text "number"))]),
      ("Shape.Edge.Style", .atom (.text "string"))]
    Respelled nestedShapes dottedShapes ∧ SpelledAlike nestedShapes (tableOf flat) ∧
      flattenTable "My." nestedShapes = flattenTable "My." dottedShapes ∧
      Relation.ReflTransGen Respelled nestedShapes (tableOf flat) ∧
      ((Registry.registerAll false (flattenTable "" nestedShapes)).run .empty).state.names =
        ["Shape.Disc", "Shape.Edge.Style"] ∧
      (Registry.registerAll false (flattenTable "" nestedShapes)).run .empty =
        (Registry.registerAll false (flattenTable "" (tableOf flat))).run .empty := by
  intro flat
  obtain ⟨-, -, hstep, hsteps, hregister⟩ := spellings_register_alike
  -- the inner group is dissolved inside the outer one
  have hinner : Respelled [(.text "Disc", .table [(.text "radius", .atom (.text "number"))]),
        (.text "Edge", .table [(.text "Style", .atom (.text "string"))])]
      [(.text "Disc", .table [(.text "radius", .atom (.text "number"))]),
        (.text "Edge.Style", .atom (.text "string"))] :=
    .dissolve [(.text "Disc", .table [(.text "radius", .atom (.text "number"))])] [] (by decide)
  have hrespelled : Respelled nestedShapes dottedShapes :=
    .within [] [] (by decide) hinner
  have hflat : tableOf (flattenTable "" nestedShapes) = tableOf flat := rfl
  have halike : SpelledAlike nestedShapes (tableOf flat) := .rel _ _ (.inr hflat.symm)
  have htexts : ∀ e ∈ nestedShapes, ∃ name, e.1 = .text name := by
    intro e he
    rw [List.mem_singleton.1 he]
    exact ⟨"Shape", rfl⟩
  exact ⟨hrespelled, halike, hstep _ _ hrespelled "My.", hflat ▸ hsteps _ htexts, by decide,
    (hregister _ _ halike).1 false .empty⟩

end Session

end WidgetSchema
