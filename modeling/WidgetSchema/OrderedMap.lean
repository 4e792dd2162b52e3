/-
Maps from texts to values that keep the order of insertion.

A map is the list of its entries, and no key stands in it twice; the type
carries that. Giving a value to a key that is there leaves the key at its place,
a new key goes behind all others. Tags, fields, definitions and resolved fields
are all kept in such maps, because answers show their order.
-/
set_option autoImplicit false

namespace WidgetSchema

/-- What is found under a key stands in the list. -/
theorem mem_of_lookup {α β : Type} [BEq α] [LawfulBEq α] {key : α} {value : β}
    {entries : List (α × β)} (h : entries.lookup key = some value) : (key, value) ∈ entries := by
  obtain ⟨l₁, l₂, hsplit, -⟩ := List.lookup_eq_some_iff.1 h
  rw [hsplit]
  exact List.mem_append_right _ List.mem_cons_self

/-- Entries in order, no key twice. -/
structure OrderedMap (α : Type) where
  entries : List (String × α)
  nodup_keys : (entries.map Prod.fst).Nodup
deriving DecidableEq

namespace OrderedMap

variable {α β : Type}

/-- The map without entries. -/
def empty : OrderedMap α := ⟨[], List.nodup_nil⟩

instance : Inhabited (OrderedMap α) := ⟨empty⟩

/-- The keys, in order. -/
def keys (m : OrderedMap α) : List String := m.entries.map Prod.fst

/-- The values, in order. -/
def values (m : OrderedMap α) : List α := m.entries.map Prod.snd

/-- The number of entries. -/
def size (m : OrderedMap α) : Nat := m.entries.length

/-- The map has no entry. -/
def isEmpty (m : OrderedMap α) : Bool := m.entries.isEmpty

/-- The value of a key. -/
def get? (m : OrderedMap α) (key : String) : Option α := m.entries.lookup key

/-- The key has a value. -/
def contains (m : OrderedMap α) (key : String) : Bool := (m.get? key).isSome

/-- A key is found if it stands in the list. -/
theorem lookup_isSome (key : String) (es : List (String × α)) :
    (es.lookup key).isSome = true ↔ key ∈ es.map Prod.fst := by
  induction es with
  | nil => simp
  | cons e es ih =>
    obtain ⟨k, v⟩ := e
    by_cases h : key = k
    · simp [h]
    · have hk : (key == k) = false := by simp [h]
      simp [List.lookup_cons, hk, h, ih]

/-- The keys are exactly what has a value. -/
theorem contains_iff {m : OrderedMap α} {key : String} :
    m.contains key = true ↔ key ∈ m.keys :=
  lookup_isSome key m.entries

/-- No key stands twice, so every entry is what is found under its key. -/
theorem get?_eq_some {m : OrderedMap α} {key : String} {value : α} :
    m.get? key = some value ↔ (key, value) ∈ m.entries := by
  constructor
  · intro h
    exact mem_of_lookup h
  · intro h
    obtain ⟨l₁, l₂, hsplit⟩ := List.append_of_mem h
    have hnodup := m.nodup_keys
    rw [hsplit, List.map_append, List.nodup_append] at hnodup
    refine List.lookup_eq_some_iff.2 ⟨l₁, l₂, hsplit, fun p hp => ?_⟩
    have hne : p.1 ≠ key := hnodup.2.2 _ (List.mem_map_of_mem hp) _ List.mem_cons_self
    simpa using hne.symm

/-! ## Insertion -/

/-- Gives a key a value in a list of entries. -/
def assign (key : String) (value : α) : List (String × α) → List (String × α)
  | [] => [(key, value)]
  | (k, v) :: rest => if k = key then (k, value) :: rest else (k, v) :: assign key value rest

/-- An assigned key stands behind the others if it is new, and nothing moves if
it is not. -/
theorem keys_assign (key : String) (value : α) (es : List (String × α)) :
    (assign key value es).map Prod.fst =
      if key ∈ es.map Prod.fst then es.map Prod.fst else es.map Prod.fst ++ [key] := by
  induction es with
  | nil => simp [assign]
  | cons e es ih =>
    obtain ⟨k, v⟩ := e
    by_cases h : k = key
    · subst h; simp [assign]
    · have h' : ¬ key = k := fun e => h e.symm
      simp only [assign, h, if_false, List.map_cons, ih, List.mem_cons, h', false_or]
      split <;> rfl

/-- Assigning replaces an entry where it stands or adds one at the end, so no key comes twice. -/
theorem nodup_assign {key : String} {value : α} {es : List (String × α)}
    (h : (es.map Prod.fst).Nodup) : ((assign key value es).map Prod.fst).Nodup := by
  rw [keys_assign]
  split
  · exact h
  · next hk =>
    refine List.nodup_append.2 ⟨h, by simp, fun a ha b hb => ?_⟩
    rintro rfl
    have hkey : a = key := by simpa using hb
    exact hk (hkey ▸ ha)

/-- A key is found with its last value, and other keys are found as before. -/
theorem lookup_assign (key k : String) (value : α) (es : List (String × α)) :
    (assign key value es).lookup k = if k = key then some value else es.lookup k := by
  induction es with
  | nil =>
    by_cases h : k = key
    · simp [assign, h]
    · have : (k == key) = false := by simp [h]
      simp [assign, List.lookup_cons, this, h]
  | cons e es ih =>
    obtain ⟨k', v⟩ := e
    by_cases h : k' = key
    · subst h
      by_cases hk : k = k'
      · simp [assign, hk]
      · have : (k == k') = false := by simp [hk]
        simp [assign, List.lookup_cons, this, hk]
    · by_cases hk : k = k'
      · subst hk; simp [assign, h]
      · have : (k == k') = false := by simp [hk]
        simp [assign, h, List.lookup_cons, this, ih]

/-- The map with a key given a value. -/
def insert (m : OrderedMap α) (key : String) (value : α) : OrderedMap α :=
  ⟨assign key value m.entries, nodup_assign m.nodup_keys⟩

/-- A new key goes to the end; one that is there keeps its place. -/
@[simp] theorem keys_insert (m : OrderedMap α) (key : String) (value : α) :
    (m.insert key value).keys = if key ∈ m.keys then m.keys else m.keys ++ [key] :=
  keys_assign key value m.entries

/-- The last value of a key is the one that counts. -/
@[simp] theorem get?_insert (m : OrderedMap α) (key k : String) (value : α) :
    (m.insert key value).get? k = if k = key then some value else m.get? k :=
  lookup_assign key k value m.entries

/-- A new key is assigned behind all others. -/
theorem assign_of_new {key : String} {value : α} {es : List (String × α)}
    (h : key ∉ es.map Prod.fst) : assign key value es = es ++ [(key, value)] := by
  induction es with
  | nil => rfl
  | cons e es ih =>
    obtain ⟨k, v⟩ := e
    rw [List.map_cons, List.mem_cons, not_or] at h
    rw [assign, if_neg (Ne.symm h.1), ih h.2]
    rfl

/-- An entry under a new key goes behind all others. -/
theorem entries_insert_of_new {m : OrderedMap α} {key : String} {value : α}
    (h : key ∉ m.keys) : (m.insert key value).entries = m.entries ++ [(key, value)] :=
  assign_of_new h

/-- The map of a list of entries: the last value of a key counts, at the place of
the first one. -/
def ofList (entries : List (String × α)) : OrderedMap α :=
  entries.foldl (fun m e => m.insert e.1 e.2) empty

/-- Entries under new keys that differ go behind all others, in their order. -/
theorem entries_foldl_insert {m : OrderedMap α} {es : List (String × α)}
    (h : (m.keys ++ es.map Prod.fst).Nodup) :
    (es.foldl (fun m e => m.insert e.1 e.2) m).entries = m.entries ++ es := by
  induction es generalizing m with
  | nil => exact (List.append_nil _).symm
  | cons e es ih =>
    have hnew : e.1 ∉ m.keys := by
      intro hmem
      exact (List.nodup_append.1 h).2.2 e.1 hmem e.1 List.mem_cons_self rfl
    have hkeys : (m.insert e.1 e.2).keys = m.keys ++ [e.1] := by
      rw [keys_insert, if_neg hnew]
    rw [List.map_cons, List.append_cons, ← hkeys] at h
    rw [List.foldl_cons, ih h, entries_insert_of_new hnew, List.append_assoc]
    rfl

/-- Entries without a repeated key are the entries of their map. -/
theorem entries_ofList {es : List (String × α)} (h : (es.map Prod.fst).Nodup) :
    (ofList es).entries = es :=
  entries_foldl_insert h

/-- The keys of a list of entries are the keys of their map. -/
theorem mem_keys_ofList {key : String} {es : List (String × α)} :
    key ∈ (ofList es).keys ↔ key ∈ es.map Prod.fst := by
  have hfold (m : OrderedMap α) :
      key ∈ (es.foldl (fun m e => m.insert e.1 e.2) m).keys ↔
        key ∈ m.keys ∨ key ∈ es.map Prod.fst := by
    induction es generalizing m with
    | nil => simp
    | cons e es ih =>
      rw [List.foldl_cons, ih, keys_insert, List.map_cons, List.mem_cons]
      split
      · next hmem =>
        constructor
        · rintro (h | h)
          · exact .inl h
          · exact .inr (.inr h)
        · rintro (h | rfl | h)
          · exact .inl h
          · exact .inl hmem
          · exact .inr h
      · rw [List.mem_append, List.mem_singleton, or_assoc]
  rw [ofList, hfold]
  simp [empty, keys]

/-- A map is the map of its entries. -/
theorem ofList_entries (m : OrderedMap α) : ofList m.entries = m := by
  have hentries := entries_ofList m.nodup_keys
  obtain ⟨entries, nodup⟩ := m
  generalize ofList entries = m' at hentries
  obtain ⟨entries', nodup'⟩ := m'
  cases hentries
  rfl

/-! ## Values -/

/-- The map with every value changed. -/
def mapValues (m : OrderedMap α) (f : α → β) : OrderedMap β :=
  ⟨m.entries.map fun e => (e.1, f e.2), by
    simpa [List.map_map, Function.comp_def] using m.nodup_keys⟩

@[simp] theorem keys_mapValues (m : OrderedMap α) (f : α → β) :
    (m.mapValues f).keys = m.keys := by
  simp [mapValues, keys, List.map_map, Function.comp_def]

/-- A value is found where it was, and changed. -/
theorem lookup_map (f : α → β) (key : String) (es : List (String × α)) :
    (es.map fun e => (e.1, f e.2)).lookup key = (es.lookup key).map f := by
  induction es with
  | nil => simp
  | cons e es ih =>
    obtain ⟨k, v⟩ := e
    simp only [List.map_cons, List.lookup_cons]
    cases key == k <;> simp [ih]

theorem mapValues_mapValues {γ : Type} (m : OrderedMap α) (f : α → β) (g : β → γ) :
    (m.mapValues f).mapValues g = m.mapValues (g ∘ f) := by
  simp [mapValues, List.map_map, Function.comp_def]

@[simp] theorem get?_mapValues (m : OrderedMap α) (f : α → β) (key : String) :
    (m.mapValues f).get? key = (m.get? key).map f :=
  lookup_map f key m.entries

/-! ## Removal -/

/-- The map without a key. -/
def erase (m : OrderedMap α) (key : String) : OrderedMap α :=
  ⟨m.entries.filter fun e => e.1 != key,
    (List.filter_sublist.map Prod.fst).nodup m.nodup_keys⟩

@[simp] theorem keys_erase (m : OrderedMap α) (key : String) :
    (m.erase key).keys = m.keys.filter (· != key) := by
  simp [erase, keys, List.filter_map, Function.comp_def]

/-- A key that was removed is not found, and other keys are found as before. -/
theorem lookup_filter (key k : String) (es : List (String × α)) :
    (es.filter fun e => e.1 != key).lookup k = if k = key then none else es.lookup k := by
  induction es with
  | nil => simp
  | cons e es ih =>
    obtain ⟨k', v⟩ := e
    by_cases h : k' = key
    · subst h
      simp only [List.filter_cons, bne_self_eq_false, Bool.false_eq_true, if_false, ih]
      by_cases hk : k = k'
      · simp [hk]
      · have hkk : (k == k') = false := by simp [hk]
        simp only [List.lookup_cons, hk, hkk, if_false]
    · have kept : (k' != key) = true := by simp [h]
      simp only [List.filter_cons, kept, if_true, List.lookup_cons, ih]
      by_cases hk : k = k'
      · subst hk; simp [h]
      · have hkk : (k == k') = false := by simp [hk]
        simp only [hkk]

@[simp] theorem get?_erase (m : OrderedMap α) (key k : String) :
    (m.erase key).get? k = if k = key then none else m.get? k :=
  lookup_filter key k m.entries

end OrderedMap

end WidgetSchema
