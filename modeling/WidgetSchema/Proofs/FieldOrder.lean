/-
The order of merged fields.

A merge never moves a field that is held, also where it changes hands, and puts
new ones behind all others. The names of the merged fields are therefore the
members' names in order of first appearance, which is an associative way to put
lists of names together. Two field tables with the same names in the same order
and the same field for each name are equal (`OrderedMap.ext_get?`), so order and
content can be proved apart.
-/
import WidgetSchema.Proofs.CombinedFields

set_option autoImplicit false

namespace WidgetSchema

/-! ## Maps as names and values -/

/-- A key that does not stand in a list is not found there. -/
theorem OrderedMap.lookup_eq_none {α : Type} {key : String} {es : List (String × α)}
    (h : key ∉ es.map Prod.fst) : es.lookup key = none := by
  rw [← Option.not_isSome_iff_eq_none, lookup_isSome]
  exact h

/-- Two lists with the same keys, none of them twice, are equal if they have the same value for
each. The induction is on both lists: the first key is not found behind the first entry. -/
theorem OrderedMap.entries_eq_of_lookup {α : Type} {es fs : List (String × α)}
    (hnodup : (es.map Prod.fst).Nodup) (hkeys : es.map Prod.fst = fs.map Prod.fst)
    (hlookup : ∀ key, es.lookup key = fs.lookup key) : es = fs := by
  induction es generalizing fs with
  | nil => exact (List.map_eq_nil_iff.1 hkeys.symm).symm
  | cons e es ih =>
    cases fs with
    | nil => cases hkeys
    | cons f fs =>
      obtain ⟨k, v⟩ := e
      obtain ⟨k', v'⟩ := f
      obtain ⟨hk, hrest⟩ := List.cons.inj hkeys
      cases hk
      obtain ⟨hnotin, hnodup⟩ := List.nodup_cons.1 hnodup
      have hv : v = v' := by simpa using hlookup k
      have hbehind (key : String) : es.lookup key = fs.lookup key := by
        by_cases hkey : key = k
        · rw [hkey, lookup_eq_none hnotin, lookup_eq_none (hrest ▸ hnotin)]
        · have hbeq : (key == k) = false := beq_eq_false_iff_ne.2 hkey
          simpa [List.lookup_cons, hbeq] using hlookup key
      rw [hv, ih hnodup hrest hbehind]

/-- A map is known from its keys in order and from what it has under each. -/
theorem OrderedMap.ext_get? {α : Type} {m n : OrderedMap α} (hkeys : m.keys = n.keys)
    (hget : ∀ key, m.get? key = n.get? key) : m = n := by
  obtain ⟨es, hes⟩ := m
  obtain ⟨fs, hfs⟩ := n
  cases entries_eq_of_lookup hes hkeys hget
  rfl

/-! ## Names in order of first appearance -/

/-- Names, and behind them those of others that are not among them. -/
def appendNew (names others : List String) : List String :=
  names ++ others.filter fun name => name ∉ names

theorem appendNew_assoc (as bs cs : List String) :
    appendNew (appendNew as bs) cs = appendNew as (appendNew bs cs) := by
  unfold appendNew
  rw [List.filter_append, List.filter_filter, List.append_assoc]
  congr 2
  refine List.filter_congr fun name _ => ?_
  by_cases ha : name ∈ as <;> simp [ha]

theorem appendNew_nil (names : List String) : appendNew [] names = names := by
  simp [appendNew]

/-- The first of the other names, then the rest. -/
theorem appendNew_cons {names others : List String} {name : String} (h : name ∉ others) :
    appendNew names (name :: others) = appendNew (appendNew names [name]) others := by
  rw [appendNew_assoc]
  have hcons : appendNew [name] others = name :: others := by
    have hall : others.filter (fun other => other ∉ [name]) = others := by
      refine List.filter_eq_self.2 fun other hother => ?_
      have hne : other ≠ name := by
        rintro rfl
        exact h hother
      simpa using hne
    rw [appendNew, hall, List.singleton_append]
  rw [hcons]

/-! ## The names of merged fields -/

variable {held held' : OrderedMap Contribution} {s : ResolvedSchema}

theorem keys_mergeField {name : String} {offered : ResolvedField}
    (h : mergeField held s name offered = .ok held') : held'.keys = appendNew held.keys [name] := by
  have hnew : appendNew held.keys [name] =
      if name ∈ held.keys then held.keys else held.keys ++ [name] := by
    by_cases hmem : name ∈ held.keys <;> simp [appendNew, hmem]
  unfold mergeField at h
  cases hname : held.get? name with
  | none =>
    simp only [hname, Except.ok.injEq] at h
    rw [← h, OrderedMap.keys_insert, hnew]
  | some c =>
    have hmem : name ∈ held.keys := by
      rw [← OrderedMap.contains_iff, OrderedMap.contains, hname]
      rfl
    simp only [hname] at h
    split at h
    · cases h
      rw [hnew, if_pos hmem]
    · -- the field changes hands at its place
      cases h
      rw [OrderedMap.keys_insert, hnew]
    · cases h

theorem keys_mergeFields {entries : List (String × ResolvedField)}
    (hnodup : (entries.map Prod.fst).Nodup) (h : mergeFields s entries held = .ok held') :
    held'.keys = appendNew held.keys (entries.map Prod.fst) := by
  induction entries generalizing held with
  | nil =>
    cases h
    simp [appendNew]
  | cons e rest ih =>
    obtain ⟨name, offered⟩ := e
    obtain ⟨hname, hrest⟩ := List.nodup_cons.1 hnodup
    rw [mergeFields_cons] at h
    cases hfield : mergeField held s name offered with
    | error conflict =>
      rw [hfield] at h
      cases h
    | ok held₁ =>
      rw [hfield] at h
      rw [ih hrest h, keys_mergeField hfield, List.map_cons, appendNew_cons hname]

/-- **The names after a merge**: those held before, then the member's new ones. -/
theorem keys_mergeMember (h : mergeMember held s = .ok held') :
    held'.keys = appendNew held.keys s.fields.keys :=
  keys_mergeFields s.fields.nodup_keys h

theorem keys_mergeMembers {members : List ResolvedSchema}
    (h : mergeMembers members held = .ok held') :
    held'.keys = members.foldl (fun names m => appendNew names m.fields.keys) held.keys := by
  induction members generalizing held with
  | nil =>
    cases h
    rfl
  | cons m members ih =>
    rw [mergeMembers_cons] at h
    cases hm : mergeMember held m with
    | error conflict =>
      rw [hm] at h
      cases h
    | ok held₁ =>
      rw [hm] at h
      rw [ih h, keys_mergeMember hm, List.foldl_cons]

/-- The merge of members succeeds exactly if the history of every field does. -/
theorem mergeMembers_isOk {members : List ResolvedSchema} :
    (∃ merged, mergeMembers members .empty = .ok merged) ↔
      ∀ f, ∃ held, hold f none (offers f members) = .ok held := by
  constructor
  · rintro ⟨merged, h⟩ f
    exact ⟨merged.get? f, mergeMembers_get? h f⟩
  · intro h
    cases hmerge : mergeMembers members .empty with
    | ok merged => exact ⟨merged, rfl⟩
    | error conflict =>
      obtain ⟨held, hheld⟩ := h conflict.field
      have hconflict := mergeMembers_conflict hmerge
      have hnone : (OrderedMap.empty : OrderedMap Contribution).get? conflict.field = none := rfl
      rw [hnone, hheld] at hconflict
      cases hconflict

/-- The names of a type that declares no field are the members' names. -/
theorem Plan.combine_keys {p : Plan} {parents : List ResolvedSchema} {s : ResolvedSchema}
    (hs : p.combine parents = .ok s) (hown : p.parts.fields = .empty) :
    s.fields.keys = parents.foldl (fun names m => appendNew names m.fields.keys) [] := by
  obtain ⟨held, hmerge, rfl⟩ := combine_eq_ok.1 hs
  have hkeys := keys_mergeMembers hmerge
  show (layFields p.key.name p.bindings p.parts.fields.entries
    (held.mapValues Contribution.field)).keys = _
  rw [hown]
  show (held.mapValues Contribution.field).keys = _
  rw [OrderedMap.keys_mapValues, hkeys]
  rfl

end WidgetSchema
