/-
Registries of raw entries.

A raw entry is read: it is a text or a table, and no ready definition. The prelude has
one ready definition and is registered with every session that asks for it. All that a
session of raw entries can have registered is therefore what such an entry or one of the
prelude declares, under a name that types can have; and a property of these holds of every
definition after every history (`Session.each_after`).

One such property is that a definition can be written: its expressions are well-formed and
its parameters have different names (`Session.writable_after`).
-/
import WidgetSchema.Proofs.Histories
import WidgetSchema.Proofs.MentionedNames
import WidgetSchema.Proofs.Redeclaration

set_option autoImplicit false

namespace WidgetSchema

/-- The entry has to be read: it is no ready definition. -/
def Entry.IsRaw (entry : Entry) : Prop := ∀ d texts, entry ≠ .definition d texts

theorem Entry.isRaw_atom (a : Atom) : (atom a).IsRaw := fun _ _ h => nomatch h

theorem Entry.isRaw_table (fields : List (Atom × Entry)) : (table fields).IsRaw :=
  fun _ _ h => nomatch h

instance (entry : Entry) : Decidable entry.IsRaw :=
  match entry with
  | .atom _ | .list _ | .tuple _ | .table _ => isTrue fun _ _ h => nomatch h
  | .definition d texts => isFalse fun h => h d texts rfl

namespace Registry

variable {r : Registry} {strict : Bool} {entries : List (String × Entry)}
  {P : String × Definition → Prop}

/-- The property holds of every definition, taken with the name it is registered under. -/
def Each (P : String × Definition → Prop) (r : Registry) : Prop :=
  ∀ d ∈ r.definitions.entries, P d

theorem each_empty : Registry.empty.Each P := fun d h => by cases h

/-- The property holds of whatever raw entries and those of the prelude declare under
names that types can have. -/
def HoldsOfRaw (P : String × Definition → Prop) : Prop :=
  ∀ strict e d, e.2.IsRaw ∨ e ∈ prelude → Declares strict e d → isTypeName d.1 = true → P d

/-- A batch adds what its entries declare, and nothing else. -/
theorem Each.registerEach (hr : r.Each P) (hP : HoldsOfRaw P)
    (hentries : ∀ e ∈ entries, e.2.IsRaw ∨ e ∈ prelude) :
    ((Registry.registerEach strict entries).run r).state.Each P := by
  obtain ⟨_, _, -, -, hadded, -⟩ := registerEach_steps strict entries r
  intro d hmem
  rw [hadded.1, List.mem_append] at hmem
  rcases hmem with hold | hnew
  · exact hr d hold
  · obtain ⟨htype, e, he, hdeclares⟩ := declared_of_acceptedEach hnew
    exact hP strict e d (hentries e he) hdeclares htype

end Registry

namespace Session

/-- A call that registers raw entries only, if it registers any. -/
def Call.IsRaw : Call → Prop
  | register _ entry => entry.IsRaw
  | registerAll table | build table _ => ∀ e ∈ flattenTable "" table, e.2.IsRaw
  | _ => True

instance (call : Call) : Decidable call.IsRaw :=
  match call with
  | .register _ entry => inferInstanceAs (Decidable entry.IsRaw)
  | .registerAll table | .build table _ =>
    inferInstanceAs (Decidable (∀ e ∈ flattenTable "" table, e.2.IsRaw))
  | .freeze | .resolve _ | .resolveStruct _ | .resolveExpression _ | .requiredFields _
  | .requiredFieldsOf _ | .admitsAbsence _ | .validate .. | .validateNamed .. | .clearMemo =>
    isTrue trivial

section

variable {P : Registry → Prop}

/-- An action on the memo leaves the registry alone. -/
theorem keeps_registry_onMemo {α : Type} (x : Composer → Action Fault Memo α) :
    (onMemo x).Keeps fun s => P s.registry := fun _ hs => hs

theorem keeps_registry_registerTable {entries : List (String × Entry)}
    (h : ∀ strict r, P r → P ((Registry.registerEach strict entries).run r).state) :
    (registerTable entries).Keeps fun s => P s.registry := by
  intro s hs
  have hrun := (Registry.registerAll_run s.strictTags entries s.registry).1
  show P ((Registry.registerAll s.strictTags entries).run s.registry).state
  rw [hrun]
  exact h _ _ hs

end

/-- The entries that a call registers, if it registers any. -/
def Call.entries : Call → List (String × Entry)
  | register name entry => [(name, entry)]
  | registerAll table | build table _ => flattenTable "" table
  | _ => []

theorem Call.IsRaw.entries {call : Call} (h : call.IsRaw) : ∀ e ∈ call.entries, e.2.IsRaw := by
  cases call with
  | register name entry => exact List.forall_mem_singleton.2 h
  | registerAll table | build table allowDangling => exact h
  | _ => exact List.forall_mem_nil _

/-- **A call keeps of the registry** what its entries and the end of the build phase keep. -/
theorem keeps_registry {P : Registry → Prop} (hfreeze : ∀ r, P r → P r.freeze) (call : Call)
    (hentries : ∀ strict r, P r → P ((Registry.registerEach strict call.entries).run r).state) :
    call.perform.Keeps fun s => P s.registry := by
  have hfreeze : freeze.Keeps fun s => P s.registry := fun s hs => hfreeze s.registry hs
  cases call with
  | register name entry =>
    refine Action.Keeps.map _ fun s hs => ?_
    show P ((Registry.register s.strictTags name entry).run s.registry).state
    rw [Registry.register_eq_registerEach]
    exact hentries s.strictTags s.registry hs
  | registerAll table => exact (keeps_registry_registerTable hentries).map _
  | build table allowDangling =>
    refine Action.Keeps.map _ ?_
    refine (keeps_registry_registerTable hentries).bind fun names => ?_
    refine hfreeze.bind fun _ => Action.keeps_get.bind fun s => ?_
    refine (Action.keeps_of_state (state_noteDangling _)).bind fun _ => ?_
    split
    · exact Action.keeps_pure _
    · split
      · exact Action.keeps_pure _
      · exact Action.keeps_fail _
  | freeze => exact hfreeze
  | requiredFieldsOf name =>
    exact (keeps_registry_onMemo _).bind fun s => (keeps_registry_onMemo _).map _
  | clearMemo => exact fun _ hs => hs
  | resolve | resolveStruct | resolveExpression | requiredFields | admitsAbsence | validate
  | validateNamed => exact (keeps_registry_onMemo _).map _

/-- What all calls of a history keep holds behind it. -/
theorem after_of_keeps {P : Session → Prop} {s : Session} {history : List Call} (hs : P s)
    (hkeeps : ∀ call ∈ history, call.perform.Keeps P) : P (s.after history) := by
  induction history generalizing s with
  | nil => exact hs
  | cons call rest ih =>
    obtain ⟨hcall, hrest⟩ := List.forall_mem_cons.1 hkeeps
    exact ih (hcall s hs) hrest

variable {P : String × Definition → Prop}

/-- **A raw call adds raw definitions only.** -/
theorem keeps_each (hP : Registry.HoldsOfRaw P) (call : Call) (h : call.IsRaw) :
    call.perform.Keeps fun s => s.registry.Each P :=
  keeps_registry (fun _ hr => hr) call fun _ _ hr =>
    hr.registerEach hP fun e he => .inl (h.entries e he)

theorem keeps_each_addPrelude (hP : Registry.HoldsOfRaw P) :
    addPrelude.Keeps fun s => s.registry.Each P :=
  fun _ hs => hs.registerEach hP fun _ he => .inr he

/-- **What raw entries declare is all that is ever registered**, with or without the
prelude and after any calls: a property of these holds of every definition. -/
theorem each_after (hP : Registry.HoldsOfRaw P) (env : Environment) (maxDepth : Option Int)
    (prelude : Bool) {history : List Call} (hraw : ∀ call ∈ history, call.IsRaw) :
    ((opened env maxDepth prelude).after history).registry.Each P := by
  have hopened : (opened env maxDepth prelude).registry.Each P := by
    unfold opened
    split
    · exact keeps_each_addPrelude hP _ Registry.each_empty
    · exact Registry.each_empty
  exact after_of_keeps (P := fun s => s.registry.Each P) hopened
    fun call hcall => keeps_each hP call (hraw call hcall)

end Session

/-! ## Definitions that can be written -/

/-- The expressions of the definition can be written, and its parameters have different names. -/
structure Definition.Writable (d : Definition) : Prop where
  expressions : ∀ e ∈ d.expressions, e.WellFormed
  parameters : d.parameterNames.Nodup

theorem StructDef.Valid.writable {strict : Bool} {d : StructDef} (h : d.Valid strict) :
    (Definition.ofStruct d).Writable where
  expressions e he := by
    simp only [Definition.expressions, Definition.bodyExpressions, List.mem_append] at he
    rcases he with hdefault | hsuper | hfield
    · obtain ⟨p, hp, hdefault⟩ := List.mem_filterMap.1 hdefault
      exact (h.parameters.1 p hp).default e hdefault
    · exact h.supertype e (Option.mem_toList.1 hsuper)
    · obtain ⟨f, hf, rfl⟩ := List.mem_map.1 hfield
      obtain ⟨entry, hentry, rfl⟩ := List.mem_map.1 hf
      exact (h.fields entry hentry).expression
  parameters := (nodup_of_firstRepeated? h.parameters.2).1

/-- What a raw entry declares can be written. -/
theorem Definition.Valid.writable {strict : Bool} {d : Definition} (h : d.Valid strict) :
    d.Writable := by
  cases d with
  | ofStruct d => exact StructDef.Valid.writable h
  | ofAlias d =>
    obtain ⟨name, expression, parameters⟩ := d
    obtain ⟨hwell, hnone⟩ := h
    cases hnone
    exact ⟨List.forall_mem_singleton.2 hwell, List.nodup_nil⟩

namespace Registry

variable {r : Registry} {name : String} {d : Definition}

/-- All names can be read as type names, and all definitions can be written. -/
def Writable (r : Registry) : Prop := r.Each fun d => isTypeName d.1 = true ∧ d.2.Writable

theorem Writable.lookup (h : r.Writable) (hd : r.lookup name = .ok d) :
    isTypeName name = true ∧ d.Writable := h (name, d) (lookup_mem.1 hd)

/-- The ready definition of the prelude can be written, too. -/
theorem holdsOfRaw_writable : HoldsOfRaw fun d => isTypeName d.1 = true ∧ d.2.Writable := by
  rintro strict e d (hraw | he) hdeclares htype
  · exact ⟨htype, (Definition.valid_of_build hraw hdeclares.2).writable⟩
  · refine ⟨htype, ?_⟩
    simp only [prelude, List.mem_cons, List.not_mem_nil, or_false] at he
    rcases he with rfl | rfl | rfl
    · exact (Definition.valid_of_build (Entry.isRaw_atom _) hdeclares.2).writable
    · exact (Definition.valid_of_build (Entry.isRaw_atom _) hdeclares.2).writable
    · obtain ⟨name, d⟩ := d
      obtain ⟨-, hbuild⟩ := hdeclares
      cases hbuild
      refine ⟨?_, List.nodup_cons.2 ⟨List.not_mem_nil, List.nodup_nil⟩⟩
      intro e he
      rw [List.mem_singleton.1 he, TypeExpr.WellFormed, TypeExpr.WellFormed]
      decide

end Registry

/-- **Registries of raw entries can be written.** -/
theorem Session.writable_after (env : Environment) (maxDepth : Option Int) (prelude : Bool)
    {history : List Call} (hraw : ∀ call ∈ history, call.IsRaw) :
    ((opened env maxDepth prelude).after history).registry.Writable :=
  each_after Registry.holdsOfRaw_writable env maxDepth prelude hraw

end WidgetSchema
