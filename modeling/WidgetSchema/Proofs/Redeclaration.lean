/-
A definition declares itself again.

A definition is written as an entry: an alias as its expression, a struct as a table
of its parameters, its supertype and its fields, and a struct without any of these
as a pair of braces. What a raw entry declares can be written, in all its parts
(`valid_of_build`), and what can be written is declared again by its entry
(`build_toEntry`); only the texts of the fields are now the written ones.
-/
import WidgetSchema.Proofs.RegistryRuns
import WidgetSchema.Proofs.TagBoundary

set_option autoImplicit false

namespace WidgetSchema

/-! ## Definitions as entries -/

/-- A field as it is declared in a table. -/
def FieldDef.declaration (f : FieldDef) : String := f.expression.render ++ " " ++ f.tags.render

/-- The table that declares a struct. -/
def StructDef.table (d : StructDef) : List (Atom × Entry) :=
  (StructEntry.parametersKey, .list (d.parameters.map fun p => .atom (.text p.render))) ::
    (d.supertype.toList.map fun e => (StructEntry.supertypeKey, .atom (.text e.render))) ++
    d.fields.entries.map fun f => (.text f.1, .atom (.text f.2.declaration))

/-- The entry that declares a definition. -/
def Definition.toEntry : Definition → Entry
  | ofAlias d => .atom (.text d.expression.render)
  | ofStruct d =>
    if d.fields.isEmpty && d.supertype.isNone && d.parameters.isEmpty then
      .atom (.text emptyStructText)
    else .table d.table

/-- The field without the text it was declared by. -/
def FieldDef.withoutRaw (f : FieldDef) : FieldDef := { f with raw := "" }

/-- The definition without the texts its fields were declared by. -/
def Definition.withoutRaw : Definition → Definition
  | ofAlias d => .ofAlias d
  | ofStruct d => .ofStruct { d with fields := d.fields.mapValues FieldDef.withoutRaw }

/-! ## Parameters -/

namespace GenericParameter

variable {p : GenericParameter} {raw : String}

/-- The parameter can be written. -/
structure Valid (p : GenericParameter) : Prop where
  name : Name.isParameter p.name = true
  default : ∀ e ∈ p.default, e.WellFormed

/-- A parameter that was read has a name that can be read again, and a default that is
well-formed. -/
theorem valid_of_parse (h : parse raw = .ok p) : p.Valid := by
  unfold parse at h
  dsimp only at h
  split_ifs at h with hname
  split at h
  · cases h
    exact ⟨by simpa using hname, fun e he => nomatch he⟩
  · obtain ⟨e, he, hp⟩ := bind_eq_ok.1 h
    cases hp
    refine ⟨by simpa using hname, fun e' he' => ?_⟩
    cases he'
    exact TypeExpr.wellFormed_of_parse he

/-- A parameter's name is a word without an equals sign. -/
theorem name_chars (h : Name.isParameter p.name = true) :
    Text.IsWord p.name.toList ∧ '=' ∉ p.name.toList := by
  have hpart : p.name.toList ≠ [] ∧ ∀ c ∈ p.name.toList, Name.isPart c = true := by
    rw [Name.isParameter] at h
    cases hchars : p.name.toList with
    | nil =>
      rw [hchars] at h
      cases h
    | cons c cs =>
      rw [hchars, Bool.and_eq_true, List.all_eq_true] at h
      exact ⟨List.cons_ne_nil c cs, List.forall_mem_cons.2 ⟨Name.isPart_of_isStart h.1, h.2⟩⟩
  refine ⟨⟨hpart.1, fun c hc => Name.isBlank_of_isPart (hpart.2 c hc)⟩, fun hmem => ?_⟩
  exact absurd (hpart.2 _ hmem) (by decide)

/-- **A written parameter is read back.** -/
theorem parse_render (h : p.Valid) : parse p.render = .ok p := by
  obtain ⟨name, default⟩ := p
  obtain ⟨hword, hequals⟩ := name_chars h.name
  have hname : Name.isParameter name = true := h.name
  have htrim : Text.trim name.toList = name.toList := hword.tight.trim_eq
  cases default with
  | none =>
    have hcut : Text.cutAt '=' name.toList = (name.toList, none) := Text.cutAt_of_not_mem hequals
    rw [render, parse, defaultText?]
    simp [hcut, htrim, hname]
  | some e =>
    have hwell : e.WellFormed := h.default e rfl
    have hcut : Text.cutAt '=' (name ++ "=" ++ e.render).toList =
        (name.toList, some e.render.toList) := by
      rw [String.toList_append, String.toList_append, List.append_assoc]
      exact Token.cutAt_append hequals _
    rw [render, parse, defaultText?]
    simp only [hcut, htrim, hname, (TypeExpr.tight_render hwell).trim_eq, Option.map_some,
      String.ofList_toList, TypeExpr.parse_render hwell]
    rfl

end GenericParameter

/-! ## Parts of structs -/

/-- All parameters that were read are valid ones. -/
theorem valid_of_readParameters {raws : List String} {ps : List GenericParameter}
    (h : readParameters raws = .ok ps) : ∀ p ∈ ps, p.Valid := by
  induction raws generalizing ps with
  | nil =>
    cases h
    simp
  | cons raw raws ih =>
    obtain ⟨p, hp, hrest⟩ := bind_eq_ok.1 h
    obtain ⟨rest, hread, hps⟩ := bind_eq_ok.1 hrest
    cases hps
    exact List.forall_mem_cons.2 ⟨GenericParameter.valid_of_parse hp, ih hread⟩

/-- Written parameters are read back, one by one. -/
theorem readParameters_written {ps : List GenericParameter} (h : ∀ p ∈ ps, p.Valid) :
    readParameters (ps.map GenericParameter.render) = .ok ps := by
  induction ps with
  | nil => rfl
  | cons p ps ih =>
    rw [List.forall_mem_cons] at h
    rw [List.map_cons, readParameters, GenericParameter.parse_render h.1, ih h.2]
    rfl

/-- The parameters can be written, and no two have one name. -/
def ValidParameters (ps : List GenericParameter) : Prop :=
  (∀ p ∈ ps, p.Valid) ∧ firstRepeated? [] (ps.map GenericParameter.name) = none

/-- Where no name stands a second time, all are different. -/
theorem nodup_of_firstRepeated? {seen names : List String}
    (h : firstRepeated? seen names = none) : names.Nodup ∧ ∀ name ∈ names, name ∉ seen := by
  induction names generalizing seen with
  | nil => exact ⟨List.nodup_nil, List.forall_mem_nil _⟩
  | cons name names ih =>
    rw [firstRepeated?] at h
    split_ifs at h with hseen
    obtain ⟨hnodup, hnew⟩ := ih h
    refine ⟨List.nodup_cons.2 ⟨?_, hnodup⟩, List.forall_mem_cons.2 ⟨hseen, ?_⟩⟩
    · intro hname
      exact hnew name hname List.mem_cons_self
    · intro other hother hold
      exact hnew other hother (List.mem_cons_of_mem _ hold)

/-- A repeated name is refused, so the parameters of an accepted list have different names. -/
theorem valid_of_buildParameters {owner : String} {raws : List String}
    {ps : List GenericParameter} (h : buildParameters owner raws = .ok ps) :
    ValidParameters ps := by
  obtain ⟨ps', hread, hdistinct⟩ := bind_eq_ok.1 h
  split at hdistinct
  · cases hdistinct
  · next hnone =>
    cases hdistinct
    exact ⟨valid_of_readParameters (mapError_eq_ok.1 hread), hnone⟩

/-- A valid list is accepted again: every parameter is read back and no name is repeated. -/
theorem buildParameters_written {ps : List GenericParameter} (h : ValidParameters ps)
    (owner : String) : buildParameters owner (ps.map GenericParameter.render) = .ok ps := by
  refine bind_eq_ok.2 ⟨ps, mapError_eq_ok.2 (readParameters_written h.1), ?_⟩
  rw [h.2]

/-- A supertype comes from a text, so it is a well-formed expression. -/
theorem wellFormed_of_buildSupertype {owner : String} {raw : Option String}
    {supertype : Option TypeExpr} (h : buildSupertype owner raw = .ok supertype) :
    ∀ e ∈ supertype, e.WellFormed := by
  intro e he
  unfold buildSupertype at h
  split at h
  · cases h
    cases he
  · next raw =>
    split_ifs at h with hempty
    · cases h
      cases he
    · rw [Option.mem_def.1 he, parseIn] at h
      cases hparse : TypeExpr.parse raw with
      | error fault =>
        rw [hparse] at h
        cases h
      | ok e' =>
        rw [hparse] at h
        cases h
        exact TypeExpr.wellFormed_of_parse hparse

/-- And a well-formed expression is read back from its own text. -/
theorem buildSupertype_written {supertype : Option TypeExpr} (h : ∀ e ∈ supertype, e.WellFormed)
    (owner : String) :
    buildSupertype owner (supertype.map TypeExpr.render) = .ok supertype := by
  cases supertype with
  | none => rfl
  | some e =>
    have hwell : e.WellFormed := h e rfl
    have hempty : e.render.isEmpty = false := by
      obtain ⟨c, hc, -⟩ := (TypeExpr.tight_render hwell).1
      rw [← Bool.not_eq_true, String.isEmpty_iff]
      intro hnil
      rw [hnil] at hc
      cases hc
    rw [Option.map_some, buildSupertype, hempty, parseIn, TypeExpr.parse_render hwell]
    rfl

/-! ## Fields -/

variable {strict : Bool}

/-- The field can be written. -/
structure FieldDef.Valid (strict : Bool) (f : FieldDef) : Prop where
  expression : f.expression.WellFormed
  tags : f.tags.Valid strict

/-- The field with the text that is written for it. -/
def FieldDef.respelled (f : FieldDef) : FieldDef := { f with raw := f.declaration }

/-- What a field text gives: the tags cut off its end, the expression before them, and the
text itself. -/
theorem FieldDef.build_eq_ok {place raw : String} {f : FieldDef} :
    (FieldDef.build strict place raw).outcome = .ok f ↔
      ∃ text, (extractTags strict raw).outcome = .ok (text, f.tags) ∧
        TypeExpr.parse text = .ok f.expression ∧ f.raw = raw := by
  obtain ⟨expression, tags, raw'⟩ := f
  simp only [FieldDef.build, Noted.outcome_bind, Noted.outcome_mapError, bind_eq_ok, mapError_eq_ok,
    Noted.outcome_pure, Noted.ofExcept]
  constructor
  · rintro ⟨⟨text, tags⟩, hcut, e, he, hf⟩
    cases hf
    exact ⟨text, hcut, he, rfl⟩
  · rintro ⟨text, hcut, he, rfl⟩
    exact ⟨(text, tags), hcut, expression, he, rfl⟩

/-- A field that was built has tags that can be read again and a well-formed type. -/
theorem FieldDef.valid_of_build {place raw : String} {f : FieldDef}
    (h : (FieldDef.build strict place raw).outcome = .ok f) : f.Valid strict := by
  obtain ⟨text, hcut, he, -⟩ := FieldDef.build_eq_ok.1 h
  exact ⟨TypeExpr.wellFormed_of_parse he, valid_of_extractTags hcut⟩

/-- **A written field is read back.** -/
theorem FieldDef.build_declaration {f : FieldDef} (h : f.Valid strict) (place : String) :
    (FieldDef.build strict place f.declaration).outcome = .ok f.respelled :=
  FieldDef.build_eq_ok.2 ⟨f.expression.render, extractTags_written h.expression h.tags,
    TypeExpr.parse_render h.expression, rfl⟩

/-- Fields are built in order, and the first that fails ends it. -/
theorem buildFields_cons_eq_ok {owner name raw : String} {raws : List (String × String)}
    {fields : List (String × FieldDef)} :
    (buildFields strict owner ((name, raw) :: raws)).outcome = .ok fields ↔
      ∃ f rest, (FieldDef.build strict (owner ++ "." ++ name) raw).outcome = .ok f ∧
        (buildFields strict owner raws).outcome = .ok rest ∧ fields = (name, f) :: rest := by
  simp only [buildFields, Noted.outcome_bind, bind_eq_ok, Noted.outcome_pure, Except.ok.injEq]
  constructor
  · rintro ⟨f, hf, rest, hrest, rfl⟩
    exact ⟨f, rest, hf, hrest, rfl⟩
  · rintro ⟨f, rest, hf, hrest, rfl⟩
    exact ⟨f, hf, rest, hrest, rfl⟩

/-- Fields are built in order, under the names they are declared with. -/
theorem valid_of_buildFields {owner : String} {raws : List (String × String)}
    {fields : List (String × FieldDef)}
    (h : (buildFields strict owner raws).outcome = .ok fields) :
    fields.map Prod.fst = raws.map Prod.fst ∧ ∀ f ∈ fields, f.2.Valid strict := by
  induction raws generalizing fields with
  | nil =>
    cases h
    simp
  | cons first raws ih =>
    obtain ⟨f, rest, hf, hrest, rfl⟩ := buildFields_cons_eq_ok.1 h
    obtain ⟨hnames, hvalid⟩ := ih hrest
    refine ⟨by rw [List.map_cons, List.map_cons, hnames], ?_⟩
    exact List.forall_mem_cons.2 ⟨FieldDef.valid_of_build hf, hvalid⟩

/-- Declared again, each field is the same but for the text it remembers. -/
theorem buildFields_written {fields : List (String × FieldDef)}
    (h : ∀ f ∈ fields, f.2.Valid strict) (owner : String) :
    (buildFields strict owner (fields.map fun f => (f.1, f.2.declaration))).outcome =
      .ok (fields.map fun f => (f.1, f.2.respelled)) := by
  induction fields with
  | nil => rfl
  | cons f fields ih =>
    rw [List.forall_mem_cons] at h
    exact buildFields_cons_eq_ok.2 ⟨_, _, FieldDef.build_declaration h.1 _, ih h.2, rfl⟩

/-! ## Struct entries -/

namespace StructEntry

/-- A table of fields has no fault if all their names are field names. -/
theorem nameFaults_eq_nil {fields : List (String × String)} :
    nameFaults fields = [] ↔ ∀ f ∈ fields, Name.isField f.1 = true := by
  unfold nameFaults
  cases hfind : fields.find? fun f => !Name.isField f.1 with
  | none => simpa using hfind
  | some f =>
    have hbad := List.find?_some hfind
    constructor
    · intro h
      cases h
    · intro h
      rw [h f (List.mem_of_find?_eq_some hfind)] at hbad
      cases hbad

/-- The names of the fields of a struct entry name fields, each once. -/
theorem fields_of_ofFields {entry : List (Atom × Entry)} {s : StructEntry}
    (h : ofFields entry = .ok s) :
    (s.fields.map Prod.fst).Nodup ∧ ∀ name ∈ s.fields.map Prod.fst, Name.isField name = true := by
  unfold ofFields at h
  dsimp only at h
  split at h
  · next hfaults =>
    cases h
    refine ⟨OrderedMap.nodup_keys _, fun name hname => ?_⟩
    -- without a fault, the names have been looked at
    obtain ⟨-, hfields⟩ := List.append_eq_nil_iff.1 hfaults
    split_ifs at hfields with hnone
    · have hmem := OrderedMap.mem_keys_ofList.1 hname
      obtain ⟨f, hf, rfl⟩ := List.mem_map.1 hmem
      exact nameFaults_eq_nil.1 hfields f hf
    · simp [hfields] at hnone
  · cases h

/-- The parameters of a written table are its written parameters. -/
theorem readParameters_written (ps : List GenericParameter) :
    readParameters (some (.list (ps.map fun p => .atom (.text p.render)))) =
      (ps.map GenericParameter.render, []) := by
  have htexts (index : Nat) : texts index (ps.map fun p => .atom (.text p.render)) =
      (ps.map GenericParameter.render, []) := by
    induction ps generalizing index with
    | nil => rfl
    | cons p ps ih =>
      rw [List.map_cons, texts, ih]
      rfl
  exact htexts 0

/-- Texts under text keys are read as fields, and nothing is left over. -/
theorem readFields_written (fields : List (String × String)) :
    readFields (fields.map fun f => (.text f.1, .atom (.text f.2))) = (fields, []) := by
  induction fields with
  | nil => rfl
  | cons f fields ih =>
    rw [List.map_cons, readFields, ih]
    rfl

end StructEntry

/-- The struct can be written. -/
structure StructDef.Valid (strict : Bool) (d : StructDef) : Prop where
  parameters : ValidParameters d.parameters
  supertype : ∀ e ∈ d.supertype, e.WellFormed
  names : ∀ name ∈ d.fields.keys, Name.isField name = true
  fields : ∀ f ∈ d.fields.entries, f.2.Valid strict

namespace StructDef

variable {d : StructDef}

/-- The entries for the fields in the table of a struct. -/
def fieldEntries (d : StructDef) : List (Atom × Entry) :=
  d.fields.entries.map fun f => (.text f.1, .atom (.text f.2.declaration))

/-- No field is taken for the parameters or the supertype. -/
theorem key_of_fieldEntries (h : d.Valid strict) :
    ∀ f ∈ d.fieldEntries, f.1 ≠ StructEntry.parametersKey ∧ f.1 ≠ StructEntry.supertypeKey := by
  intro f hf
  obtain ⟨field, hfield, rfl⟩ := List.mem_map.1 hf
  have hname := h.names field.1 (List.mem_map_of_mem hfield)
  -- both keys start with a dollar sign
  constructor
  · intro hkey
    rw [Atom.text.inj hkey] at hname
    revert hname
    decide
  · intro hkey
    rw [Atom.text.inj hkey] at hname
    revert hname
    decide

/-- The fields of a table, each with its text. -/
def fieldTexts (d : StructDef) : List (String × String) :=
  d.fields.entries.map fun f => (f.1, f.2.declaration)

/-- The entries of the fields are read as what they were written from. -/
theorem readFields_fieldEntries (d : StructDef) :
    StructEntry.readFields d.fieldEntries = (d.fieldTexts, []) := by
  have hread := StructEntry.readFields_written d.fieldTexts
  rw [fieldTexts, List.map_map] at hread
  exact hread

/-- The names of the fields of a valid struct were accepted once. -/
theorem nameFaults_fieldTexts (h : d.Valid strict) :
    StructEntry.nameFaults d.fieldTexts = [] := by
  rw [StructEntry.nameFaults_eq_nil]
  intro f hf
  obtain ⟨field, hfield, rfl⟩ := List.mem_map.1 hf
  exact h.names field.1 (List.mem_map_of_mem hfield)

/-- The names are different, so putting the fields in a map changes neither their number nor
their order. -/
theorem entries_fieldTexts (d : StructDef) :
    (OrderedMap.ofList d.fieldTexts).entries = d.fieldTexts := by
  apply OrderedMap.entries_ofList
  simpa [fieldTexts, List.map_map, Function.comp_def] using d.fields.nodup_keys

/-- The supertype stands under a key that is no field name. -/
theorem supertype_of_table (h : d.Valid strict) :
    (d.table.find? fun f => f.1 == StructEntry.supertypeKey).map Prod.snd =
      d.supertype.map fun e => .atom (.text e.render) := by
  have hfields : (d.fieldEntries.find? fun f => f.1 == StructEntry.supertypeKey) = none := by
    rw [List.find?_eq_none]
    intro f hf
    simpa using (key_of_fieldEntries h f hf).2
  have hne : StructEntry.parametersKey ≠ StructEntry.supertypeKey := by decide
  rw [fieldEntries] at hfields
  rw [table, List.cons_append, List.find?_cons_of_neg (by simpa using hne), List.find?_append,
    hfields]
  cases d.supertype <;> simp

/-- Without the two special keys the table is the fields. -/
theorem fields_of_table (h : d.Valid strict) :
    (d.table.filter fun f => f.1 != StructEntry.parametersKey && f.1 != StructEntry.supertypeKey) =
      d.fieldEntries := by
  have hfields : (d.fieldEntries.filter fun f => f.1 != StructEntry.parametersKey &&
      f.1 != StructEntry.supertypeKey) = d.fieldEntries := by
    rw [List.filter_eq_self]
    intro f hf
    simpa using key_of_fieldEntries h f hf
  rw [fieldEntries] at hfields
  rw [table, List.cons_append, List.filter_cons_of_neg (by simp), List.filter_append, hfields]
  cases d.supertype <;> simp [fieldEntries]

/-- **The table of a struct is read as its written parts.** -/
theorem ofFields_table (h : d.Valid strict) :
    StructEntry.ofFields d.table = .ok
      { parameters := d.parameters.map GenericParameter.render
        supertype := d.supertype.map TypeExpr.render
        fields := d.fieldTexts } := by
  have hparameters : (d.table.find? fun f => f.1 == StructEntry.parametersKey).map Prod.snd =
      some (.list (d.parameters.map fun p => .atom (.text p.render))) := rfl
  have hsupertype : StructEntry.readSupertype (d.supertype.map fun e => .atom (.text e.render)) =
      (d.supertype.map TypeExpr.render, []) := by
    cases d.supertype <;> rfl
  rw [StructEntry.ofFields]
  dsimp only
  rw [hparameters, supertype_of_table h, fields_of_table h, StructEntry.readParameters_written,
    hsupertype, readFields_fieldEntries]
  simp [nameFaults_fieldTexts h, entries_fieldTexts]

/-- A struct is built from its parameters, its supertype and its fields, each by itself. -/
theorem build_eq_ok {name : String} {entry : StructEntry} :
    (StructDef.build strict name entry).outcome = .ok d ↔
      d.name = name ∧ buildParameters name entry.parameters = .ok d.parameters ∧
        buildSupertype name entry.supertype = .ok d.supertype ∧
        ∃ fields, (buildFields strict name entry.fields).outcome = .ok fields ∧
          d.fields = .ofList fields := by
  obtain ⟨name', fields', supertype', parameters'⟩ := d
  simp only [StructDef.build, Noted.outcome_bind, Noted.outcome_mapError, bind_eq_ok,
    mapError_eq_ok, Noted.outcome_pure, Noted.ofExcept, Except.ok.injEq, StructDef.mk.injEq]
  constructor
  · rintro ⟨parameters, hparameters, supertype, hsupertype, fields, hfields, rfl, rfl, rfl, rfl⟩
    exact ⟨rfl, hparameters, hsupertype, fields, hfields, rfl⟩
  · rintro ⟨rfl, hparameters, hsupertype, fields, hfields, rfl⟩
    exact ⟨parameters', hparameters, supertype', hsupertype, fields, hfields, rfl, rfl, rfl, rfl⟩

/-- **What is declared as a struct can be written.** -/
theorem valid_of_build {name : String} {entry : List (Atom × Entry)} {s : StructEntry}
    (hentry : StructEntry.ofFields entry = .ok s)
    (h : (StructDef.build strict name s).outcome = .ok d) : d.Valid strict := by
  obtain ⟨-, hparameters, hsupertype, fields, hfields, hd⟩ := build_eq_ok.1 h
  obtain ⟨hnodup, hnames⟩ := StructEntry.fields_of_ofFields hentry
  obtain ⟨hkeys, hvalid⟩ := valid_of_buildFields hfields
  rw [← hkeys] at hnodup hnames
  have hentries : d.fields.entries = fields := by
    rw [hd]
    exact OrderedMap.entries_ofList hnodup
  refine ⟨valid_of_buildParameters hparameters, wellFormed_of_buildSupertype hsupertype, ?_, ?_⟩
  · rw [OrderedMap.keys, hentries]
    exact hnames
  · rw [hentries]
    exact hvalid

/-- The struct without any parts. -/
def empty (name : String) : StructDef :=
  { name, fields := .empty, supertype := none, parameters := [] }

/-- A struct without parts is valid; it is the one struct that a text declares. -/
theorem valid_empty (strict : Bool) (name : String) : (empty name).Valid strict where
  parameters := ⟨List.forall_mem_nil _, rfl⟩
  supertype := fun e he => by cases he
  names := List.forall_mem_nil _
  fields := List.forall_mem_nil _

/-- A struct without parts is known by its name. -/
theorem eq_empty (h : (d.fields.isEmpty && d.supertype.isNone && d.parameters.isEmpty) = true) :
    d = empty d.name := by
  obtain ⟨name, ⟨entries, nodup⟩, supertype, parameters⟩ := d
  rw [Bool.and_eq_true, Bool.and_eq_true, OrderedMap.isEmpty, List.isEmpty_iff,
    Option.isNone_iff_eq_none, List.isEmpty_iff] at h
  obtain ⟨⟨hentries, hsupertype⟩, hparameters⟩ := h
  cases hentries
  cases hsupertype
  cases hparameters
  rfl

/-- The struct with the texts that are written for its fields. -/
def respelled (d : StructDef) : StructDef :=
  { d with fields := d.fields.mapValues FieldDef.respelled }

/-- **What can be written is built from its written parts.** -/
theorem build_written (h : d.Valid strict) :
    (StructDef.build strict d.name
      { parameters := d.parameters.map GenericParameter.render
        supertype := d.supertype.map TypeExpr.render
        fields := d.fieldTexts }).outcome = .ok d.respelled := by
  refine build_eq_ok.2 ⟨rfl, buildParameters_written h.parameters d.name,
    buildSupertype_written h.supertype d.name, _, buildFields_written h.fields d.name, ?_⟩
  exact (d.fields.mapValues FieldDef.respelled).ofList_entries.symm

end StructDef

/-! ## Definitions -/

namespace Definition

variable {name : String} {entry : Entry} {d : Definition}

/-- The definition can be written. -/
def Valid (strict : Bool) : Definition → Prop
  | ofAlias d => d.expression.WellFormed ∧ d.parameters = []
  | ofStruct d => d.Valid strict

/-- The definition with the texts that are written for its fields. -/
def respelled : Definition → Definition
  | ofAlias d => .ofAlias d
  | ofStruct d => .ofStruct d.respelled

/-- **What a raw entry declares can be written.** -/
theorem valid_of_build (hraw : ∀ d texts, entry ≠ .definition d texts)
    (h : (Definition.build strict name entry).outcome = .ok d) : d.Valid strict := by
  unfold Definition.build at h
  split at h
  · exact absurd rfl (hraw _ _)
  · split_ifs at h with hempty
    · cases h
      exact StructDef.valid_empty strict name
    · rw [Noted.outcome_bind, bind_eq_ok] at h
      obtain ⟨e, he, hd⟩ := h
      cases hd
      exact ⟨TypeExpr.wellFormed_of_parse (mapError_eq_ok.1 he), rfl⟩
  · split at h
    · cases h
    · next s hs =>
      rw [Noted.outcome_bind, bind_eq_ok] at h
      obtain ⟨d, hbuild, hd⟩ := h
      cases hd
      exact StructDef.valid_of_build hs hbuild
  · cases h

/-- **What can be written is declared again by its entry.** -/
theorem build_toEntry (h : d.Valid strict) :
    (Definition.build strict d.name d.toEntry).outcome = .ok d.respelled := by
  cases d with
  | ofAlias d =>
    obtain ⟨name, expression, parameters⟩ := d
    obtain ⟨hwell, hnone⟩ := h
    cases hnone
    have hwell : expression.WellFormed := hwell
    -- no expression is written like the empty struct
    have hbraces : Text.trimmed expression.render ≠ emptyStructText := by
      intro hbraces
      have htrim := (TypeExpr.tight_render hwell).trim_eq
      rw [Text.trimmed, htrim, String.ofList_toList] at hbraces
      exact TypeExpr.render_ne_braces hwell ['\x7d'] (by rw [hbraces]; rfl)
    have hparse : parseIn name expression.render = .ok expression :=
      mapError_eq_ok.2 (TypeExpr.parse_render hwell)
    show (Definition.build strict name (.atom (.text expression.render))).outcome = _
    rw [Definition.build, if_neg hbraces, hparse]
    rfl
  | ofStruct d =>
    have hvalid : d.Valid strict := h
    rw [toEntry]
    split_ifs with hempty
    · rw [StructDef.eq_empty hempty]
      rfl
    · show (Definition.build strict d.name (.table d.table)).outcome = _
      rw [Definition.build, StructDef.ofFields_table hvalid]
      dsimp only
      rw [Noted.outcome_bind, StructDef.build_written hvalid]
      rfl

/-- Respelling changes only the remembered texts. -/
theorem withoutRaw_respelled (d : Definition) : d.respelled.withoutRaw = d.withoutRaw := by
  cases d with
  | ofAlias d => rfl
  | ofStruct d =>
    rw [respelled, withoutRaw, withoutRaw, StructDef.respelled, OrderedMap.mapValues_mapValues]
    rfl

/-- **A definition declares itself again.** The entry written for what a raw entry
declared declares the same under the same name and strictness, but for the texts of
the fields. -/
theorem declared_again (strict : Bool) (name : String) (entry : Entry) (d : Definition)
    (hraw : ∀ d texts, entry ≠ .definition d texts)
    (h : (Definition.build strict name entry).outcome = .ok d) :
    ∃ d', (Definition.build strict name d.toEntry).outcome = .ok d' ∧
      d'.withoutRaw = d.withoutRaw := by
  have hname := name_of_build h
  have hvalid := valid_of_build hraw h
  refine ⟨d.respelled, ?_, d.withoutRaw_respelled⟩
  rw [← hname]
  exact build_toEntry hvalid

/-- A struct whose literal and tag hold the marks that its text is cut at. -/
def cutMarks : Entry :=
  .table
    [(.text "$macro", .list [.atom (.text "T = \"a=b @c\""), .atom (.text "U")]),
     (.text "$super", .atom (.text " Base( T , U )")),
     (.text "x", .atom (.text " (\"@ =\"_\"b\")?  @event=client   @unit=\"px\" "))]

/-- It is declared, and declared again by the table written for it. -/
theorem cutMarks_declared_again :
    ∃ d d', (Definition.build true "Box" cutMarks).outcome = .ok d ∧
      (Definition.build true "Box" d.toEntry).outcome = .ok d' ∧ d'.withoutRaw = d.withoutRaw := by
  have hok : (Definition.build true "Box" cutMarks).outcome.isOk = true := by decide
  obtain ⟨d, hd⟩ := exists_of_isOk hok
  obtain ⟨d', hd', hsame⟩ := declared_again true "Box" cutMarks d (fun _ _ h => nomatch h) hd
  exact ⟨d, d', hd, hd', hsame⟩

end Definition

end WidgetSchema
