/-
What a reported cycle says.

A cycle is found where an instantiation is to be composed that stands on the chain of those
being composed. The chain is a way up, each on it a direct supertype of the one before, and
it begins with what was asked for; so the way closes (`RaisedAt.circle`). The report shows
the chain by labels and puts the name of the instantiation that closes it behind them, the
bare name and not the label. Names have no parentheses and labels of applied types have
some, so the last entry is one of those before it exactly if the type that closes the way
has no parameters.
-/
import WidgetSchema.Proofs.Independence
import WidgetSchema.Proofs.RaisedErrors
import WidgetSchema.Proofs.RawEntries
import WidgetSchema.Proofs.TagBoundary

set_option autoImplicit false

namespace WidgetSchema

/-! ## Names that are registered -/

/-- A qualified name has no parenthesis. -/
theorem Name.paren_not_mem {name : String} (h : isQualified name = true) : '(' ∉ name.toList := by
  intro hmem
  rw [isQualified] at h
  cases hchars : name.toList with
  | nil =>
    rw [hchars] at hmem
    cases hmem
  | cons c cs =>
    rw [hchars, Bool.and_eq_true, List.isEmpty_iff] at h
    rw [hchars] at hmem
    rcases List.mem_cons.1 hmem with rfl | hmem
    · exact absurd h.1 (by decide)
    · rcases isPart_or_dot_of_tail h.2 _ hmem with hpart | hdot
      · exact absurd hpart (by decide)
      · cases hdot

namespace Registry

variable {r : Registry} {name : String} {d : Definition}

/-- All names can be read as type names. -/
def TypeNamed (r : Registry) : Prop := r.Each fun d => isTypeName d.1 = true

/-- Batches of any entries register names of types only. -/
theorem TypeNamed.registerEach (hr : r.TypeNamed) (strict : Bool)
    (entries : List (String × Entry)) :
    ((Registry.registerEach strict entries).run r).state.TypeNamed := by
  obtain ⟨_, _, -, -, hadded, -⟩ := registerEach_steps strict entries r
  intro d hmem
  rw [hadded.1, List.mem_append] at hmem
  rcases hmem with hold | hnew
  · exact hr d hold
  · exact (declared_of_acceptedEach hnew).1

theorem TypeNamed.paren_not_mem (hr : r.TypeNamed) (hd : r.lookup name = .ok d) :
    '(' ∉ name.toList := by
  have htype : isTypeName name = true := hr (name, d) (lookup_mem.1 hd)
  rw [isTypeName, Bool.and_eq_true] at htype
  exact Name.paren_not_mem htype.1

end Registry

/-- **Whatever is registered has the name of a type**, after any calls on a new session. -/
theorem Session.typeNamed_after (env : Environment) (maxDepth : Option Int) (prelude : Bool)
    (history : List Call) : ((opened env maxDepth prelude).after history).registry.TypeNamed := by
  have hprelude : addPrelude.Keeps fun s => s.registry.TypeNamed :=
    fun s hs => hs.registerEach s.strictTags Registry.prelude
  have hopened : (opened env maxDepth prelude).registry.TypeNamed := by
    unfold opened
    split
    · exact hprelude _ Registry.each_empty
    · exact Registry.each_empty
  exact after_of_keeps (P := fun s => s.registry.TypeNamed) hopened fun call _ =>
    keeps_registry (fun _ hr => hr) call fun strict _ hr => hr.registerEach strict call.entries

namespace Composer

variable {c : Composer} {memo : Memo} {chain path : List Instantiation}
  {i j key closing : Instantiation} {names : List String}

/-! ## The way that closes -/

/-- A way up from what an instantiation is completed to: each instantiation on it is a direct
supertype of the one before, and so is the one that closes it, which stands on it before. -/
structure Circle (c : Composer) (i : Instantiation) (path : List Instantiation)
    (closing : Instantiation) : Prop where
  starts : ∃ d bindings first, c.complete i = .ok (d, bindings, first) ∧ path.head? = some first
  steps : (path ++ [closing]).IsChain c.HasSupertype
  closes : closing ∈ path

/-- **A cycle is raised at the end of a way up**, at an instantiation that stands on the way or
on the chain below it. The induction is on the way to the place of the error. -/
theorem RaisedAt.way {e : SchemaError} (h : c.RaisedAt memo chain i e)
    (he : e = .inheritanceCycle names) :
    ∃ d bindings first path closing, c.complete i = .ok (d, bindings, first) ∧
      (path ++ [closing]).head? = some first ∧ (path ++ [closing]).IsChain c.HasSupertype ∧
      closing ∈ chain ++ path ∧
      names = (chain ++ path).map Instantiation.label ++ [closing.name] := by
  induction h with
  | @start chain i e h =>
    subst he
    rcases start_error_cases h with hp | ⟨p, hp, hkey, hcycle⟩
    · -- what has no plan is no cycle
      rcases plan_error_cases hp with ⟨n, hn⟩ | ⟨n, m, k, x, hn⟩ | ⟨n, x, hn⟩ <;> cases hn
    · cases hcycle
      obtain ⟨d, hd, -⟩ := plan_eq_ok.1 hp
      refine ⟨d, p.bindings, p.key, [], p.key, hd, rfl, .singleton p.key, ?_, ?_⟩
      · rw [List.append_nil]
        exact hkey
      · rw [List.append_nil, (complete_eq_ok.1 hd).2.2]
  | bound hstart => cases he
  | member hp hpass ht => cases he
  | conflict hp hpass hs hconflict => cases he
  | @inside chain i j p before rest t parents held e hp hpass hj hraised ih =>
    obtain ⟨d', bindings, key, path, closing, hd', hhead, hsteps, hcloses, hnames⟩ := ih he
    obtain ⟨d, hd, -⟩ := plan_eq_ok.1 hp
    -- the way of the member goes on below by one supertype
    have hsuper : c.HasSupertype p.key key := hpass.hasSupertype hp hj hd'
    refine ⟨d, p.bindings, p.key, p.key :: path, closing, hd, rfl, ?_, ?_, ?_⟩
    · rw [List.cons_append]
      refine List.isChain_cons.2 ⟨?_, hsteps⟩
      intro k hk
      rw [hhead] at hk
      cases hk
      exact hsuper
    · rw [List.append_assoc] at hcloses
      exact hcloses
    · rw [hnames, List.append_assoc]
      rfl

/-- **The cycle of a request closes**: nothing stands below it. -/
theorem RaisedAt.circle (h : c.RaisedAt memo [] i (.inheritanceCycle names)) :
    ∃ path closing, c.Circle i path closing ∧
      names = path.map Instantiation.label ++ [closing.name] := by
  obtain ⟨d, bindings, first, path, closing, hd, hhead, hsteps, hcloses, hnames⟩ := h.way rfl
  rw [List.nil_append] at hcloses hnames
  have hstarts : path.head? = some first := by
    cases path with
    | nil => cases hcloses
    | cons k path => exact hhead
  exact ⟨path, closing, ⟨⟨d, bindings, first, hd, hstarts⟩, hsteps, hcloses⟩, hnames⟩

/-! ## Its last entry -/

theorem HasSupertype.exists_complete (h : c.HasSupertype i j) :
    ∃ d bindings, c.complete j = .ok (d, bindings, j) := by
  obtain ⟨p, -, member, -, k, -, d, bindings, hd⟩ := h
  exact ⟨d, bindings, complete_key hd⟩

/-- What stands on a way that closes is complete. -/
theorem Circle.exists_complete (h : c.Circle i path closing) (hj : j ∈ path) :
    ∃ d bindings, c.complete j = .ok (d, bindings, j) := by
  obtain ⟨⟨d, bindings, first, hd, hhead⟩, hsteps, -⟩ := h
  cases path with
  | nil => cases hj
  | cons k path =>
    cases hhead
    rcases List.mem_cons.1 hj with rfl | hj
    · exact ⟨d, bindings, complete_key hd⟩
    · -- everything behind the first one is a supertype of the one before
      have hbehind := (List.isChain_append.1 hsteps).1
      obtain ⟨front, behind, rfl⟩ := List.append_of_mem hj
      rw [← List.cons_append] at hbehind
      obtain ⟨-, -, hstep⟩ := List.isChain_append.1 hbehind
      obtain ⟨k', hk'⟩ := Option.isSome_iff_exists.1
        (List.getLast?_isSome.2 (List.cons_ne_nil first front))
      exact (hstep k' hk' j rfl).exists_complete

/-- **The bare name is one of the labels before it** exactly if the type that closes the way
has no parameters. -/
theorem Circle.name_mem_iff (hr : c.registry.TypeNamed) (h : c.Circle i path closing) :
    closing.name ∈ path.map Instantiation.label ↔ closing.args = [] := by
  constructor
  · intro hmem
    obtain ⟨k, hk, hlabel⟩ := List.mem_map.1 hmem
    obtain ⟨d, bindings, hd⟩ := h.exists_complete h.closes
    obtain ⟨d', bindings', hd'⟩ := h.exists_complete hk
    obtain ⟨hlookup, hbind, -⟩ := complete_eq_ok.1 hd
    obtain ⟨hlookup', hbind', -⟩ := complete_eq_ok.1 hd'
    -- a label with a parenthesis is no registered name
    have hnone : k.args = [] := by
      by_contra hargs
      refine hr.paren_not_mem hlookup ?_
      rw [← hlabel]
      exact paren_mem_label hargs
    have hname : k.name = closing.name := by
      rw [← hlabel, Instantiation.label, TypeExpr.label, hnone]
      rfl
    -- so the two are of one type, which takes as many arguments for both
    rw [hname, hlookup] at hlookup'
    cases hlookup'
    have hlength : closing.args.length = k.args.length := by
      rw [length_bindFrom (bindFrom_of_bind hbind), length_bindFrom (bindFrom_of_bind hbind')]
    rw [hnone] at hlength
    exact List.eq_nil_of_length_eq_zero hlength
  · intro hargs
    refine List.mem_map.2 ⟨closing, h.closes, ?_⟩
    rw [Instantiation.label, TypeExpr.label, hargs]
    rfl

end Composer

/-! ## Sessions -/

namespace Session

/-- **A reported cycle is a way that closes.** After any calls on a new session, let a request
end with a cycle. Then there is a way up that begins with what the requested instantiation is
completed to, on which each instantiation is a direct supertype of the one before and leads
in the end to one that stands on the way. The report has the labels of those on the way, in
their order, and behind them the bare name of the one that closes it. That is an entry again
exactly if its type has no parameters, and then all entries are labels. -/
theorem cycle_report_closes (env : Environment) (maxDepth : Option Int) (prelude : Bool)
    (history : List Call) (i : Instantiation) (names : List String) :
    let s := (opened env maxDepth prelude).after history
    let cycle : Fault := .schema (.inheritanceCycle names)
    ((resolve i).run s).outcome = .error cycle ∨
        ((resolveStruct i).run s).outcome = .error cycle →
      ∃ path closing, s.composer.Circle i path closing ∧
        names = path.map Instantiation.label ++ [closing.name] ∧
        (closing.name ∈ path.map Instantiation.label ↔ closing.args = []) ∧
        (closing.args = [] → names = (path ++ [closing]).map Instantiation.label) := by
  intro s cycle hcycle
  have hclosed : s.memo.ClosedFor s.composer :=
    lasting_closedFor.after env maxDepth prelude history
  have hraised : ∃ memo, s.composer.RaisedAt memo [] i (.inheritanceCycle names) := by
    rcases hcycle with he | he
    · exact ⟨_, Composer.resolve_raisedAt hclosed (outcome_resolving_schema he)⟩
    · exact ⟨_, Composer.resolveStruct_raisedAt hclosed (outcome_resolving_schema he)⟩
  obtain ⟨memo, hraised⟩ := hraised
  obtain ⟨path, closing, hcircle, hnames⟩ := hraised.circle
  refine ⟨path, closing, hcircle, hnames,
    hcircle.name_mem_iff (typeNamed_after env maxDepth prelude history), fun hargs => ?_⟩
  rw [hnames, List.map_append, List.map_cons, List.map_nil, Instantiation.label, TypeExpr.label,
    hargs]
  rfl

/-- A door that leads into two types that extend each other. -/
def doorToRound : List Call :=
  [.register "Door" (.table [(.text "$macro", .atom (.text "T")),
      (.text "$super", .atom (.text "Hall")), (.text "sign", .atom (.text "T"))]),
   .register "Hall" (.table [(.text "$super", .atom (.text "Stair"))]),
   .register "Stair" (.table [(.text "$super", .atom (.text "Hall"))])]

/-- The report begins with the door and closes at the hall. -/
theorem door_leads_round :
    let s := (opened .empty none false).after doorToRound
    let names := ["Door(string)", "Hall", "Stair", "Hall"]
    ((resolve ⟨"Door", [.primitive "string"]⟩).run s).outcome =
        .error (.schema (.inheritanceCycle names)) ∧
      ∃ path closing, s.composer.Circle ⟨"Door", [.primitive "string"]⟩ path closing ∧
        names = (path ++ [closing]).map Instantiation.label := by
  intro s names
  have herror : ((resolve ⟨"Door", [.primitive "string"]⟩).run s).outcome =
      .error (.schema (.inheritanceCycle names)) := by decide +kernel
  obtain ⟨path, closing, hcircle, hnames, hiff, hlabels⟩ :=
    cycle_report_closes .empty none false doorToRound _ names (.inl herror)
  refine ⟨herror, path, closing, hcircle, hlabels (hiff.1 ?_)⟩
  -- the last entry of the report is the hall, which stands in it before
  have hlast : closing.name = "Hall" ∧
      path.map Instantiation.label = ["Door(string)", "Hall", "Stair"] := by
    have hsplit : path.map Instantiation.label ++ [closing.name] =
        ["Door(string)", "Hall", "Stair"] ++ ["Hall"] := hnames.symm
    obtain ⟨hfront, hend⟩ := List.append_inj' hsplit rfl
    exact ⟨List.singleton_inj.1 hend, hfront⟩
  rw [hlast.1, hlast.2]
  decide

/-- A box that extends itself, with its own parameter. -/
def boxOverItself : List Call :=
  [.register "Box" (.table [(.text "$macro", .atom (.text "T")),
      (.text "$super", .atom (.text "Box(T)"))])]

/-- **A report that does not close**: its last entry is the bare name of a type that takes an
argument, and no entry before it. -/
theorem bare_name_closes_nothing :
    let s := (opened .empty none false).after boxOverItself
    ((resolve ⟨"Box", [.primitive "number"]⟩).run s).outcome =
        .error (.schema (.inheritanceCycle ["Box(number)", "Box"])) ∧
      "Box" ∉ ["Box(number)"] := by
  intro s
  exact ⟨by decide +kernel, by decide⟩

end Session

end WidgetSchema
