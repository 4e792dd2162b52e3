/-
Lineage is ancestry.

The lineage of a schema holds the labels of all that it reaches over supertypes, and a
label names one instantiation only, so a label in a lineage is found by going up. Whatever
is found there is remembered: it was composed, or known before, on the way to the schema
(`resolveStruct_ancestor`). So the composer that has returned a schema returns its
ancestors as well, and each of them has less: fewer labels, unless it is the schema
itself, and no field that the schema has not.

The bound on the nesting counts differently for an ancestor. It may stand at the end of a
chain that the schema never goes up as a whole, because the schema reaches parts of it
over other members first. Once the memo is cleared the bound may stop such an ancestor,
and nothing else can.
-/
import WidgetSchema.Proofs.Independence
import WidgetSchema.Proofs.Labels

set_option autoImplicit false

namespace WidgetSchema

namespace Composer

variable {c : Composer} {memo : Memo} {i j : Instantiation} {s t : ResolvedSchema}

/-! ## From labels to ancestors -/

/-- **What has its label in a lineage is an ancestor**, among what can be read. -/
theorem Derives.hasAncestor_of_label (hr : c.registry.Writable) (h : c.Derives i s)
    (hs : s.instantiation.IsRead) (hj : j.IsRead) (hlabel : j.label ∈ s.lineage) :
    c.HasAncestor s.instantiation j := by
  -- the label is there because of some ancestor, and no other instantiation has it
  obtain ⟨k, hk, hsame⟩ := h.mem_lineage_iff.1 hlabel
  have hkj : k = j := (HasAncestor.isRead hr hs hk).eq_of_label hj hsame
  rw [← hkj]
  exact hk

/-- **Two that have their labels in each other's lineage are one.** -/
theorem Derives.instantiation_eq_of_labels (hr : c.registry.Writable) (hs : c.Derives i s)
    (ht : c.Derives j t) (hsread : s.instantiation.IsRead) (htread : t.instantiation.IsRead)
    (hts : t.label ∈ s.lineage) (hst : s.label ∈ t.lineage) :
    t.instantiation = s.instantiation := by
  have hup := hs.hasAncestor_of_label hr hsread htread hts
  have hback := ht.hasAncestor_of_label hr htread hsread hst
  exact hs.ancestor_antisymm hup hback

/-! ## Ancestors are resolved -/

/-- What is derived is returned, unless the bound on the nesting stops it. -/
theorem resolveStruct_of_derives (hm : memo.DerivedBy c) (h : c.Derives i s) :
    StoppedByDepth ((c.resolveStruct i).run memo).outcome ∨
      ((c.resolveStruct i).run memo).outcome = .ok s := by
  obtain ⟨p, parents, hp, hparents, hcombine⟩ := derives_iff.1 h
  have hends := resolveStruct_of_plan hm hp hparents
  rw [hcombine] at hends
  exact hends

/-- A struct that was resolved is known by the instantiation it is for. -/
theorem resolveStruct_knows (hm : memo.ClosedFor c)
    (hs : ((c.resolveStruct i).run memo).outcome = .ok s) :
    ((c.resolveStruct i).run memo).state.Knows s.instantiation := by
  obtain ⟨d, bindings, key, hd, hknows⟩ := (compose_closes c.maxDepth [] i memo hm).knows s hs
  obtain ⟨d', bindings', hd'⟩ := (resolveStruct_derives hm.derived hs).exists_complete
  rw [hd] at hd'
  cases hd'
  exact hknows

/-- **The composer that has returned a schema returns each of its ancestors.** They are in
the memo, so the bound has no part in it. -/
theorem resolveStruct_ancestor (hm : memo.ClosedFor c)
    (hs : ((c.resolveStruct i).run memo).outcome = .ok s)
    (hj : c.HasAncestor s.instantiation j) :
    ∃ t, c.Derives j t ∧ t.instantiation = j ∧ s.Extends t ∧
      ((c.resolveStruct j).run ((c.resolveStruct i).run memo).state).outcome = .ok t := by
  obtain ⟨t, ht, hinst, hextends⟩ := (resolveStruct_derives hm.derived hs).ancestor hj
  -- an ancestor is complete, so the memo is asked for it as it stands
  obtain ⟨d, bindings, hd⟩ := ht.exists_complete
  rw [hinst] at hd
  have hclosed := keeps_resolveStruct_closedFor i memo hm
  have hknows := hclosed.knows_ancestor (resolveStruct_knows hm hs) hj
  obtain ⟨u, hu⟩ := Option.isSome_iff_exists.1 hknows
  have hut : u = t := (hclosed.derived.lookup hd hu).unique ht
  rw [hut] at hu
  exact ⟨t, ht, hinst, hextends, (compose_known hd hu c.maxDepth).1⟩

end Composer

namespace Session

/-- What a text can ask for and has its label in the lineage is resolved next. -/
theorem ancestor_resolved {s : Session} {i j : Instantiation} {q : ResolvedSchema}
    (hr : s.composer.registry.Writable) (hclosed : s.memo.ClosedFor s.composer)
    (hargs : ∀ arg ∈ i.args, arg.IsRead) (hq : ((resolveStruct i).run s).outcome = .ok q)
    (hj : j.IsRead) (hlabel : j.label ∈ q.lineage) :
    ∃ t, s.composer.Derives j t ∧ t.instantiation = j ∧ q.Extends t ∧
      ((resolveStruct j).run ((resolveStruct i).run s).state).outcome = .ok t := by
  have hresolved := outcome_resolving.1 hq
  have hderives : s.composer.Derives i q :=
    Composer.resolveStruct_derives hclosed.derived hresolved
  have hancestor := hderives.hasAncestor_of_label hr (hderives.isRead hr hargs) hj hlabel
  obtain ⟨t, ht, hinst, hextends, houtcome⟩ :=
    Composer.resolveStruct_ancestor hclosed hresolved hancestor
  exact ⟨t, ht, hinst, hextends, outcome_resolving.2 houtcome⟩

/-- **Lineage is the ancestor order.** After any calls on a new session in which raw entries
only are registered, let a schema be returned for arguments that were read. Its lineage is
the set of the labels of what it reaches over supertypes, from none on. An instantiation
that a text can ask for and that has its label in the lineage is resolved next, and its
schema is for that very instantiation; whatever is called in between, it is resolved to the
same schema, unless the bound on the nesting stops it. The first schema has the whole
lineage and all the fields of that one, and if that one has the label of the first in its
lineage, both are for one instantiation. -/
theorem lineage_is_ancestry (env : Environment) (maxDepth : Option Int) (prelude : Bool)
    (history : List Call) (hraw : ∀ call ∈ history, call.IsRaw) (i : Instantiation)
    (hargs : ∀ arg ∈ i.args, arg.IsRead) :
    let s := (opened env maxDepth prelude).after history
    let s' := ((resolveStruct i).run s).state
    ∀ q, ((resolveStruct i).run s).outcome = .ok q →
      (∀ label, label ∈ q.lineage ↔
        ∃ j, s.composer.HasAncestor q.instantiation j ∧ j.label = label) ∧
      ∀ j, j.IsRead → j.label ∈ q.lineage →
        ∃ t, ((resolveStruct j).run s').outcome = .ok t ∧ t.instantiation = j ∧
          (∀ later, StoppedByBound (s'.answer later j) ∨ s'.answer later j = .ok t) ∧
          q.Extends t ∧ (q.label ∈ t.lineage → j = q.instantiation) := by
  intro s s' q hq
  have hr : s.composer.registry.Writable := writable_after env maxDepth prelude hraw
  have hclosed : s.memo.ClosedFor s.composer :=
    lasting_closedFor.after env maxDepth prelude history
  have hderives : s.composer.Derives i q :=
    Composer.resolveStruct_derives hclosed.derived (outcome_resolving.1 hq)
  refine ⟨fun label => hderives.mem_lineage_iff, ?_⟩
  intro j hj hlabel
  obtain ⟨t, ht, rfl, hextends, houtcome⟩ := ancestor_resolved hr hclosed hargs hq hj hlabel
  refine ⟨t, houtcome, rfl, ?_, hextends, ?_⟩
  · intro later
    have hclosed' : s'.memo.ClosedFor s'.composer :=
      Composer.keeps_resolveStruct_closedFor i s.memo hclosed
    -- calls may forget the schema, and may add definitions, but derive no other one
    have hleads := leadsTo_after lasting_closedFor s' later
    have hlater := Composer.resolveStruct_of_derives (hleads.keeps hclosed').derived
      (ht.mono hleads.extends_registry)
    rcases hlater with hstop | hok
    · exact .inl (stoppedByBound_mapError.2 hstop)
    · exact .inr (outcome_resolving.2 hok)
  · intro hback
    exact hderives.instantiation_eq_of_labels hr ht (hderives.isRead hr hargs) hj hlabel hback

/-- A knob that turns to something is a disc, which is another name for a round shape
with a number. -/
def knobOverDisc : List Call :=
  [.register "Shape" (.table [(.text "area", .atom (.text "number?"))]),
   .register "Round" (.table [(.text "$macro", .atom (.text "T")),
      (.text "$super", .atom (.text "Shape")), (.text "radius", .atom (.text "T"))]),
   .register "Disc" (.atom (.text "Round(number)")),
   .register "Knob" (.table [(.text "$macro", .atom (.text "U")),
      (.text "$super", .atom (.text "Disc")), (.text "turn", .atom (.text "U?"))])]

/-- The round shape is reached through the alias, and it is resolved after the knob. -/
theorem knob_reaches_round :
    let s := (opened .empty none false).after knobOverDisc
    let s' := ((resolveStruct ⟨"Knob", [.primitive "string"]⟩).run s).state
    ∃ q, ((resolveStruct ⟨"Knob", [.primitive "string"]⟩).run s).outcome = .ok q ∧
      q.lineage.toList = ["Disc", "Knob(string)", "Round(number)", "Shape"] ∧
      ∃ t, ((resolveStruct ⟨"Round", [.primitive "number"]⟩).run s').outcome = .ok t ∧
        q.Extends t ∧ q.label ∉ t.lineage := by
  intro s s'
  have hraw : ∀ call ∈ knobOverDisc, call.IsRaw := by decide
  have hargs : ∀ arg ∈ [TypeExpr.primitive "string"], arg.IsRead := by
    intro arg harg
    rw [List.mem_singleton.1 harg]
    exact ⟨"string", by decide +kernel⟩
  have hlabels : (((resolveStruct ⟨"Knob", [.primitive "string"]⟩).run s).outcome.toOption.map
      fun q => (q.instantiation.name, q.lineage.toList)) =
      some ("Knob", ["Disc", "Knob(string)", "Round(number)", "Shape"]) := by decide +kernel
  obtain ⟨q, hq, hfound⟩ := exists_of_toOption_map hlabels
  obtain ⟨hname, hlineage⟩ := Prod.mk.inj hfound
  have hround : Instantiation.IsRead ⟨"Round", [.primitive "number"]⟩ :=
    ⟨"Round(number)", by decide +kernel⟩
  have hlabel : Instantiation.label ⟨"Round", [.primitive "number"]⟩ ∈ q.lineage := by
    show _ ∈ q.lineage.toList
    rw [hlineage]
    decide +kernel
  obtain ⟨-, hancestors⟩ := lineage_is_ancestry .empty none false knobOverDisc hraw
    ⟨"Knob", _⟩ hargs q hq
  obtain ⟨t, ht, -, -, hextends, hback⟩ := hancestors _ hround hlabel
  refine ⟨q, hq, hlineage, t, ht, hextends, fun hself => ?_⟩
  rw [← hback hself] at hname
  exact absurd hname (by decide)

/-- A type that has all of a chain of three above it, from the top on. -/
def wholeChain : List Call :=
  [.register "A" (.table []), .register "B" (.table [(.text "$super", .atom (.text "A"))]),
   .register "C" (.table [(.text "$super", .atom (.text "B"))]),
   .register "D" (.table [(.text "$super", .atom (.text "A+B+C"))])]

-- the last of the chain comes with the type, and is out of reach once that is forgotten
example :
    let s := (opened .empty (some 2) false).after wholeChain
    (s.answer [.resolveStruct ⟨"D", []⟩] ⟨"C", []⟩).isOk = true ∧
      (s.answer [.resolveStruct ⟨"D", []⟩, .clearMemo] ⟨"C", []⟩).isOk = false := by
  decide +kernel

end Session

end WidgetSchema
