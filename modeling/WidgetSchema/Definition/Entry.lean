/-
Raw table entries and the shape of struct entries.

A table is plain data with ready definitions among it. An entry that is itself a
table declares a struct: two keys are reserved for its parameters and its
supertype, every other key is a field. `StructEntry.ofFields` checks that shape
and lists all faults it finds, parameters first, then the supertype, then the
fields.
-/
import WidgetSchema.Definition.Basic
import WidgetSchema.Definition.Texts
import WidgetSchema.Value.Atom

set_option autoImplicit false

namespace WidgetSchema

/-- A raw table entry, or a part of one. -/
inductive Entry where
  /-- A text, a number or another value without parts. -/
  | atom (a : Atom)
  | list (items : List Entry)
  | tuple (items : List Entry)
  /-- A table: keys with entries, in order. -/
  | table (fields : List (Atom × Entry))
  /-- A definition that needs no reading, and the texts it was made from. -/
  | definition (d : Definition) (texts : DeclaredTexts)
deriving Inhabited

namespace Entry

/-- What messages call the kind of an entry. -/
def kindName : Entry → String
  | atom a => a.kindName
  | list _ => "list"
  | tuple _ => "tuple"
  | table _ => "dict"
  | definition d _ => d.kindName

/-- The text of an entry; a byte string counts if it encodes one. -/
def text? : Entry → Option String
  | atom (.text s) => some s
  | atom (.bytes bs) => String.fromUTF8? (ByteArray.mk bs.toArray)
  | _ => none

end Entry

/-! ## Struct entries -/

/-- A struct entry of the right shape, with all its texts unread. -/
structure StructEntry where
  parameters : List String
  supertype : Option String
  fields : List (String × String)
deriving DecidableEq, Repr

namespace StructEntry

/-- The key of the parameters. -/
def parametersKey : Atom := .text "$macro"

/-- The key of the supertype. -/
def supertypeKey : Atom := .text "$super"

/-- The texts of a list of entries, with a fault for each that is none. -/
def texts (index : Nat) : List Entry → List String × List EntryFault
  | [] => ([], [])
  | e :: es =>
    let (ss, faults) := texts (index + 1) es
    match e.text? with
    | some s => (s :: ss, faults)
    | none => (ss, .parameterNotText index :: faults)

/-- The parameters: a list of texts, or one text. -/
def readParameters : Option Entry → List String × List EntryFault
  | none => ([], [])
  | some (.atom (.text s)) => ([s], [])
  | some (.list items) | some (.tuple items) => texts 0 items
  | some _ => ([], [.parametersNotList])

/-- The supertype: a text or nothing. -/
def readSupertype : Option Entry → Option String × List EntryFault
  | none | some (.atom .null) => (none, [])
  | some e =>
    match e.text? with
    | some s => (some s, [])
    | none => (none, [.supertypeNotText])

/-- A key as faults locate it: truth values count as the numbers they equal. -/
def keyLocation (key : Atom) : String :=
  match key with
  | .bool b => (Atom.int (if b then 1 else 0)).keyText
  | key => key.keyText

/-- The fields, with a fault for each key and each type that is no text. -/
def readFields : List (Atom × Entry) → List (String × String) × List EntryFault
  | [] => ([], [])
  | (key, e) :: rest =>
    let (fields, faults) := readFields rest
    match (Entry.atom key).text?, e.text? with
    | some k, some s => ((k, s) :: fields, faults)
    | some _, none => (fields, .fieldNotText (keyLocation key) :: faults)
    | none, some _ => (fields, .fieldKeyNotText (keyLocation key) :: faults)
    | none, none =>
      (fields,
        .fieldKeyNotText (keyLocation key) :: .fieldNotText (keyLocation key) :: faults)

/-- The fault of the first field name that is none. -/
def nameFaults (fields : List (String × String)) : List EntryFault :=
  match fields.find? fun f => !Name.isField f.1 with
  | some f => [.invalidFieldName f.1]
  | none => []

/-- The struct entry of a table. Field names are looked at only if every key and
every type is a text. Keys with one text are one field: the last type counts, at
the place of the first. -/
def ofFields (entry : List (Atom × Entry)) : Except (List EntryFault) StructEntry :=
  let value (key : Atom) := (entry.find? fun f => f.1 == key).map Prod.snd
  let own := entry.filter fun f => f.1 != parametersKey && f.1 != supertypeKey
  let (parameters, parameterFaults) := readParameters (value parametersKey)
  let (supertype, supertypeFaults) := readSupertype (value supertypeKey)
  let (fields, fieldFaults) := readFields own
  let fieldFaults := if fieldFaults.isEmpty then nameFaults fields else fieldFaults
  match parameterFaults ++ supertypeFaults ++ fieldFaults with
  | [] => .ok { parameters, supertype, fields := (OrderedMap.ofList fields).entries }
  | faults => .error faults

/-- The struct entry of a raw entry, which has to be a table. -/
def ofEntry : Entry → Except (List EntryFault) StructEntry
  | .table fields => ofFields fields
  | _ => .error [.notTable]

end StructEntry

end WidgetSchema
