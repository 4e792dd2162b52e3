/-
Values as graphs of containers.

A container has an identity, so one container can stand in several places and
even inside itself. A value is an atom or the address of a container, and a heap
says what is in the container at each address. Addresses are an arbitrary type:
what is said of values does not depend on how containers are numbered.

`ValueGraph.ofDatum` builds the graph of a written value, in which a container
can be given a name and be mentioned again by that name.
-/
import WidgetSchema.Value.Atom

set_option autoImplicit false

namespace WidgetSchema

/-- An atom or a container, given by its address. -/
inductive Value (A : Type) where
  | atom (a : Scalar)
  | container (address : A)
deriving DecidableEq, Repr

/-- What a container holds. -/
inductive Container (A : Type) where
  | list (items : List (Value A))
  | tuple (items : List (Value A))
  | dict (entries : List (Scalar × Value A))
deriving DecidableEq, Repr

/-- The contents of every container. -/
abbrev Heap (A : Type) := A → Container A

namespace Container

variable {A : Type}

/-- What messages call the kind of a container. -/
def kindName : Container A → String
  | list _ => "list"
  | tuple _ => "tuple"
  | dict _ => "dict"

/-- The container holds nothing. -/
def isEmpty : Container A → Bool
  | list items | tuple items => items.isEmpty
  | dict entries => entries.isEmpty

/-- The value of a text key. -/
def entry? (entries : List (Scalar × Value A)) (key : String) : Option (Value A) :=
  (entries.find? fun e => e.1 == .text key).map Prod.snd

end Container

namespace Value

variable {A : Type}

/-- The value counts as absent. -/
def isAbsent : Value A → Bool
  | atom a => a.isAbsent
  | container _ => false

/-- The value counts as true in a condition. -/
def isTruthy (heap : Heap A) : Value A → Bool
  | atom a => a.isTruthy
  | container p => !(heap p).isEmpty

/-- What messages call the kind of a value. -/
def kindName (heap : Heap A) : Value A → String
  | atom a => a.kindName
  | container p => (heap p).kindName

/-- A list or a tuple as a container with items. -/
def items? (heap : Heap A) : Value A → Option (A × List (Value A))
  | atom _ => none
  | container p =>
    match heap p with
    | .list items | .tuple items => some (p, items)
    | .dict _ => none

/-- A dictionary as a container with entries. -/
def entries? (heap : Heap A) : Value A → Option (A × List (Scalar × Value A))
  | atom _ => none
  | container p =>
    match heap p with
    | .dict entries => some (p, entries)
    | .list _ | .tuple _ => none

end Value

/-! ## Written values -/

/-- A written value. -/
inductive Datum where
  | atom (a : Scalar)
  | list (items : List Datum)
  | tuple (items : List Datum)
  | dict (entries : List (Scalar × Datum))
  /-- A value that is given a name. -/
  | named (name : String) (value : Datum)
  /-- The value that was given the name. -/
  | again (name : String)
deriving Inhabited

/-- A value together with the containers it reaches. -/
structure ValueGraph where
  size : Nat
  heap : Heap (Fin size)
  root : Value (Fin size)

namespace ValueGraph

/-- The part of a graph that has been built: the next free address, the named
values and the containers by address. -/
structure Draft where
  next : Nat
  names : List (String × Value Nat)
  placed : List (Nat × Container Nat)

mutual
/-- Adds a written value to a draft. A container takes its address before its
parts are added, so that they can mention it. -/
def build : Datum → Draft → Value Nat × Draft
  | .atom a, draft => (.atom a, draft)
  | .list items, draft =>
    let (vs, after) := buildAll items { draft with next := draft.next + 1 }
    (.container draft.next, { after with placed := (draft.next, .list vs) :: after.placed })
  | .tuple items, draft =>
    let (vs, after) := buildAll items { draft with next := draft.next + 1 }
    (.container draft.next, { after with placed := (draft.next, .tuple vs) :: after.placed })
  | .dict entries, draft =>
    let (es, after) := buildEntries entries { draft with next := draft.next + 1 }
    (.container draft.next,
      { after with placed := (draft.next, .dict (dictOfPairs es)) :: after.placed })
  | .named name value, draft =>
    match value with
    | .atom a => (.atom a, { draft with names := (name, .atom a) :: draft.names })
    | value => build value { draft with names := (name, .container draft.next) :: draft.names }
  | .again name, draft => ((draft.names.lookup name).getD (.atom .null), draft)

/-- Adds the written values of a list. -/
def buildAll : List Datum → Draft → List (Value Nat) × Draft
  | [], draft => ([], draft)
  | d :: ds, draft =>
    let (v, draft) := build d draft
    let (vs, draft) := buildAll ds draft
    (v :: vs, draft)

/-- Adds the written values of a dictionary. -/
def buildEntries : List (Scalar × Datum) → Draft → List (Scalar × Value Nat) × Draft
  | [], draft => ([], draft)
  | (k, d) :: ds, draft =>
    let (v, draft) := build d draft
    let (vs, draft) := buildEntries ds draft
    ((k, v) :: vs, draft)
end

/-- A value with addresses below a bound; an address at or above it cannot occur
in a complete draft. -/
def bounded (n : Nat) : Value Nat → Value (Fin n)
  | .atom a => .atom a
  | .container p => if h : p < n then .container ⟨p, h⟩ else .atom .null

/-- A container with addresses below a bound. -/
def boundedContainer (n : Nat) : Container Nat → Container (Fin n)
  | .list items => .list (items.map (bounded n))
  | .tuple items => .tuple (items.map (bounded n))
  | .dict entries => .dict (entries.map fun e => (e.1, bounded n e.2))

/-- The graph of a written value. -/
def ofDatum (d : Datum) : ValueGraph :=
  let (root, draft) := build d { next := 0, names := [], placed := [] }
  { size := draft.next
    heap := fun p =>
      ((draft.placed.lookup p.val).map (boundedContainer draft.next)).getD (.list [])
    root := bounded draft.next root }

end ValueGraph

/-! ## Text -/

namespace Value

variable {A : Type} [DecidableEq A]

/-- What stands for a container that is shown inside itself. -/
def ellipsis : Container A → String
  | .list _ => "[...]"
  | .tuple _ => "(...)"
  | .dict _ => "\x7b...\x7d"

/-- Items in parentheses; a single one is followed by a comma. -/
def tupleText : List String → String
  | [item] => "(" ++ item ++ ",)"
  | items => Quoted.bracketed "(" ")" items

/-- An entry of a dictionary as messages show it. -/
def entryText (key value : String) : String := key ++ ": " ++ value

/-- A value as messages show it, unless a number in it is too long. The containers in `active` are
being shown around it; a heap has at most `room` others. -/
def shownWithin (heap : Heap A) : (room : Nat) → (active : List A) → Value A → Option String
  | _, _, atom a => a.shown?
  | 0, _, container p => some (ellipsis (heap p))
  | room + 1, active, container p =>
    if p ∈ active then some (ellipsis (heap p))
    else
      let inside := shownWithin heap room (p :: active)
      match heap p with
      | .list items => (items.mapM inside).map (Quoted.bracketed "[" "]")
      | .tuple items => (items.mapM inside).map tupleText
      | .dict entries =>
        (entries.mapM fun e => entryText <$> e.1.shown? <*> inside e.2).map
          (Quoted.bracketed "\x7b" "\x7d")

end Value

/-- A value of a graph as messages show it, unless a number in it is too long to
be written. -/
def Value.shown? {n : Nat} (heap : Heap (Fin n)) (v : Value (Fin n)) : Option String :=
  v.shownWithin heap n []

end WidgetSchema
