/-
Tags of a field: what transport is told about it.

A tag set keeps its tags in the order they were given and has no key twice.
Three keys are known and have values of their own; a known key with another
value is kept but means nothing.
-/
import WidgetSchema.OrderedMap
import WidgetSchema.Text.Quoted

set_option autoImplicit false

namespace WidgetSchema

/-! ## Known keys -/

/-- The side that emits the event a field carries. -/
inductive EventDirection where
  /-- A user interaction, reported to the server. -/
  | client
  /-- A command, pushed to the client. -/
  | server
deriving DecidableEq, Repr

/-- When a queued update is sent. -/
inductive DelayPolicy where
  /-- Held until something else causes a flush. -/
  | forever
  /-- Sent with the next flush. -/
  | flush
deriving DecidableEq, Repr

/-- The direction in which data is synchronized. -/
inductive DataFlow where
  | client | server | both
deriving DecidableEq, Repr

/-- The value that means a direction. -/
def EventDirection.text : EventDirection → String
  | client => "client"
  | server => "server"

/-- The value that means a policy. -/
def DelayPolicy.text : DelayPolicy → String
  | forever => "forever"
  | flush => "flush"

/-- The value that means a flow. -/
def DataFlow.text : DataFlow → String
  | client => "client"
  | server => "server"
  | both => "both"

/-- The directions there are. -/
def EventDirection.all : List EventDirection := [.client, .server]

/-- The policies there are. -/
def DelayPolicy.all : List DelayPolicy := [.forever, .flush]

/-- The flows there are. -/
def DataFlow.all : List DataFlow := [.client, .server, .both]

/-- The values a known key allows. -/
def allowedValues? : (key : String) → Option (List String)
  | "event" => some (EventDirection.all.map EventDirection.text)
  | "delay" => some (DelayPolicy.all.map DelayPolicy.text)
  | "data" => some (DataFlow.all.map DataFlow.text)
  | _ => none

/-! ## Tag sets -/

/-- The tags of a field: keys with their values, in the order they were given. -/
abbrev TagSet := OrderedMap String

namespace TagSet

/-- The two hold the same tags, in whatever order. -/
def agrees (a b : TagSet) : Bool :=
  a.size == b.size && a.entries.all fun tag => b.get? tag.1 == some tag.2

/-! ## Meaning -/

/-- The field is synchronized at all. -/
def isSynchronized (t : TagSet) : Bool := !t.isEmpty

/-- The direction of the event, unless it is absent or not recognised. -/
def event (t : TagSet) : Option EventDirection :=
  (t.get? "event").bind fun v => EventDirection.all.find? (·.text == v)

/-- The delay policy, unless it is absent or not recognised. -/
def delay (t : TagSet) : Option DelayPolicy :=
  (t.get? "delay").bind fun v => DelayPolicy.all.find? (·.text == v)

/-- The data flow, unless it is absent or not recognised. -/
def data (t : TagSet) : Option DataFlow :=
  (t.get? "data").bind fun v => DataFlow.all.find? (·.text == v)

/-! ## Text -/

/-- One tag as it is written behind a field's type. -/
def tagText (tag : String × String) : String := "@" ++ tag.1 ++ "=" ++ tag.2

/-- The tags as they are written behind a field's type. -/
def render (t : TagSet) : String := " ".intercalate (t.entries.map tagText)

/-- The tags as a report shows them. -/
def shown (t : TagSet) : String :=
  "AnnotationSet(" ++ Quoted.bracketed "\x7b" "\x7d"
    (t.entries.map fun tag => Quoted.ofString tag.1 ++ ": " ++ Quoted.ofString tag.2) ++ ")"

end TagSet

end WidgetSchema
