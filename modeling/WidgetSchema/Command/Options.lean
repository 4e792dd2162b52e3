/-
Words of a command line: options and operands.

A word with a hyphen in front is an option, unless it is a lone hyphen, looks
like a negative number or holds a blank and matches no flag. A long flag can be
cut short as long as only one flag begins like it, and can carry its value
behind an equality sign; a short flag can carry its value right behind it. A
word of two hyphens makes operands of all words after it; two hyphens carried by
a flag make it valueless again.

Words are consumed from left to right: operands fill the slots that are left as
far as they reach, and an option takes its value from the word behind it. What
fits nowhere is left over. Asking for help ends the reading at once, and so does
a word that is refused.
-/
import WidgetSchema.Text.Character

set_option autoImplicit false

namespace WidgetSchema.Options

/-- What a flag does. -/
inductive Effect where
  /-- Ends the reading. -/
  | help
  /-- Takes a value, one of those allowed if they are listed. -/
  | store (allowed : Option (List String))
deriving DecidableEq, Repr

/-- The flags of a command. -/
abbrev Flags := List (String × Effect)

/-- What an operand slot takes. -/
inductive Slot where
  /-- One operand. -/
  | one
  /-- Any number of operands. -/
  | many
  /-- One operand and all words behind it. -/
  | rest
deriving DecidableEq, Repr

/-- A flag that a word names. -/
structure Hit where
  effect : Effect
  /-- The flag has one hyphen. -/
  short : Bool
  /-- A value inside the word. -/
  attached : Option String
deriving DecidableEq, Repr

/-- A word of a command line. -/
inductive Word where
  | operand (text : String)
  /-- An option, with the flag it names, if it names one. -/
  | option (text : String) (hit : Option Hit)
  /-- The word that ends the options. -/
  | terminator
deriving DecidableEq, Repr

namespace Word

/-- The text of a word. -/
def text : Word → String
  | operand t => t
  | option t _ => t
  | terminator => "--"

/-- The word is an option. -/
def isOption : Word → Bool
  | option _ _ => true
  | _ => false

end Word

/-! ## Recognizing words -/

/-- The flag has one hyphen. -/
def isShort (flag : String) : Bool := (flag.toList[1]?).any (· != '-')

/-- The text before the first equality sign and the text behind it. -/
def cutAtEquals (s : String) : String × Option String :=
  let before := s.toList.takeWhile (· != '=')
  match s.toList.dropWhile (· != '=') with
  | [] => (String.ofList before, none)
  | _ :: after => (String.ofList before, some (String.ofList after))

/-- The flags that a word can stand for without being one. -/
def candidates (flags : Flags) (word : String) : List Hit :=
  if isShort word then
    flags.filterMap fun f =>
      if f.1.toList = word.toList.take 2 then
        some
          { effect := f.2
            short := true
            attached := some (String.ofList (word.toList.drop 2)) }
      else if word.toList.isPrefixOf f.1.toList then
        some { effect := f.2, short := isShort f.1, attached := none }
      else none
  else
    let (start, value) := cutAtEquals word
    flags.filterMap fun f =>
      if start.toList.isPrefixOf f.1.toList then
        some { effect := f.2, short := isShort f.1, attached := value }
      else none

/-- The characters without the line break they end with, if they end with one. -/
def dropFinalBreak : List Char → List Char
  | [] => []
  | ['\n'] => []
  | c :: cs => c :: dropFinalBreak cs

/-- A hyphen and digits, with at most one point before the last of them; a line break
may follow. -/
def isNegativeNumber (word : String) : Bool :=
  match dropFinalBreak word.toList with
  | '-' :: cs =>
    let isDigit (c : Char) : Bool := (Character.digitValue? c).isSome
    let whole := cs.takeWhile isDigit
    match cs.dropWhile isDigit with
    | [] => !whole.isEmpty
    | '.' :: fraction => !fraction.isEmpty && fraction.all isDigit
    | _ => false
  | _ => false

/-- The kind of a word, before the options have ended; nothing if it can stand
for more than one flag. -/
def recognize (flags : Flags) (word : String) : Option Word :=
  if word = "--" then some .terminator
  else if word.toList.head? != some '-' then some (.operand word)
  else match flags.lookup word with
    | some effect =>
      some (.option word (some { effect, short := isShort word, attached := none }))
    | none =>
      if word = "-" then some (.operand word)
      else
        let (start, value) := cutAtEquals word
        match value, flags.lookup start with
        | some v, some effect =>
          some (.option word (some { effect, short := isShort start, attached := some v }))
        | _, _ =>
          match candidates flags word with
          | [hit] => some (.option word (some hit))
          | [] =>
            if isNegativeNumber word || word.toList.contains ' ' then some (.operand word)
            else some (.option word none)
          | _ => none

/-- The kinds of all words. -/
def recognizeAll (flags : Flags) : List String → Option (List Word)
  | [] => some []
  | w :: ws => do
    let word ← recognize flags w
    match word with
    | .terminator => return .terminator :: ws.map .operand
    | word => do
      let words ← recognizeAll flags ws
      return word :: words

/-! ## Consuming words -/

/-- How the reading of a command line ends. -/
inductive Ending (α : Type) where
  | help
  | refused
  | read (result : α)

/-- What has been read: the last value given to the flag that takes one, the operands of each
filled slot, the slots still open, and whether a word was left over. -/
structure State where
  value : Option String
  filled : List (List String)
  openSlots : List Slot
  leftOver : Bool

/-- The words that fill a slot and the words behind them. -/
def fill? : Slot → List Word → Option (List Word × List Word)
  | .one, ws =>
    match ws with
    | .operand t :: rest =>
      some (.operand t :: rest.takeWhile (· == .terminator), rest.dropWhile (· == .terminator))
    | .terminator :: .operand t :: rest => some ([.terminator, .operand t], rest)
    | _ => none
  | .many, ws => some (ws.takeWhile (!·.isOption), ws.dropWhile (!·.isOption))
  | .rest, ws =>
    match ws with
    | .operand _ :: _ | .terminator :: .operand _ :: _ => some (ws, [])
    | _ => none

/-- The texts that fill a slot. The first word of two hyphens in a slot is no operand,
so a slot for one stays empty if it gets that word alone. -/
def operandsOf (slot : Slot) (ws : List Word) : Option (List String) :=
  let texts := ws.map Word.text
  match slot with
  | .rest => some texts
  | .many => some (texts.erase "--")
  | .one =>
    match texts.erase "--" with
    | [] => some []
    | [t] => some [t]
    | _ => none

/-- Fills open slots from the left, as far as words reach; nothing if a slot is
filled with what it cannot take. -/
def fillSlots (filled : List (List String)) :
    List Slot → List Word → Option (List (List String) × List Slot × List Word)
  | [], ws => some (filled, [], ws)
  | slot :: slots, ws =>
    match fill? slot ws with
    | none => some (filled, slot :: slots, ws)
    | some (mine, ws) => do
      let texts ← operandsOf slot mine
      fillSlots (filled ++ [texts]) slots ws

/-- The effect of short flags written right behind the short flag for help, in one
word: help, unless one of them does not exist or lacks its value. -/
def helpCluster (flags : Flags) (next : List Word) : List Char → Ending Unit
  | [] => .refused
  | c :: cs =>
    match flags.lookup (String.ofList ['-', c]), cs with
    | none, _ => .refused
    | some .help, [] => .help
    | some .help, cs => helpCluster flags next cs
    | some (.store _), [] =>
      match next with
      | .operand _ :: _ => .help
      | _ => .refused
    | some (.store _), _ => .help

/-- The value that an option stores, and the words behind it. -/
def stored (attached : Option String) (next : List Word) : Option (String × List Word) :=
  match attached, next with
  | some v, next => some (v, next)
  | none, .operand t :: next => some (t, next)
  | none, _ => none

/-- Consumes an option; the words behind it are given. Two hyphens as a value stand for
no value: they take back what was given before, whatever values are allowed. -/
def takeOption (flags : Flags) (s : State) (hit : Option Hit) (next : List Word) :
    Ending (State × List Word) :=
  match hit with
  | none => .read ({ s with leftOver := true }, next)
  | some hit =>
    match hit.effect, hit.attached with
    | .help, none => .help
    | .help, some v =>
      if hit.short then
        match helpCluster flags next v.toList with
        | .help => .help
        | _ => .refused
      else .refused
    | .store allowed, attached =>
      match stored attached next with
      | none => .refused
      | some (v, next) =>
        if v = "--" then .read ({ s with value := none }, next)
        else if allowed.all (·.contains v) then .read ({ s with value := some v }, next)
        else .refused

/-- Consumes operands, up to the next option if no slot is open for them. -/
def takeOperands (s : State) (ws : List Word) : Ending (State × List Word) :=
  match fillSlots s.filled s.openSlots ws with
  | none => .refused
  | some (filled, slots, rest) =>
    let s := { s with filled, openSlots := slots }
    if rest.length < ws.length then .read (s, rest)
    else .read ({ s with leftOver := true }, ws.dropWhile (!·.isOption))

/-- Consumes the words behind the last option. -/
def finish (s : State) (ws : List Word) : Ending State :=
  match fillSlots s.filled s.openSlots ws with
  | none => .refused
  | some (filled, [], rest) =>
    .read { s with filled, openSlots := [], leftOver := s.leftOver || !rest.isEmpty }
  | some _ => .refused

/-- Consumes all words. Every round uses up a word, so their number bounds the rounds. -/
def consume (flags : Flags) : (rounds : Nat) → State → List Word → Ending State
  | 0, s, ws => finish s ws
  | rounds + 1, s, ws =>
    if ws.any Word.isOption then
      let step := match ws with
        | .option _ hit :: next => takeOption flags s hit next
        | ws => takeOperands s ws
      match step with
      | .help => .help
      | .refused => .refused
      | .read (s, ws) => consume flags rounds s ws
    else finish s ws

/-- Reads the words of a command with given flags and operand slots. -/
def read (flags : Flags) (slots : List Slot) (words : List String) : Ending State :=
  match recognizeAll flags words with
  | none => .refused
  | some ws =>
    consume flags ws.length
      { value := none, filled := [], openSlots := slots, leftOver := false } ws

end WidgetSchema.Options
