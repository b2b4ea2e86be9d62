import TapeMachine.Message
import TapeMachine.Sink
import TapeMachine.Source

/-!
# Channels

A channel carries words to and from a machine. A fixed channel replays the same
values, a queue gives every value once, and a text channel replays the numbers of
a text and writes what it is sent.
-/

namespace TapeMachine

/-- Why a channel does not take a value. -/
inductive ChannelError where
  | full
  | writeFailed (text : String)
  deriving DecidableEq, Repr

/-- The text of a channel error. -/
def ChannelError.message : ChannelError → String
  | full => Message.fill "channel full" []
  | writeFailed text => text

/-- What can be wrong with input text. -/
inductive InputError where
  /-- The field at an index is no number. -/
  | badField (index : Nat) (text : String)
  | readFailed (text : String)
  deriving DecidableEq, Repr

/-- The text of an input error. -/
def InputError.message : InputError → String
  | badField index text =>
    Message.fill "input value %d '%v' is not an integer" [.number index, .text text]
  | readFailed text => text

/-! ## Queues -/

/-- A bounded queue. Values are stored in order, and those before the head were
taken out. -/
structure Queue where
  capacity : Int := 0
  stored : Array Word := #[]
  head : Nat := 0

namespace Queue

/-- The values that wait, the oldest first. -/
def toList (q : Queue) : List Word := q.stored.toList.drop q.head

/-- How many values wait. -/
def length (q : Queue) : Nat := q.stored.size - q.head

/-- Forgets all values. -/
def clear (q : Queue) : Queue := { q with stored := #[], head := 0 }

/-- Takes out the oldest value. An emptied queue gives its storage back. -/
def pop? (q : Queue) : Option (Word × Queue) :=
  if h : q.head < q.stored.size then
    let value := q.stored[q.head]
    let rest := { q with head := q.head + 1 }
    some (value, if rest.length = 0 then rest.clear else rest)
  else none

/-- Drops the values that were taken out from the storage. -/
def compact (q : Queue) : Queue :=
  { q with stored := q.stored.extract q.head q.stored.size, head := 0 }

/-- Whether the values that were taken out fill half of the storage. -/
def isSlack (q : Queue) : Bool := 0 < q.head && q.stored.size ≤ 2 * q.head

/-- Whether the queue takes no further value. -/
def isFull (q : Queue) : Bool := q.capacity ≤ q.length

/-- Adds a value behind all others, even if the queue is full. The storage is compacted
first where this is called for. -/
def pushWith (compacts : Queue → Bool) (q : Queue) (value : Word) : Queue :=
  match if compacts q then q.compact else q with
  | ⟨capacity, stored, head⟩ => ⟨capacity, stored.push value, head⟩

/-- Adds a value behind all others, even if the queue is full. Slack storage is
compacted. -/
def push (q : Queue) (value : Word) : Queue := q.pushWith isSlack value

end Queue

/-! ## Input text -/

/-- The numbers at the front of a text, and what stopped their reading. -/
structure Intake where
  values : List Word := []
  error : Option InputError := none
  deriving DecidableEq, Repr

namespace Intake

/-- The number that a field spells. -/
def word? (field : List Char) : Option Word := (Numeral.readDecimal field).word?

/-- Reads numbers from fields up to the first field that is none. -/
def ofFields (fields : List (List Char)) : Intake :=
  let good := fields.takeWhile fun field => (word? field).isSome
  { values := good.filterMap word?
    error := fields[good.length]?.map fun field =>
      .badField good.length (String.ofList field) }

/-- Reads the numbers of a source, which blanks and commas separate. A source that
fails gives none. -/
def ofSource (source : Source) : Intake :=
  match source.failure with
  | some failure => { error := some (.readFailed failure) }
  | none => ofFields (Text.fieldsBy (fun c => c == ',' || Text.isBlank c) source.text.toList)

end Intake

/-- A channel between texts. Its input is read once, when it is first asked for. -/
structure TextChannel where
  input : Option Source := none
  intake : Option Intake := none
  sink : Sink := {}

namespace TextChannel

/-- Reads the input, unless this was done before. -/
def load (t : TextChannel) : TextChannel :=
  match t.intake with
  | some _ => t
  | none => { t with intake := some ((t.input.map Intake.ofSource).getD {}) }

/-- The values read from the input. -/
def values (t : TextChannel) : List Word := (t.intake.map Intake.values).getD []

/-- What stopped the reading of the input. -/
def error (t : TextChannel) : Option InputError := t.intake.bind Intake.error

/-- Writes a value on a line of its own, even if the sink refuses it. -/
def write (t : TextChannel) (value : Word) : TextChannel :=
  match t with
  | ⟨input, intake, sink⟩ => ⟨input, intake, sink.write (Numeral.ofWord value ++ "\n")⟩

end TextChannel

/-! ## Channels -/

/-- The kinds of channels. -/
inductive Channel where
  /-- Replays values, and takes none. -/
  | fixed (values : List Word)
  | queue (q : Queue)
  | text (t : TextChannel)

namespace Channel

/-- Brings a channel back to its start. -/
def rewind : Channel → Channel
  | queue q => queue q.clear
  | c => c

/-- Why a channel does not take a further value, if it does not. -/
def refusal? : Channel → Option ChannelError
  | fixed _ => some .full
  | queue q => if q.isFull then some .full else none
  | text t => t.sink.failure.map .writeFailed

/-- Adds a value to a channel that does not refuse it. -/
def accept (value : Word) : Channel → Channel
  | fixed values => fixed values
  | queue q => queue (q.push value)
  | text t => text (t.write value)

/-- Sends a value to a channel. A channel that refuses it stays as it was. -/
def send (c : Channel) (value : Word) : Option ChannelError × Channel :=
  match c.refusal? with
  | some e => (some e, c)
  | none => (none, c.accept value)

/-- All values that a channel has to give now. -/
def collect : Channel → List Word × Channel
  | fixed values => (values, fixed values)
  | queue q => (q.toList, queue q.clear)
  | text t =>
    let t := t.load
    (t.values, text t)

/-- The progress of a reader of a channel: the values left to replay, or none if the
channel itself keeps track. -/
abbrev Cursor := Option (List Word)

/-- Starts reading a channel. -/
def start : Channel → Cursor × Channel
  | fixed values => (some values, fixed values)
  | queue q => (none, queue q)
  | text t =>
    let t := t.load
    (some t.values, text t)

/-- The next value for a reader. -/
def next? (c : Channel) : Cursor → Option (Word × Cursor × Channel)
  | some [] => none
  | some (value :: rest) => some (value, some rest, c)
  | none =>
    match c with
    | queue q => q.pop?.map fun (value, q) => (value, none, queue q)
    | _ => none

/-- What a reader received, and what it sent meanwhile. -/
structure Received where
  values : List Word := []
  /-- The values sent, each with the error if it was refused. -/
  sent : List (Word × Option ChannelError) := []
  channel : Channel

/-- Sends the next value of a feed, if there is one. -/
def feedOnce (c : Channel) : List Word → List (Word × Option ChannelError) × List Word × Channel
  | [] => ([], [], c)
  | value :: feed =>
    let (refusal, c) := c.send value
    ([(value, refusal)], feed, c)

/-- Receives values until there are none left or the limit is reached. After each
one, the next value of the feed is sent to the same channel. The fuel is at least
the number of values waiting and in the feed. -/
def receiveFrom : (fuel : Nat) → (limit : Option Nat) → (feed : List Word) → Cursor → Channel →
    Received
  | 0, _, _, _, c => { channel := c }
  | fuel + 1, limit, feed, cursor, c =>
    if limit = some 0 then { channel := c }
    else
      match c.next? cursor with
      | none => { channel := c }
      | some (value, cursor, c) =>
        let (sent, feed, c) := c.feedOnce feed
        let rest := receiveFrom fuel (limit.map (· - 1)) feed cursor c
        { rest with values := value :: rest.values, sent := sent ++ rest.sent }

/-- How many values wait for a reader. -/
def waiting (c : Channel) : Cursor → Nat
  | some rest => rest.length
  | none =>
    match c with
    | queue q => q.length
    | _ => 0

/-- Receives values up to a limit, feeding others meanwhile. With a limit of zero
the channel is not touched. -/
def receive (c : Channel) (limit : Option Nat) (feed : List Word) : Received :=
  if limit = some 0 then { channel := c }
  else
    let (cursor, c) := c.start
    receiveFrom (c.waiting cursor + feed.length + 1) limit feed cursor c

end Channel

end TapeMachine
