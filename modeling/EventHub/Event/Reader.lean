import EventHub.Text.Digits
import EventHub.Text.Split
/-!
# Reading an event stream

What a client takes from a stream of type `text/event-stream`. A line ends at a line feed, a
carriage return or both; a line with a colon in front is a comment, any other one a field, and a
blank line ends an event. What stands behind the last blank line is not an event yet.
-/

namespace EventHub.Event

/-- What a client takes from a stream. -/
inductive Received where
  /-- An event with the texts of its fields; the name is empty if none is given. -/
  | event (name : List Char) (data : List Char) (id : Option (List Char))
  /-- The number of milliseconds after which to reconnect. -/
  | retry (millis : Nat)
deriving DecidableEq, Repr

def Received.type? : Received → Option String
  | event name .. => some (if name.isEmpty then "message" else String.ofList name)
  | retry _ => none

def streamLines : List Char → List (List Char)
  | [] => []
  | '\n' :: rest => [] :: streamLines rest
  | '\r' :: '\n' :: rest => [] :: streamLines rest
  | '\r' :: rest => [] :: streamLines rest
  | c :: rest =>
    match streamLines rest with
    | [] => []
    | line :: more => (c :: line) :: more

/-- The name of a field and its value, which is empty if there is no colon. One space behind the
colon is not part of the value. -/
def readField (line : List Char) : List Char × List Char :=
  match Text.splitFirst ':' line with
  | (name, none) => (name, [])
  | (name, some (' ' :: value)) => (name, value)
  | (name, some value) => (name, value)

/-- The fields since the last blank line. -/
structure Block where
  name : List Char := []
  data : List (List Char) := []
  id : Option (List Char) := none
deriving DecidableEq, Repr

namespace Block

/-- Takes a field in. A hint when to reconnect is no part of an event and counts at once. -/
def take (b : Block) (field : String) (value : List Char) : Block × Option Received :=
  if field = "event" then ({ b with name := value }, none)
  else if field = "data" then ({ b with data := b.data ++ [value] }, none)
  else if field = "id" then
    (if value.contains '\x00' then b else { b with id := some value }, none)
  else if field = "retry" then (b, (Text.digitsValue? value).map .retry)
  else (b, none)

def takeLine (b : Block) (line : List Char) : Block × Option Received :=
  if line.head? = some ':' then (b, none)
  else
    let (field, value) := readField line
    b.take (String.ofList field) value

def event? (b : Block) : Option Received :=
  if b.data.isEmpty then none
  else some (.event b.name (['\n'].intercalate b.data) b.id)

end Block

/-- What lines hold whose first ones belong to a block that is begun. -/
def readLines (b : Block) : List (List Char) → List Received
  | [] => []
  | line :: rest =>
    if line.isEmpty then b.event?.toList ++ readLines {} rest
    else
      let (b, received) := b.takeLine line
      received.toList ++ readLines b rest

/-- What a stream holds; a byte order mark in front is no part of it. -/
def readStream (text : List Char) : List Received :=
  readLines {} (streamLines (if text.head? = some '\ufeff' then text.tail else text))

end EventHub.Event
