import EventHub.Json.Record
import EventHub.Relay.Message
import EventHub.Time.Timestamp.Reader
/-!
# Reading relayed messages

Accepts every text that `Message.encode` writes, and also fields in another order, fields of other
names, and a message without target or event id where these are left out.
-/

namespace EventHub.Relay.Message

/-- The members read so far. An optional member that is present but `null` is `some none`. -/
structure Draft where
  source : Option String := none
  target : Option (Option String) := none
  name : Option String := none
  payload : Option String := none
  id : Option (Option String) := none
  timestamp : Option Time.Timestamp := none

/-- A timestamp inside a string; a text that is none is refused behind the closing quote. -/
def readTimestamp (text : List Char) : Json.Scanned Time.Timestamp :=
  match Json.readString "an RFC 3339 formatted date and time string" text with
  | .error f => .error f
  | .ok (s, rest) =>
    match Time.Timestamp.read s.toList with
    | .ok t => .ok (t, rest)
    | .error e => .error (Json.failAt (.refused e.message) rest)

def shape : Json.Shape Draft where
  title := "struct BackplaneMessage"
  members :=
    [⟨"sourceServerId", (·.source.isSome), fun d text =>
        (Json.readString "a string" text).map fun (s, rest) =>
          ({ d with source := some s }, rest), false⟩,
     ⟨"targetClientId", (·.target.isSome), fun d text =>
        (Json.readOptionalString "a string" text).map fun (s, rest) =>
          ({ d with target := some s }, rest), false⟩,
     ⟨"eventName", (·.name.isSome), fun d text =>
        (Json.readString "a string" text).map fun (s, rest) =>
          ({ d with name := some s }, rest), false⟩,
     ⟨"payload", (·.payload.isSome), fun d text =>
        (Json.readString "a string" text).map fun (s, rest) =>
          ({ d with payload := some s }, rest), false⟩,
     ⟨"eventId", (·.id.isSome), fun d text =>
        (Json.readOptionalString "a string" text).map fun (s, rest) =>
          ({ d with id := some s }, rest), false⟩,
     ⟨"timestamp", (·.timestamp.isSome), fun d text =>
        (readTimestamp text).map fun (t, rest) => ({ d with timestamp := some t }, rest), false⟩]

def Draft.finish (d : Draft) : Except Json.Fault Message :=
  match d.source, d.name, d.payload, d.timestamp with
  | none, _, _, _ => .error (.missingField "sourceServerId")
  | _, none, _, _ => .error (.missingField "eventName")
  | _, _, none, _ => .error (.missingField "payload")
  | _, _, _, none => .error (.missingField "timestamp")
  | some source, some name, some payload, some timestamp =>
    .ok ⟨⟨source⟩, d.target.join, name, payload, d.id.join, timestamp⟩

def read (text : List Char) : Except Json.Failure Message := do
  let (m, rest) ← shape.read {} Draft.finish text
  Json.expectEnd rest
  return m

def decode (raw : String) : Except Error Message :=
  (read raw.toList).mapError fun f => .malformed (f.message raw.toList)

def event (m : Message) : Except Error Event :=
  match Json.read m.payload.toList with
  | .ok payload => .ok ⟨m.name, payload, m.id⟩
  | .error f => .error (.malformed (f.message m.payload.toList))

end EventHub.Relay.Message
