import EventHub.Error
import EventHub.Identity
import EventHub.Event.Frame
import EventHub.Time.Timestamp.Basic
/-!
# Relayed messages

The envelope in which a server passes an event on to the other servers. The payload travels as JSON
text inside the envelope, which is itself written as JSON.
-/

namespace EventHub.Relay

structure Message where
  source : ServerId
  /-- The client that the event is for; `none` means every connection. -/
  target : Option ClientId
  name : String
  /-- The payload as JSON text. -/
  payload : String
  id : Option String
  timestamp : Time.Timestamp
deriving DecidableEq, Repr

namespace Message

def ofEvent (source : ServerId) (target : Option ClientId) (e : Event) (now : Time.Timestamp) :
    Message :=
  ⟨source, target, e.name, e.payload.compact, e.id, now⟩

def optionalText : Option String → Json
  | none => .null
  | some s => .string s

/-- All six fields in order, missing ones as `null`. -/
def toJson (m : Message) : Json :=
  .object
    [("sourceServerId", .string m.source.text),
     ("targetClientId", optionalText m.target),
     ("eventName", .string m.name),
     ("payload", .string m.payload),
     ("eventId", optionalText m.id),
     ("timestamp", .string (String.ofList m.timestamp.text))]

def encode (m : Message) : String := m.toJson.compact

end Message

end EventHub.Relay
