import EventHub.Cluster.Publishing
import EventHub.Proofs.Relay.Envelopes
/-!
# Reading back relayed messages

Every message that a server writes is read as the same message, and the event in it has the name and
the id of the event that was published. Its payload is read back too, and is the same value unless
it has doubles.
-/

namespace EventHub

/-! ## Events -/

/-- The event as another server reads it from the relay: its payload has been written and read. -/
def Event.carried (e : Event) : Event :=
  match Json.read e.payload.text with
  | .ok payload => { e with payload := payload }
  | .error _ => e

theorem Event.carried_eq {e : Event} (hvalid : e.payload.Valid)
    (hdepth : e.payload.depth < Json.maxDepth) (hexact : e.payload.Exact) : e.carried = e := by
  rw [carried, Json.read_text hvalid hdepth, Json.reread_of_exact _ hexact]

namespace Relay.Message

open Json

/-- The event in the message of an event, which is the one with its payload as it is read back. -/
theorem event_ofEvent (source : ServerId) (target : Option ClientId) {e : Event}
    (now : Time.Timestamp) (hvalid : e.payload.Valid) (hdepth : e.payload.depth < maxDepth) :
    (ofEvent source target e now).event = .ok e.carried := by
  have hread := read_text hvalid hdepth
  rw [event, ofEvent, compact, String.toList_ofList, hread, Event.carried, hread]

end Relay.Message

namespace Cluster

open Relay (Message)

/-- What a server does about a message that another one wrote, and about its own. -/
theorem received_encode (server : ServerId) {m : Message} {e : Event}
    (hlow : Time.Date.minYear ≤ m.timestamp.date.year)
    (hhigh : m.timestamp.date.year ≤ Time.Date.maxYear) (hevent : m.event = .ok e) :
    received server m.encode =
      .ok (if m.source = server then none else some (.fresh m.target e)) := by
  rw [received, Message.decode_encode hlow hhigh]
  simp only [hevent]
  split <;> rfl

end Cluster

end EventHub
