import EventHub.Error
import EventHub.Identity
import EventHub.Table
/-!
# The shared store

Records of the connections of all servers, and a counter that every server counts in. Registering
and unregistering each change record and counter together.
-/

namespace EventHub

namespace Store

structure Record where
  server : ServerId
  client : ClientId
  connection : ConnectionId
  lastEventId : Option String
deriving DecidableEq, Repr

/-- A call on the store. Lifetimes are in milliseconds. -/
inductive Call where
  | register (r : Record) (lifetime : Nat)
  | unregister (server : ServerId) (id : ConnectionId)
  | count
  | refresh (server : ServerId) (ids : List ConnectionId) (lifetime : Nat)
deriving DecidableEq, Repr

def Call.name : Call → String
  | register .. => "register"
  | unregister .. => "unregister"
  | count => "count"
  | refresh .. => "refresh"

def Call.subject? : Call → Option ConnectionId
  | register r _ => some r.connection
  | unregister _ id => some id
  | _ => none

end Store

structure Store where
  records : Table ConnectionId Store.Record := []
  counter : Int := 0
deriving Repr

namespace Store

/-- The counter can drift below zero; callers see none of that. -/
def floorCount (n : Int) : Nat := n.toNat

/-- The effect and the answer of a call that succeeds. Only counting answers a number. -/
def perform (s : Store) : Call → Store × Nat
  | .register r _ => ({ records := s.records.set r.connection r, counter := s.counter + 1 }, 0)
  | .unregister _ id => ({ records := s.records.erase id, counter := s.counter - 1 }, 0)
  | .count => (s, floorCount s.counter)
  | .refresh .. => (s, 0)

end Store

end EventHub
