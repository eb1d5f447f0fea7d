import EventHub.Cluster.Machine
import EventHub.Settings.Stream
import EventHub.Web.ClientIdentity
/-!
# Event streams

The body of an answer that is open as long as its client listens. It yields the frames of its
connection and ends when the server shuts down, when the outbox is disposed or when no frame can
come any more. Where several of these are possible any of them may happen. When the stream ends or
is dropped, its connection is closed and its removal begins, once.
-/

namespace EventHub.Web

structure EventStream where
  server : Nat
  /-- The connection of the cluster. -/
  handle : Nat
  /-- Ended or dropped. -/
  gone : Bool := false
deriving DecidableEq, Repr

namespace EventStream

def lastEventId? (headers : List Header) : Option String :=
  (header? headers "last-event-id").bind fun value =>
    if isVisibleText value && !value.isEmpty then some (asciiText value) else none

/-- The connection of a new stream, the hint when to reconnect being its first frame. -/
def connectionOf (settings : Settings.Stream) (now : Nat) (id : ConnectionId) (client : ClientId)
    (lastEventId : Option String) : Connection :=
  let o := Outbox.ofSettings settings.buffer settings.writeTimeout.millis
  { id := id, client := client, lastEventId := lastEventId
    writer := .outbox (o.start now (Event.retry settings.retryInterval)).1 }

/-- What can happen to a stream that is asked for its next frame. -/
inductive Branch where
  | shutdown
  | terminated
  | frame
deriving DecidableEq, Repr

inductive Answer where
  | pending
  | frame (text : String)
  | ended
deriving DecidableEq, Repr

def outbox? (c : Cluster) (s : EventStream) : Option Outbox :=
  (c.connection? s.handle).bind fun x =>
    match x.writer with
    | .outbox o => some o
    | .recorder _ => none

def isReady (c : Cluster) (shutdown : Bool) (s : EventStream) : Branch → Bool
  | .shutdown => shutdown
  | .terminated => (s.outbox? c).any (·.disposed)
  | .frame => (s.outbox? c).any fun o => o.receive.2 ≠ .pending

def onOutbox (f : Outbox → Outbox) (x : Connection) : Connection :=
  match x.writer with
  | .outbox o => { x with writer := .outbox (f o) }
  | .recorder _ => x

/-- The stream goes away: its connection is closed and its removal begins. -/
def leave (c : Cluster) (s : EventStream) : Cluster × EventStream × List Task :=
  if s.gone then (c, s, [])
  else match c.connection? s.handle with
    | none => (c, { s with gone := true }, [])
    | some x =>
      (c.setConnection s.handle (onOutbox Outbox.dropReceiver x.close), { s with gone := true },
        [{ activity := .removal s.server (.fresh x.id) }])

def take (c : Cluster) (s : EventStream) (b : Branch) :
    Cluster × EventStream × Answer × List Task :=
  let ended : Cluster × EventStream × Answer × List Task :=
    let (c, s, tasks) := s.leave c
    (c, s, .ended, tasks)
  match b with
  | .shutdown | .terminated => ended
  | .frame =>
    match (s.outbox? c).map Outbox.receive with
    | some (o, .frame text) =>
      (c.modifyConnection s.handle (onOutbox fun _ => o), s, .frame text, [])
    | some (_, .pending) => (c, s, .pending, [])
    | _ => ended

/-- Asks for the next frame; `choice` picks among the branches that are ready. -/
def poll (choice : List Branch → Option Branch) (shutdown : Bool)
    (c : Cluster) (s : EventStream) :
    Cluster × EventStream × Answer × List Task :=
  if s.gone then (c, s, .ended, [])
  else match choice ([Branch.shutdown, .terminated, .frame].filter (s.isReady c shutdown)) with
    | none => (c, s, .pending, [])
    | some b => s.take c b

end EventStream

end EventHub.Web
