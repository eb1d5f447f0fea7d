import EventHub.Connection.Writer
import EventHub.Identity
import EventHub.Progress
/-!
# Connections

One open stream of a client. A connection is live until it is closed or a write to it fails; it
never comes back. A cancelled send leaves it as it was.
-/

namespace EventHub

structure Connection where
  id : ConnectionId
  client : ClientId
  /-- The last event that the client says it has seen; recorded only. -/
  lastEventId : Option String := none
  live : Bool := true
  writer : Writer
deriving DecidableEq, Repr

inductive Sending where
  | fresh
  | writing (w : Writing)
deriving DecidableEq, Repr

namespace Connection

def markDead (c : Connection) : Connection := { c with live := false }

def close (c : Connection) : Connection := { c with live := false, writer := c.writer.dispose }

def notLiveError : Error := .write .disposed .connectionNotLive

def finish (c : Connection) (result : Except Error Unit) : Connection :=
  match result with
  | .ok () => c
  | .error e => if e.isCancelled then c else c.close

def abandon (c : Connection) : Sending → Connection
  | .fresh => c
  | .writing w => { c with writer := c.writer.abandon w }

/-- One step of a send. Cancellation comes first; a fresh send on a dead connection fails without
touching the writer. -/
def stepSend (c : Connection) (now : Nat) (cancelled : Bool) (frame : String) (s : Sending) :
    Connection × Progress Sending (Except Error Unit) :=
  match s with
  | .fresh =>
    if !c.live then (c, .done (.error notLiveError))
    else if cancelled then (c, .done (.error .cancelled))
    else match c.writer.start now frame with
      | (w, .inl s) => ({ c with writer := w }, .moved (.writing s))
      | (w, .inr r) => ({ c with writer := w }.finish r, .done r)
  | .writing s =>
    if cancelled then (c.abandon (.writing s), .done (.error .cancelled))
    else match c.writer.resume now frame s with
      | (w, none) => ({ c with writer := w }, .blocked)
      | (w, some r) => ({ c with writer := w }.finish r, .done r)

def stepWrite (c : Connection) (now : Nat) (frame : String) (w : Option Writing) :
    Connection × Progress (Option Writing) (Except Error Unit) :=
  match w with
  | none =>
    match c.writer.start now frame with
    | (y, .inl w) => ({ c with writer := y }, .moved (some w))
    | (y, .inr r) => ({ c with writer := y }, .done r)
  | some w =>
    match c.writer.resume now frame w with
    | (y, none) => ({ c with writer := y }, .blocked)
    | (y, some r) => ({ c with writer := y }, .done r)

def shown (c : Connection) : String :=
  "ClientConnection \x7b connection_id: " ++ c.id.shown ++ ", client_id: " ++
    Text.quoted c.client ++ ", last_event_id: " ++
    (match c.lastEventId with
      | some id => "Some(" ++ Text.quoted id ++ ")"
      | none => "None") ++
    ", live: " ++ (if c.live then "true" else "false") ++ " \x7d"

end Connection

end EventHub
