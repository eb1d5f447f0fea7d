import EventHub.Connection.Basic
import EventHub.Proofs.Connection.Outbox
import Mathlib.Logic.Relation
/-!
# A connection with many writers

Any number of calls write frames to one connection, through it or straight to its writer, while
they are polled in any order, cancelled or given up, the clock moves on, the writer is disposed and
the stream takes frames or goes away. `Traffic` is such a connection with its calls, and `Step` all
that can happen to it. Each step is made of `Act`s, which say what becomes of the line and of the
queue.
-/

namespace EventHub.Connection

/-- Where a call that writes a frame stands. -/
inductive Stage where
  /-- A send through the connection. -/
  | send (s : Sending)
  /-- A write that goes to the writer itself. -/
  | write (w : Option Writing)
  | returned (r : Except Error Unit)
  /-- Given up by its caller, without a result. -/
  | dropped

structure Call where
  frame : String
  stage : Stage

namespace Call

def fresh (frame : String) (direct : Bool) : Call :=
  ⟨frame, if direct then .write none else .send .fresh⟩

def IsFresh (c : Call) : Prop := c.stage = .send .fresh ∨ c.stage = .write none

def Ended (c : Call) : Prop := c.stage = .dropped ∨ ∃ r, c.stage = .returned r

def Succeeded (c : Call) : Prop := c.stage = .returned (.ok ())

def turn? (c : Call) : Option Nat :=
  match c.stage with
  | .send (.writing (.turn id)) => some id
  | .write (some (.turn id)) => some id
  | _ => none

def withTurn (c : Call) (id : Nat) : Call :=
  match c.stage with
  | .write _ => { c with stage := .write (some (.turn id)) }
  | _ => { c with stage := .send (.writing (.turn id)) }

def acceptedFrame? (c : Call) : Option String :=
  match c.stage with
  | .returned (.ok ()) => some c.frame
  | _ => none

/-- One step of the call. The token of a send may be cancelled. -/
def poll (x : Connection) (now : Nat) (cancelled : Bool) (c : Call) : Connection × Call :=
  match c.stage with
  | .send s =>
    match x.stepSend now cancelled c.frame s with
    | (x, .blocked) => (x, c)
    | (x, .moved s) => (x, { c with stage := .send s })
    | (x, .done r) => (x, { c with stage := .returned r })
  | .write w =>
    match x.stepWrite now c.frame w with
    | (x, .blocked) => (x, c)
    | (x, .moved w) => (x, { c with stage := .write w })
    | (x, .done r) => (x, { c with stage := .returned r })
  | _ => (x, c)

def drop (x : Connection) (c : Call) : Connection × Call :=
  match c.stage with
  | .send s => (x.abandon s, { c with stage := .dropped })
  | .write (some w) => ({ x with writer := x.writer.abandon w }, { c with stage := .dropped })
  | .write none => (x, { c with stage := .dropped })
  | _ => (x, c)

end Call

def outbox (x : Connection) : Outbox :=
  match x.writer with
  | .outbox o => o
  | .recorder _ => .ofSettings 0 0

def withOutbox (x : Connection) (o : Outbox) : Connection := { x with writer := .outbox o }

structure Traffic where
  now : Nat
  connection : Connection
  /-- The calls in the order in which they were made. -/
  calls : List Call := []
  /-- The calls that have asked for the outbox, in the order in which they did. -/
  asked : List Nat := []
  /-- The frames that the stream has taken. -/
  received : List String := []

namespace Traffic

abbrev outbox (t : Traffic) : Outbox := t.connection.outbox

def setOutbox (t : Traffic) (o : Outbox) : Traffic :=
  { t with connection := t.connection.withOutbox o }

def setCall (t : Traffic) (i : Nat) (c : Call) : Traffic := { t with calls := t.calls.set i c }

/-- A poll of the call at a place. It asks for the outbox if it is given a turn. -/
def poll (t : Traffic) (i : Nat) (cancelled : Bool) (c : Call) : Traffic :=
  let (x, c) := c.poll t.connection t.now cancelled
  { t with
    connection := x
    calls := t.calls.set i c
    asked := if t.outbox.nextTurn < x.outbox.nextTurn then t.asked ++ [i] else t.asked }

def drop (t : Traffic) (i : Nat) (c : Call) : Traffic :=
  let (x, c) := c.drop t.connection
  { t with connection := x, calls := t.calls.set i c }

def receive (t : Traffic) : Traffic :=
  match t.outbox.receive with
  | (o, .frame f) => { t.setOutbox o with received := t.received ++ [f] }
  | (o, _) => t.setOutbox o

def dispose (t : Traffic) (closing : Bool) : Traffic :=
  { t with connection :=
      if closing then t.connection.close
      else { t.connection with writer := t.connection.writer.dispose } }

inductive Step : Traffic → Traffic → Prop where
  | call (t : Traffic) (frame : String) (direct : Bool) :
      Step t { t with calls := t.calls ++ [.fresh frame direct] }
  | poll (t : Traffic) (i : Nat) (c : Call) (hc : t.calls[i]? = some c) (cancelled : Bool) :
      Step t (t.poll i cancelled c)
  | drop (t : Traffic) (i : Nat) (c : Call) (hc : t.calls[i]? = some c) : Step t (t.drop i c)
  | dispose (t : Traffic) (closing : Bool) : Step t (t.dispose closing)
  | markDead (t : Traffic) : Step t { t with connection := t.connection.markDead }
  | receive (t : Traffic) : Step t t.receive
  | dropReceiver (t : Traffic) : Step t (t.setOutbox t.outbox.dropReceiver)
  | wait (t : Traffic) (time : Nat) (hlater : t.now ≤ time) : Step t { t with now := time }

def Run : Traffic → Traffic → Prop := Relation.ReflTransGen Step

/-- What a connection can come to whose stream has just been opened with an outbox of the given
buffer and patience. -/
inductive Reachable (buffer patience : Nat) : Traffic → Prop where
  | opened (now : Nat) (x : Connection)
      (hwriter : x.writer = .outbox (.ofSettings buffer patience)) :
      Reachable buffer patience { now := now, connection := x }
  | step {t t' : Traffic} : Reachable buffer patience t → Step t t' →
      Reachable buffer patience t'

/-- The frames of the calls that have returned without an error, in the order in which the calls
asked for the outbox. -/
def accepted (t : Traffic) : List String :=
  t.asked.filterMap fun i => t.calls[i]?.bind Call.acceptedFrame?

end Traffic

end EventHub.Connection
