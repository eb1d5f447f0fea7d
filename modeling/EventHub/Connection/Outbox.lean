import EventHub.Error
/-!
# Outboxes

The frames that wait for a stream to take them. Writers form a line: the first one holds the
outbox until its frame is in the queue or it gives up, so frames never mix and leave in the order
of the line. Only the first writer's patience runs. Disposing an outbox turns later writers away
and, unless a writer holds it, closes it at once.
-/

namespace EventHub

structure Outbox.Turn where
  id : Nat
  frame : String
  /-- When the write gives up waiting for room, in milliseconds of the clock; `none` until its turn
  has come. -/
  deadline : Option Nat := none
deriving DecidableEq, Repr

structure Outbox where
  /-- The number of frames that may wait in the queue. -/
  capacity : Nat
  /-- How long a write may wait for room, in milliseconds. -/
  patience : Nat
  queue : List String := []
  line : List Outbox.Turn := []
  nextTurn : Nat := 0
  /-- The stream that takes the frames is gone. -/
  receiverGone : Bool := false
  /-- The outbox takes no more frames: once the queue is empty its stream ends. -/
  senderGone : Bool := false
  /-- Disposed; the stream that takes the frames is told to end. -/
  disposed : Bool := false
deriving DecidableEq, Repr

namespace Outbox

/-- An empty outbox with room for one frame at least. -/
def ofSettings (buffer patience : Nat) : Outbox :=
  { capacity := max buffer 1, patience := patience }

def disposedError : Error := .write .disposed .writerDisposed

def closedError : Error := .write .closed .receiverDropped

def timeoutError : Error := .write .timeout .writeTimedOut

/-- The first in line, `t`, tries to put its frame into the queue; `rest` stands behind it. -/
def attempt (o : Outbox) (now : Nat) (t : Turn) (deadline : Nat) (rest : List Turn) :
    Outbox × Option (Except Error Unit) :=
  if o.receiverGone then ({ o with line := rest }, some (.error closedError))
  else if o.queue.length < o.capacity then
    ({ o with line := rest, queue := o.queue ++ [t.frame] }, some (.ok ()))
  else if deadline ≤ now then ({ o with line := rest }, some (.error timeoutError))
  else ({ o with line := { t with deadline := some deadline } :: rest }, none)

/-- Carries on the write with a turn; only the first in line gets on. -/
def resume (o : Outbox) (now id : Nat) : Outbox × Option (Except Error Unit) :=
  match o.line with
  | [] => (o, none)
  | t :: rest =>
    if t.id ≠ id then (o, none)
    else match t.deadline with
      | some deadline => o.attempt now t deadline rest
      | none =>
        if o.senderGone then ({ o with line := rest }, some (.error disposedError))
        else o.attempt now t (now + o.patience) rest

def enter (o : Outbox) (frame : String) : Outbox :=
  { o with line := o.line ++ [⟨o.nextTurn, frame, none⟩], nextTurn := o.nextTurn + 1 }

/-- Begins a write. A disposed outbox refuses it; otherwise it joins the line and, if it is first,
gets on at once. The turn is the one that `nextTurn` named before. -/
def start (o : Outbox) (now : Nat) (frame : String) : Outbox × Option (Except Error Unit) :=
  if o.disposed then (o, some (.error disposedError))
  else (o.enter frame).resume now o.nextTurn

/-- The write with the turn leaves the line and puts nothing into the queue. -/
def abandon (o : Outbox) (id : Nat) : Outbox :=
  { o with line := o.line.filter fun t => t.id ≠ id }

def dispose (o : Outbox) : Outbox :=
  { o with disposed := true, senderGone := o.senderGone || o.line.isEmpty }

inductive Received where
  | frame (text : String)
  /-- No frame is there yet. -/
  | pending
  /-- No frame will ever come. -/
  | ended
deriving DecidableEq, Repr

def receive (o : Outbox) : Outbox × Received :=
  match o.queue with
  | f :: rest => ({ o with queue := rest }, .frame f)
  | [] => (o, if o.senderGone then .ended else .pending)

/-- The stream goes away, and with it the frames that wait. -/
def dropReceiver (o : Outbox) : Outbox := { o with receiverGone := true, queue := [] }

def deadline? (o : Outbox) : Option Nat := o.line.head?.bind (·.deadline)

end Outbox

end EventHub
