import EventHub.Connection.Outbox
import EventHub.Connection.Recorder
/-!
# Writers

What a connection writes its frames to: the outbox of a stream or a recorder. A write takes time;
`Writing` says where it stands.
-/

namespace EventHub

inductive Writer where
  | outbox (o : Outbox)
  | recorder (r : Recorder)
deriving DecidableEq, Repr

inductive Writing where
  /-- In the line of an outbox, with a turn. -/
  | turn (id : Nat)
  /-- Under way in a recorder until the given time. -/
  | until (time : Nat)
deriving DecidableEq, Repr

namespace Writer

/-- Begins a write; the result is there at once or the write stands somewhere. -/
def start (w : Writer) (now : Nat) (frame : String) : Writer × (Writing ⊕ Except Error Unit) :=
  match w with
  | .outbox o =>
    match o.start now frame with
    | (o', some r) => (.outbox o', .inr r)
    | (o', none) => (.outbox o', .inl (.turn o.nextTurn))
  | .recorder r =>
    if r.delay = 0 then
      let (r, result) := r.finish frame
      (.recorder r, .inr result)
    else (.recorder r, .inl (.until (now + r.delay)))

def resume (w : Writer) (now : Nat) (frame : String) (s : Writing) :
    Writer × Option (Except Error Unit) :=
  match w, s with
  | .outbox o, .turn id =>
    let (o, r) := o.resume now id
    (.outbox o, r)
  | .recorder r, .until time =>
    if time ≤ now then
      let (r, result) := r.finish frame
      (.recorder r, some result)
    else (.recorder r, none)
  | w, _ => (w, none)

def abandon (w : Writer) (s : Writing) : Writer :=
  match w, s with
  | .outbox o, .turn id => .outbox (o.abandon id)
  | w, _ => w

def dispose : Writer → Writer
  | .outbox o => .outbox o.dispose
  | .recorder r => .recorder r.dispose

end Writer

end EventHub
