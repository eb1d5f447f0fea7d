import EventHub.Cluster.Machine
import EventHub.Proofs.Cluster.Servers
import EventHub.Proofs.Relay.Message
/-!
# Networks of servers

Any number of servers on one relay, each with its subscriber, that publish events while connections
are opened, registered, removed and used by their streams. `Network` is a machine with a record of
what has happened in it: which publications have put their messages on the relay, and which frames
each connection has accepted, with what they came from. The record is kept beside the machine, whose
steps do not depend on it.
-/

namespace EventHub

namespace Cluster

/-- Where a frame comes from. -/
inductive Source where
  /-- The publication at this place among the tasks. -/
  | task (i : Nat)
  /-- The message before which so many others were put on the relay. -/
  | message (position : Nat)
deriving DecidableEq, Repr

def Source.position? : Source → Option Nat
  | .task _ => none
  | .message position => some position

/-- A frame that a connection has accepted. -/
structure Mark where
  source : Source
  frame : String
deriving DecidableEq, Repr

/-- What a server has been asked to publish. -/
structure Call where
  server : Nat
  target : Option ClientId
  event : Event

def Publication.target : Publication → Option ClientId
  | .publishing target _ _ | .relaying target _ => target

def Publication.event : Publication → Event
  | .publishing _ event _ | .relaying _ event => event

def callIn : Activity → Option Call
  | .publication s p => some ⟨s, p.target, p.event⟩
  | _ => none

structure Network where
  machine : Machine
  /-- The publications that have put their messages on the relay, in order. -/
  relayed : List Nat := []
  /-- What each connection has accepted, in order. -/
  accepted : Nat → List Mark := fun _ => []

namespace Network

abbrev cluster (n : Network) : Cluster := n.machine.cluster

abbrev tasks (n : Network) : List Task := n.machine.tasks

/-- What a step of a task works for: a subscriber works for the message before its position. -/
def source (n : Network) (i : Nat) : Source :=
  match n.tasks[i]?.map Task.activity with
  | some (.subscriber _ (.handling (.ring reader) _)) => .message (reader.position - 1)
  | _ => .task i

def stepTask (n : Network) (stopFirst : Bool) (i : Nat) : Network :=
  let m := n.machine.stepTask stopFirst i
  { machine := m
    relayed := if n.cluster.ring.sent < m.cluster.ring.sent then n.relayed ++ [i] else n.relayed
    accepted := fun h => n.accepted h ++
      (n.cluster.news m.cluster h).map fun frame => ⟨n.source i, frame⟩ }

def withCluster (n : Network) (c : Cluster) : Network :=
  { n with machine := { n.machine with cluster := c } }

def spawn (n : Network) (activity : Activity) (cancelAt : Option Nat) : Network :=
  { n with machine := { n.machine with tasks := n.tasks ++ [⟨activity, cancelAt, none⟩] } }

def StampOk (t : Time.Timestamp) : Prop :=
  Time.Date.minYear ≤ t.date.year ∧ t.date.year ≤ Time.Date.maxYear

/-- All that can happen. Publications are not cancelled; registrations may be. -/
inductive Step (u : Setup) : Network → Network → Prop where
  | task (n : Network) (stopFirst : Bool) (i : Nat) : Step u n (n.stepTask stopFirst i)
  | publish (n : Network) (s : Nat) (target : Option ClientId) (event : Event)
      (hserver : s < u.ids.length) (hvalid : event.payload.Valid)
      (hdepth : event.payload.depth < Json.maxDepth) :
      Step u n (n.spawn (.publication s (.ofEvent target event)) none)
  | register (n : Network) (h : Nat) (cancelAt : Option Nat) :
      Step u n (n.spawn (.add (u.home h) h .fresh) cancelAt)
  | remove (n : Network) (s : Nat) (id : ConnectionId) (cancelAt : Option Nat) :
      Step u n (n.spawn (.removal s (.fresh id)) cancelAt)
  | connect (n : Network) (x : Connection) (hwriter : x.writer.Sound) :
      Step u n (n.withCluster { n.cluster with connections := n.cluster.connections ++ [x] })
  | outside (n : Network) (h : Nat) (x x' : Connection) (hx : n.cluster.connection? h = some x)
      (hx' : x.Outside x') : Step u n (n.withCluster (n.cluster.setConnection h x'))
  | wait (n : Network) (now : Nat) (stamp : Time.Timestamp) (hnow : n.cluster.now ≤ now)
      (hstamp : StampOk stamp) :
      Step u n (n.withCluster { n.cluster with now := now, stamp := stamp })

/-- The servers before anything has happened: no connections, and subscribers that have not asked
for a subscription yet. -/
def start (u : Setup) (capacity now : Nat) (stamp : Time.Timestamp) : Network where
  machine :=
    { cluster :=
        { now := now
          stamp := stamp
          servers := u.ids.map fun id => { id := id, link := .ring, channels := u.channels }
          ring := .ofCapacity capacity }
      tasks := (List.range u.ids.length).map fun s => ⟨.subscriber s .first, none, none⟩ }

inductive Reachable (u : Setup) : Network → Prop where
  | start (capacity now : Nat) (stamp : Time.Timestamp) (hstamp : StampOk stamp) :
      Reachable u (start u capacity now stamp)
  | step {n n' : Network} : Reachable u n → Step u n n' → Reachable u n'

/-- What can happen while something stays true. -/
inductive During (u : Setup) (P : Network → Prop) (n : Network) : Network → Prop where
  | refl (hn : P n) : During u P n n
  | step {n' n'' : Network} : During u P n n' → Step u n' n'' → P n'' → During u P n n''

/-! ## What has happened -/

/-- The call that the task at a place carries out, if it is a publication. -/
def call? (n : Network) (i : Nat) : Option Call := n.tasks[i]?.bind fun t => callIn t.activity

/-- The call that a frame comes from, by its place among the tasks. -/
def callOf (n : Network) : Source → Option Nat
  | .task i => some i
  | .message position => n.relayed[position]?

/-- The frames that a connection has accepted and that come from a call, be it directly or by the
relay. -/
def receipts (n : Network) (i h : Nat) : List String :=
  ((n.accepted h).filter fun m => n.callOf m.source = some i).map (·.frame)

/-- The positions of the relayed messages whose frames a connection has accepted, in order. -/
def positions (n : Network) (h : Nat) : List Nat :=
  (n.accepted h).filterMap fun m => m.source.position?

/-- The publication has been delivered on its own server: it comes to the relay next or has
ended. -/
def Delivered (n : Network) (i : Nat) : Prop :=
  ∃ t, n.tasks[i]? = some t ∧
    (t.outcome.isSome = true ∨
      ∃ s target event, t.activity = .publication s (.relaying target event))

/-- The subscription of a server, while it has one. -/
def reader? (n : Network) (s : Nat) : Option Relay.Ring.Reader :=
  match n.tasks[s]?.map Task.activity with
  | some (.subscriber _ (.listening (.ring reader))) => some reader
  | some (.subscriber _ (.handling (.ring reader) _)) => some reader
  | _ => none

/-- The message at a position was dropped from the relay before the server has come to it. -/
def Lags (n : Network) (s position : Nat) : Prop :=
  ∃ reader, n.reader? s = some reader ∧ reader.position ≤ position ∧
    position < n.cluster.ring.oldest

instance (n : Network) (s position : Nat) : Decidable (n.Lags s position) :=
  decidable_of_iff ((n.reader? s).any fun reader =>
      decide (reader.position ≤ position ∧ position < n.cluster.ring.oldest)) <| by
    simp [Lags, Option.any_eq_true]

/-- The server has come past the message at a position, and is not at work on it. -/
def Handled (n : Network) (s position : Nat) : Prop :=
  (∃ reader, n.reader? s = some reader ∧ position < reader.position) ∧
    n.source s ≠ .message position

end Network

end Cluster

end EventHub
