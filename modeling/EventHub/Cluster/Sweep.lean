import EventHub.Cluster.Delivery
/-!
# Sweeps

A heartbeat is sent to every connection of a server. Those that were dead already and those whose
heartbeat failed are then removed; a cancelled heartbeat says nothing about its connection.
-/

namespace EventHub.Cluster

inductive Beat where
  | fresh (m : Member)
  | sending (m : Member) (s : Send)
  /-- Over; `dead` says whether the connection is to be removed. -/
  | ended (m : Member) (dead : Bool)
deriving DecidableEq, Repr

def Beat.isEnded : Beat → Bool
  | .ended .. => true
  | _ => false

/-- Whether a connection is removed after the result of its heartbeat. -/
def isFailure : Except Error Unit → Bool
  | .ok () => false
  | .error e => !e.isCancelled

def stepBeat (c : Cluster) (cancelled : Bool) : Beat → Cluster × Beat × Bool
  | .fresh m =>
    if c.isLive m.handle then (c, .sending m ⟨m.handle, Event.heartbeat, .fresh⟩, true)
    else (c, .ended m true, true)
  | .sending m s =>
    match c.stepSend cancelled s with
    | (c, .blocked) => (c, .sending m s, false)
    | (c, .moved s) => (c, .sending m s, true)
    | (c, .done r) => (c, .ended m (isFailure r), true)
  | .ended m dead => (c, .ended m dead, false)

/-- One step of each heartbeat in order; also whether any got on. -/
def stepBeats (c : Cluster) (cancelled : Bool) : List Beat → Cluster × List Beat × Bool
  | [] => (c, [], false)
  | b :: rest =>
    let (c, b, moved) := c.stepBeat cancelled b
    let (c, rest, more) := stepBeats c cancelled rest
    (c, b :: rest, moved || more)

def deadOf (beats : List Beat) : List ConnectionId :=
  beats.filterMap fun
    | .ended m true => some m.id
    | _ => none

inductive Sweep where
  | fresh
  | beating (beats : List Beat)
  | evicting (count : Nat) (r : Removals)
deriving Repr

/-- One step of a sweep of the server `s`; the result is the number of connections removed. -/
def stepSweep (c : Cluster) (cancelled : Bool) (s : Nat) : Sweep → Cluster × Progress Sweep Nat
  | .fresh =>
    match (c.registry s).members with
    | [] => (c, .done 0)
    | members => (c, .moved (.beating (members.map .fresh)))
  | .beating beats =>
    let (c, beats, moved) := c.stepBeats cancelled beats
    if beats.all Beat.isEnded then
      let dead := deadOf beats
      (c, .moved (.evicting dead.length ⟨none, dead⟩))
    else if moved then (c, .moved (.beating beats))
    else (c, .blocked)
  | .evicting count r =>
    let (c, p) := c.stepRemovals s r
    (c, (p.mapState (.evicting count)).map fun _ => count)

end EventHub.Cluster
