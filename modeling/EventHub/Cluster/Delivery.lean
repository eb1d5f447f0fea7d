import EventHub.Cluster.Registration
/-!
# Delivering events

An event is formatted once and sent to all its targets at the same time. When every send has ended,
the connections whose send failed are removed. The only error of a delivery is its cancellation.
-/

namespace EventHub.Cluster

inductive Slot where
  | sending (s : Send)
  | ended (handle : Nat) (result : Except Error Unit)
deriving Repr

def Slot.isEnded : Slot → Bool
  | .ended .. => true
  | .sending _ => false

/-- One step of each send that has not ended, in order; also whether any got on. -/
def stepSlots (c : Cluster) (cancelled : Bool) : List Slot → Cluster × List Slot × Bool
  | [] => (c, [], false)
  | .ended h r :: rest =>
    let (c, rest, moved) := stepSlots c cancelled rest
    (c, .ended h r :: rest, moved)
  | .sending s :: rest =>
    match c.stepSend cancelled s with
    | (c, .blocked) =>
      let (c, rest, moved) := stepSlots c cancelled rest
      (c, .sending s :: rest, moved)
    | (c, .moved s) =>
      let (c, rest, _) := stepSlots c cancelled rest
      (c, .sending s :: rest, true)
    | (c, .done r) =>
      let (c, rest, _) := stepSlots c cancelled rest
      (c, .ended s.handle r :: rest, true)

def abandonSlots (c : Cluster) : List Slot → Cluster
  | [] => c
  | .sending s :: rest => abandonSlots (c.abandonSend s) rest
  | .ended .. :: rest => abandonSlots c rest

inductive Delivery where
  | fresh (target : Option ClientId) (event : Event)
  | sending (slots : List Slot)
  | pruning (r : Removals)
deriving Repr

def targets (c : Cluster) (s : Nat) (target : Option ClientId) : List Member :=
  match target with
  | none => (c.registry s).members
  | some client => (c.registry s).membersOf client

def failedOf (c : Cluster) : List Slot → Except Error (List ConnectionId)
  | [] => .ok []
  | .sending _ :: rest => failedOf c rest
  | .ended _ (.ok ()) :: rest => failedOf c rest
  | .ended h (.error e) :: rest =>
    if e.isCancelled then .error e
    else (failedOf c rest).map fun ids => ((c.connection? h).map (·.id)).toList ++ ids

def stepDelivery (c : Cluster) (cancelled : Bool) (s : Nat) : Delivery →
    Cluster × Progress Delivery (Except Error Unit)
  | .fresh target event =>
    if cancelled then (c, .done (.error .cancelled))
    else
      let live := (c.targets s target).filter fun m => c.isLive m.handle
      if live.isEmpty then (c, .done (.ok ()))
      else (c, .moved (.sending (live.map fun m => .sending ⟨m.handle, event.frame, .fresh⟩)))
  | .sending slots =>
    if cancelled then (c.abandonSlots slots, .done (.error .cancelled))
    else
      let (c, slots, moved) := c.stepSlots cancelled slots
      if slots.all Slot.isEnded then
        match c.failedOf slots with
        | .error e => (c, .done (.error e))
        | .ok ids => (c, .moved (.pruning ⟨none, ids⟩))
      else if moved then (c, .moved (.sending slots))
      else (c, .blocked)
  | .pruning r =>
    let (c, p) := c.stepRemovals s r
    (c, (p.mapState .pruning).map .ok)

end EventHub.Cluster
