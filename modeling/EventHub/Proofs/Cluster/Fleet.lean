import EventHub.Proofs.Cluster.Quiet
/-!
# Fleets of servers on one store

Any number of servers that share a store, with whatever is under way on them: registrations,
removals, publications, sweeps and loops, each of which may stand still at any point. `Fleet` is a
machine with a record of the registrations and unregistrations that have come to an end, and of
what the store answered. The record is kept beside the machine, whose steps do not depend on it.
-/

namespace EventHub

namespace Cluster

/-! ## Removals under way -/

def Delivery.removal? : Delivery → Option Removal
  | .pruning r => r.current
  | _ => none

def LocalPublish.removal? : LocalPublish → Option Removal
  | .fresh .. => none
  | .delivering d => d.removal?

def Publication.removal? : Publication → Option Removal
  | .publishing _ _ p => p.removal?
  | .relaying .. => none

def Handling.removal? : Handling → Option Removal
  | .fresh _ => none
  | .publishing p => p.removal?

def Sweep.removal? : Sweep → Option Removal
  | .evicting _ r => r.current
  | _ => none

def Loop.removal? : Loop Sweep → Option Removal
  | .working _ w => w.removal?
  | _ => none

def Subscriber.removal? : Subscriber → Option Removal
  | .handling _ h => h.removal?
  | _ => none

/-- The connection that is out of its registry and that the store has still to hear of. -/
def Removal.leaving? : Removal → Option ConnectionId
  | .fresh _ => none
  | .unregistering id _ => some id

def Removal.call? (c : Cluster) (s : Nat) : Removal → Option (Store.Call × StoreWait)
  | .fresh _ => none
  | .unregistering id w => (c.server? s).map fun server => (.unregister server.id id, w)

def settled? (c : Cluster) (call : Store.Call) (w : StoreWait) :
    Option (Store.Call × Except Error Nat) :=
  match (c.stepCall call w).2 with
  | .done r => some (call, r)
  | _ => none

def registration? (c : Cluster) (s h : Nat) : Option Store.Call :=
  match c.server? s, c.connection? h with
  | some server, some x =>
    server.sharing.map fun sharing => .register (recordOf server.id x) sharing.lifetime
  | _, _ => none

end Cluster

open Cluster

namespace Activity

def removal? : Activity → Option (Nat × Removal)
  | .removal s r => some (s, r)
  | .removals s r => r.current.map (s, ·)
  | .publication s p => p.removal?.map (s, ·)
  | .handling s h => h.removal?.map (s, ·)
  | .sweep s w => w.removal?.map (s, ·)
  | .heartbeat s l => l.removal?.map (s, ·)
  | .subscriber s x => x.removal?.map (s, ·)
  | .send _ | .write .. | .add .. | .count .. | .refresh .. | .refreshing .. | .sleep _ => none

/-- The connection that an activity has taken out of a registry and not unregistered yet. -/
def leaving? (a : Activity) : Option (Nat × ConnectionId) :=
  a.removal?.bind fun p => p.2.leaving?.map (p.1, ·)

/-- The registration or unregistration that a step of an activity brings to an end, with the
answer. A cancelled registration is not answered. -/
def settled? (c : Cluster) (cancelled : Bool) : Activity → Option (Store.Call × Except Error Nat)
  | .add s h w =>
    if cancelled then none else (c.registration? s h).bind fun call => c.settled? call w
  | a => a.removal?.bind fun p => (p.2.call? c p.1).bind fun q => c.settled? q.1 q.2

end Activity

namespace Task

def leaving? (t : Task) : Option (Nat × ConnectionId) :=
  if t.isDone then none else t.activity.leaving?

def settled? (t : Task) (c : Cluster) : Option (Store.Call × Except Error Nat) :=
  if t.isDone then none else t.activity.settled? c (t.isCancelled c.now)

end Task

structure Fleet where
  machine : Machine
  /-- The registrations and unregistrations that have ended, in order, with their answers. -/
  settled : List (Store.Call × Except Error Nat) := []

namespace Fleet

abbrev cluster (n : Fleet) : Cluster := n.machine.cluster

abbrev tasks (n : Fleet) : List Task := n.machine.tasks

/-- For each task, what it has taken out of a registry and not unregistered yet. -/
def leaving (n : Fleet) : List (Option (Nat × ConnectionId)) := n.tasks.map Task.leaving?

def stepTask (n : Fleet) (stopFirst : Bool) (i : Nat) : Fleet where
  machine := n.machine.stepTask stopFirst i
  settled := n.settled ++ (n.tasks[i]?.bind fun t => t.settled? n.cluster).toList

def withCluster (n : Fleet) (c : Cluster) : Fleet :=
  { n with machine := { n.machine with cluster := c } }

def spawn (n : Fleet) (activity : Activity) (cancelAt : Option Nat) : Fleet :=
  { n with machine := { n.machine with tasks := n.tasks ++ [⟨activity, cancelAt, none⟩] } }

/-- All that can happen: an activity begins, one goes on, or something else happens, such as that
time passes, calls on the store begin or cease to fail, and connections come up or are closed. -/
inductive Step : Fleet → Fleet → Prop where
  | task (n : Fleet) (stopFirst : Bool) (i : Nat) : Step n (n.stepTask stopFirst i)
  | spawn (n : Fleet) (activity : Activity) (cancelAt : Option Nat)
      (hfresh : activity.leaving? = none) : Step n (n.spawn activity cancelAt)
  | outside (n : Fleet) (c : Cluster) (hquiet : Quiet n.cluster c) : Step n (n.withCluster c)

/-- Servers that share the store and have no connections yet, and an empty store. -/
structure Start (c : Cluster) : Prop where
  servers : ∀ s server, c.server? s = some server →
    server.sharing.isSome = true ∧ server.registry = {}
  store : c.store = {}

inductive Reachable : Fleet → Prop where
  | start (c : Cluster) (hstart : Start c) : Reachable ⟨⟨c, []⟩, []⟩
  | step {n n' : Fleet} : Reachable n → Step n n' → Reachable n'

end Fleet

end EventHub
