import EventHub.Cluster.Loop
import EventHub.Cluster.Subscriber
/-!
# Machines

A cluster with the tasks that are under way in it. Any task may do the next step, so a machine has
many runs. `Machine.run` is one of them: every task goes on until it has to wait, and the clock
moves only when all of them wait, straight to the next moment at which one can go on.
-/

namespace EventHub

open Cluster

/-- An activity of the cluster and where it stands. Servers and connections are given by their
places in the cluster. -/
inductive Activity where
  | send (s : Send)
  | write (handle : Nat) (frame : String) (w : Option Writing)
  | add (server handle : Nat) (w : StoreWait)
  | removal (server : Nat) (r : Removal)
  | removals (server : Nat) (r : Removals)
  | count (server : Nat) (w : StoreWait)
  | refresh (server : Nat) (r : Refresh)
  | publication (server : Nat) (p : Publication)
  | handling (server : Nat) (h : Handling)
  | sweep (server : Nat) (w : Sweep)
  | heartbeat (server : Nat) (l : Loop Sweep)
  | refreshing (server : Nat) (l : Loop Refresh)
  | subscriber (server : Nat) (s : Subscriber)
  | sleep (time : Nat)
deriving Repr

inductive Outcome where
  | result (r : Except Error Unit)
  | number (n : Nat)
deriving Repr

namespace Activity

def stepWrite (c : Cluster) (handle : Nat) (frame : String) (w : Option Writing) :
    Cluster × Progress (Option Writing) (Except Error Unit) :=
  match c.connection? handle with
  | none => (c, .done (.ok ()))
  | some x =>
    let (x, p) := x.stepWrite c.now frame w
    (c.setConnection handle x, p)

def step (c : Cluster) (cancelled stopFirst : Bool) : Activity →
    Cluster × Progress Activity Outcome
  | .send s =>
    let (c, p) := c.stepSend cancelled s
    (c, (p.mapState .send).map .result)
  | .write h frame w =>
    let (c, p) := stepWrite c h frame w
    (c, (p.mapState (.write h frame)).map .result)
  | .add s h w =>
    let (c, p) := c.stepAdd cancelled s h w
    (c, (p.mapState (.add s h)).map .result)
  | .removal s r =>
    let (c, p) := c.stepRemoval s r
    (c, (p.mapState (.removal s)).map .result)
  | .removals s r =>
    let (c, p) := c.stepRemovals s r
    (c, (p.mapState (.removals s)).map fun _ => .result (.ok ()))
  | .count s w =>
    let (c, p) := c.stepCount s w
    (c, (p.mapState (.count s)).map .number)
  | .refresh s r =>
    let (c, p) := c.stepRefresh s r
    (c, (p.mapState (.refresh s)).map .result)
  | .publication s q =>
    let (c, p) := c.stepPublication cancelled s q
    (c, (p.mapState (.publication s)).map .result)
  | .handling s h =>
    let (c, p) := c.stepHandling cancelled s h
    (c, (p.mapState (.handling s)).map .result)
  | .sweep s w =>
    let (c, p) := c.stepSweep cancelled s w
    (c, (p.mapState (.sweep s)).map .number)
  | .heartbeat s l =>
    let (c, p) := c.stepHeartbeat cancelled stopFirst s l
    (c, (p.mapState (.heartbeat s)).map fun _ => .result (.ok ()))
  | .refreshing s l =>
    let (c, p) := c.stepRefreshing cancelled stopFirst s l
    (c, (p.mapState (.refreshing s)).map fun _ => .result (.ok ()))
  | .subscriber s x =>
    let (c, p) := c.stepSubscriber cancelled stopFirst s x
    (c, (p.mapState (.subscriber s)).map fun _ => .result (.ok ()))
  | .sleep time => (c, if time ≤ c.now then .done (.result (.ok ())) else .blocked)

/-! ## Timers -/

def waitTimers : StoreWait → List Nat
  | .fresh => []
  | .until time => [time]

def sendTimers (s : Send) : List Nat :=
  match s.state with
  | .writing (.until time) => [time]
  | _ => []

def removalTimers : Removal → List Nat
  | .fresh _ => []
  | .unregistering _ w => waitTimers w

def removalsTimers (r : Removals) : List Nat := r.current.toList.flatMap removalTimers

def deliveryTimers : Delivery → List Nat
  | .fresh .. => []
  | .sending slots => slots.flatMap fun
    | .sending s => sendTimers s
    | .ended .. => []
  | .pruning r => removalsTimers r

def localTimers : LocalPublish → List Nat
  | .fresh .. => []
  | .delivering d => deliveryTimers d

def handlingTimers : Handling → List Nat
  | .fresh _ => []
  | .publishing p => localTimers p

def sweepTimers : Sweep → List Nat
  | .fresh => []
  | .beating beats => beats.flatMap fun
    | .sending _ s => sendTimers s
    | _ => []
  | .evicting _ r => removalsTimers r

def loopTimers {σ : Type} (work : σ → List Nat) : Loop σ → List Nat
  | .starting _ => []
  | .waiting t => [t.next]
  | .working _ state => work state

/-- The moments at which the activity can go on, as far as these do not depend on others. -/
def timers : Activity → List Nat
  | .send s => sendTimers s
  | .write _ _ (some (.until time)) => [time]
  | .write .. => []
  | .add _ _ w | .count _ w => waitTimers w
  | .removal _ r => removalTimers r
  | .removals _ r => removalsTimers r
  | .refresh _ r => waitTimers r.wait
  | .publication _ (.publishing _ _ p) => localTimers p
  | .publication _ (.relaying ..) => []
  | .handling _ h => handlingTimers h
  | .sweep _ w => sweepTimers w
  | .heartbeat _ l => loopTimers sweepTimers l
  | .refreshing _ l => loopTimers (fun r => waitTimers r.wait) l
  | .subscriber _ (.resting time _) => [time]
  | .subscriber _ (.handling _ h) => handlingTimers h
  | .subscriber .. => []
  | .sleep time => [time]

end Activity

/-- An activity with the moment at which its token is cancelled, if ever, and its result. -/
structure Task where
  activity : Activity
  cancelAt : Option Nat := none
  outcome : Option Outcome := none
deriving Repr

namespace Task

def isCancelled (t : Task) (now : Nat) : Bool := t.cancelAt.any fun time => time ≤ now

def isDone (t : Task) : Bool := t.outcome.isSome

def step (c : Cluster) (stopFirst : Bool) (t : Task) : Cluster × Task × Bool :=
  if t.isDone then (c, t, false)
  else match t.activity.step c (t.isCancelled c.now) stopFirst with
    | (c, .blocked) => (c, t, false)
    | (c, .moved a) => (c, { t with activity := a }, true)
    | (c, .done o) => (c, { t with outcome := some o }, true)

def timers (t : Task) : List Nat :=
  if t.isDone then [] else t.cancelAt.toList ++ t.activity.timers

end Task

structure Machine where
  cluster : Cluster
  tasks : List Task := []
deriving Repr

namespace Machine

def stepTask (m : Machine) (stopFirst : Bool) (i : Nat) : Machine :=
  match m.tasks[i]? with
  | none => m
  | some t =>
    let (c, t, _) := t.step m.cluster stopFirst
    ⟨c, m.tasks.set i t⟩

inductive Step : Machine → Machine → Prop where
  | task (m : Machine) (stopFirst : Bool) (i : Nat) : Step m (m.stepTask stopFirst i)

/-! ## One run -/

/-- Steps of one task until it has to wait; `limit` bounds their number. -/
def drain (limit : Nat) (c : Cluster) (t : Task) : Cluster × Task × Bool :=
  match limit with
  | 0 => (c, t, false)
  | limit + 1 =>
    match t.step c true with
    | (c, t, false) => (c, t, false)
    | (c, t, true) =>
      let (c, t, _) := drain limit c t
      (c, t, true)

/-- Each task in order goes on until it has to wait; also whether any got on. -/
def drainAll (limit : Nat) (c : Cluster) : List Task → Cluster × List Task × Bool
  | [] => (c, [], false)
  | t :: rest =>
    let (c, t, moved) := drain limit c t
    let (c, rest, more) := drainAll limit c rest
    (c, t :: rest, moved || more)

def settle (limit : Nat) (m : Machine) : Machine :=
  go limit m
where
  /-- Repeats rounds over the tasks. -/
  go (rounds : Nat) (m : Machine) : Machine :=
    match rounds with
    | 0 => m
    | rounds + 1 =>
      match drainAll limit m.cluster m.tasks with
      | (c, tasks, false) => ⟨c, tasks⟩
      | (c, tasks, true) => go rounds ⟨c, tasks⟩

/-- The moments at which something can go on: those of the tasks and those at which a write in
line gives up. -/
def timers (m : Machine) : List Nat :=
  m.tasks.flatMap Task.timers ++ m.cluster.connections.filterMap fun x =>
    match x.writer with
    | .outbox o => o.deadline?
    | .recorder _ => none

def nextMoment (m : Machine) : Option Nat :=
  (m.timers.filter fun time => m.cluster.now < time).min?

def moveTo (m : Machine) (time : Nat) : Machine :=
  { m with cluster := { m.cluster with now := time } }

/-- Goes on until the given tasks are done, moving the clock whenever all tasks wait. -/
def runUntil (limit : Nat) (isDone : Machine → Bool) (m : Machine) : Machine :=
  go limit (m.settle limit)
where
  /-- Repeats moves of the clock. -/
  go (moves : Nat) (m : Machine) : Machine :=
    match moves with
    | 0 => m
    | moves + 1 =>
      if isDone m then m
      else match m.nextMoment with
        | none => m
        | some time => go moves ((m.moveTo time).settle limit)

/-- Adds tasks in front of those under way and goes on until they are done; returns them. -/
def run (limit : Nat) (tasks : List Task) (m : Machine) : Machine × List Task :=
  let n := tasks.length
  let m := runUntil limit (fun m => (m.tasks.take n).all Task.isDone)
    { m with tasks := tasks ++ m.tasks }
  ({ m with tasks := m.tasks.drop n }, m.tasks.take n)

end Machine

end EventHub
