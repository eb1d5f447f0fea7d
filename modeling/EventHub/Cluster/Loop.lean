import EventHub.Cluster.Sweep
/-!
# Periodic loops

A loop does its work each time its ticker ticks, until it is stopped. The first tick comes at once
and is passed over. Work that is under way is never broken off.
-/

namespace EventHub.Cluster

structure Ticker where
  period : Nat
  next : Nat
deriving DecidableEq, Repr

/-- How much later than planned a tick may come before the next one is planned anew. -/
def Ticker.tolerance : Nat := 5

/-- The ticker after a tick at the given time. One that is late ticks a full period later. -/
def Ticker.tick (t : Ticker) (now : Nat) : Ticker :=
  { t with next := if t.next + Ticker.tolerance < now then now + t.period else t.next + t.period }

inductive Loop (σ : Type) where
  | starting (period : Nat)
  | waiting (t : Ticker)
  | working (t : Ticker) (state : σ)
deriving Repr

/-- One step of a loop: `start` gives the work of a tick and `work` does one step of it. When the
loop is to stop while its ticker ticks, `stopFirst` says which of the two is heeded. -/
def stepLoop {σ α : Type} (start : Cluster → σ)
    (work : Cluster → σ → Cluster × Progress σ α)
    (c : Cluster) (stopping stopFirst : Bool) : Loop σ → Cluster × Progress (Loop σ) Unit
  | .starting period => (c, .moved (.waiting ⟨period, c.now + period⟩))
  | .waiting t =>
    let ticks := t.next ≤ c.now
    if stopping && (stopFirst || !ticks) then (c, .done ())
    else if ticks then (c, .moved (.working (t.tick c.now) (start c)))
    else (c, .blocked)
  | .working t state =>
    match work c state with
    | (c, .blocked) => (c, .blocked)
    | (c, .moved state) => (c, .moved (.working t state))
    | (c, .done _) => (c, .moved (.waiting t))

def stepHeartbeat (c : Cluster) (stopping stopFirst : Bool) (s : Nat) :
    Loop Sweep → Cluster × Progress (Loop Sweep) Unit :=
  stepLoop (fun _ => .fresh) (fun c w => c.stepSweep stopping s w) c stopping stopFirst

def stepRefreshing (c : Cluster) (stopping stopFirst : Bool) (s : Nat) :
    Loop Refresh → Cluster × Progress (Loop Refresh) Unit :=
  stepLoop (fun c => c.refreshOf s) (fun c w => c.stepRefresh s w) c stopping stopFirst

end EventHub.Cluster
