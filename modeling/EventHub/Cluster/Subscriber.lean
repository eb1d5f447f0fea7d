import EventHub.Cluster.Publishing
/-!
# Subscribers

The loop in which a server listens to the relay. A refused subscription is tried again after a
pause that doubles each time, up to a limit; a subscription that ends is asked for again at once.
Nothing that is received, and no error of a delivery but its cancellation, ends the loop.
-/

namespace EventHub.Cluster

def firstPause : Nat := 500

def longestPause : Nat := 30000

def nextPause (pause : Nat) : Nat := min (pause * 2) longestPause

inductive Feed where
  | ring (reader : Relay.Ring.Reader)
  | script (items : List ScriptItem)
  /-- Yields nothing and does not end. -/
  | silent
deriving DecidableEq, Repr

inductive Heard where
  | nothing
  | text (raw : String)
  | failure (e : Error)
  | ended
deriving DecidableEq, Repr

def lagError (lost : Nat) : Error := ⟨.relay .subscribe, some (.lagged lost)⟩

def Feed.next (ring : Relay.Ring) : Feed → Feed × Heard
  | .ring reader =>
    match ring.next reader with
    | (none, reader) => (.ring reader, .nothing)
    | (some (.message text), reader) => (.ring reader, .text text)
    | (some (.lost n), reader) => (.ring reader, .failure (lagError n))
  | .script [] => (.script [], .ended)
  | .script (.message text :: rest) => (.script rest, .text text)
  | .script (.failure e :: rest) => (.script rest, .failure e)
  | .silent => (.silent, .nothing)

/-- Subscribes a server to its channels; `none` if the relay refuses. -/
def subscribe (c : Cluster) (s : Nat) : Cluster × Option Feed :=
  match c.server? s with
  | none => (c, some .silent)
  | some server =>
    let channels := server.channels.heardBy server.id
    match server.link with
    | .none => (c, some .silent)
    | .ring => (c, some (.ring (c.ring.subscribe channels)))
    | .script script =>
      let noted := { script with
        attempts := script.attempts ++ [(c.now, channels)], entries := script.entries.tail }
      (c.modifyServer s fun x => { x with link := .script noted },
        match script.entries.head? with
        | none => some .silent
        | some .refuse => none
        | some (.accept items) => some (.script items))

/-- Where a subscriber stands. `pause` is the pause if the next subscription is refused. -/
inductive Subscriber where
  | subscribing (pause : Nat)
  | resting (time pause : Nat)
  | listening (feed : Feed)
  | handling (feed : Feed) (h : Handling)
deriving Repr

def Subscriber.first : Subscriber := .subscribing firstPause

/-- One step of the subscriber of the server `s`. When it is to stop while something else could be
done, `stopFirst` says which of the two is heeded. -/
def stepSubscriber (c : Cluster) (stopping stopFirst : Bool) (s : Nat) : Subscriber →
    Cluster × Progress Subscriber Unit
  | .subscribing pause =>
    if stopping && stopFirst then (c, .done ())
    else match c.subscribe s with
      | (c, some feed) => (c, .moved (.listening feed))
      | (c, none) => (c, .moved (.resting (c.now + pause) (nextPause pause)))
  | .resting time pause =>
    let rested := time ≤ c.now
    if stopping && (stopFirst || !rested) then (c, .done ())
    else if rested then (c, .moved (.subscribing pause))
    else (c, .blocked)
  | .listening feed =>
    if stopping && stopFirst then (c, .done ())
    else match feed.next c.ring with
      | (after, .nothing) =>
        if stopping then (c, .done ())
        else if after = feed then (c, .blocked)
        else (c, .moved (.listening after))
      | (after, .text raw) => (c, .moved (.handling after (.fresh raw)))
      | (after, .failure _) => (c, .moved (.listening after))
      | (_, .ended) => (c, .moved (.subscribing firstPause))
  | .handling feed h =>
    match c.stepHandling stopping s h with
    | (c, .blocked) => (c, .blocked)
    | (c, .moved h) => (c, .moved (.handling feed h))
    | (c, .done (.ok ())) => (c, .moved (.listening feed))
    | (c, .done (.error e)) =>
      if e.isCancelled then (c, .done ()) else (c, .moved (.listening feed))

end EventHub.Cluster
