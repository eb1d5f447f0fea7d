import EventHub.Proofs.Cluster.Listening
/-!
# Runs of a subscriber

A server that listens to a scripted relay while anything else may happen to the cluster: `Listener`
is the cluster with the subscriber and the calls that it has made, and `Step` all that can happen.
`Outline` is what a run looks like from the relay and from the publisher; invariants are proved of
outlines, whose steps are the rules of `Turned`.
-/

namespace EventHub.Cluster

/-- A call on the publisher of the own connections: the client that the event is for, if it is not
for every connection, and the event. -/
abbrev PublisherCall := Option ClientId × Event

structure Listener where
  cluster : Cluster
  /-- The service is to stop. -/
  stopping : Bool := false
  /-- Where the subscriber stands, until it has stopped. -/
  loop : Option Subscriber := some .first
  /-- The calls on the publisher, in the order in which they were made. -/
  calls : List PublisherCall := []

def Subscriber.call? : Subscriber → Progress Subscriber Unit → Option PublisherCall
  | .handling _ (.fresh _), .moved (.handling _ (.publishing (.fresh target event))) =>
    some (target, event)
  | _, _ => none

def Subscriber.after (x : Subscriber) : Progress Subscriber Unit → Option Subscriber
  | .blocked => some x
  | .moved y => some y
  | .done () => none

namespace Listener

def turn (l : Listener) (publish : Publish) (stopFirst : Bool) (s : Nat) (x : Subscriber) :
    Listener :=
  let (c, p) := l.cluster.listenWith publish l.stopping stopFirst s x
  { l with cluster := c, loop := x.after p, calls := l.calls ++ (x.call? p).toList }

inductive Step (s : Nat) : Listener → Listener → Prop where
  | turn (l : Listener) {x : Subscriber} (hx : l.loop = some x) (publish : Publish)
      (hfair : publish.Fair s l.stopping) (stopFirst : Bool) :
      Step s l (l.turn publish stopFirst s x)
  | stop (l : Listener) : Step s l { l with stopping := true }
  | outside (l : Listener) (c : Cluster) (hundisturbed : Undisturbed s l.cluster c) :
      Step s l { l with cluster := c }

def Run (s : Nat) : Listener → Listener → Prop := Relation.ReflTransGen (Step s)

/-- The subscriber of the server `s` begins to listen to a relay that is to follow the script. -/
structure Starts (s : Nat) (id : ServerId) (script : List ScriptEntry) (l : Listener) : Prop where
  scripted : ∃ relay, l.cluster.Scripted s id relay ∧
    relay.entries = script ∧ relay.attempts = []
  loop : l.loop = some .first
  calls : l.calls = []

end Listener

/-- A listener as the relay and the publisher see it. -/
structure Outline where
  stopping : Bool
  now : Nat
  script : Script
  loop : Option Subscriber
  calls : List PublisherCall

namespace Outline

/-- A step of the subscriber, the end of the service, or the passing of time. -/
inductive Step (id : ServerId) : Outline → Outline → Prop where
  | turn (o : Outline) {x : Subscriber} (hx : o.loop = some x) {script : Script}
      {p : Progress Subscriber Unit} (hturned : Turned id o.stopping o.now o.script x script p)
      (now : Nat) (hnow : o.now ≤ now) :
      Step id o { o with
        now := now, script := script, loop := x.after p, calls := o.calls ++ (x.call? p).toList }
  | stop (o : Outline) : Step id o { o with stopping := true }
  | wait (o : Outline) (now : Nat) (hnow : o.now ≤ now) : Step id o { o with now := now }

def Run (id : ServerId) : Outline → Outline → Prop := Relation.ReflTransGen (Step id)

def Fed (o : Outline) : Prop :=
  ∀ x, o.loop = some x → ∀ feed, x.feed? = some feed → feed.OfScript

variable {id : ServerId} {o o' : Outline}

theorem Step.fed (hstep : Step id o o') (hfed : o.Fed) : o'.Fed := by
  cases hstep with
  | @turn x hx _ p hturned now hnow =>
    intro y hy
    cases p with
    | blocked =>
      cases hy
      exact hfed x hx
    | moved => exact Option.some.inj hy ▸ hturned.fed (hfed x hx)
    | done => cases hy
  | stop | wait => exact hfed

end Outline

namespace Listener

variable {s : Nat} {id : ServerId} {script : List ScriptEntry} {l l' : Listener}

def outline (s : Nat) (l : Listener) : Outline :=
  ⟨l.stopping, l.cluster.now, l.cluster.scriptAt s, l.loop, l.calls⟩

structure Tuned (s : Nat) (id : ServerId) (l : Listener) : Prop where
  scripted : l.cluster.Scripted s id (l.cluster.scriptAt s)
  fed : (l.outline s).Fed

theorem Tuned.turned (htuned : l.Tuned s id) {x : Subscriber} (hx : l.loop = some x)
    {publish : Publish} (hfair : publish.Fair s l.stopping) (stopFirst : Bool) :
    Turns s id (l.cluster.scriptAt s) l.cluster l.stopping x
      (l.cluster.listenWith publish l.stopping stopFirst s x) :=
  listenWith_turns htuned.scripted hfair stopFirst (htuned.fed x hx)

theorem Step.outline (hstep : Step s l l') (htuned : l.Tuned s id) :
    Outline.Step id (l.outline s) (l'.outline s) ∧ l'.Tuned s id := by
  cases hstep with
  | turn hx publish hfair stopFirst =>
    obtain ⟨script', hscripted, hnow, hturned⟩ := htuned.turned hx hfair stopFirst
    have hstep := Outline.Step.turn (l.outline s) hx hturned _ hnow
    rw [← hscripted.scriptAt_eq] at hstep hscripted
    exact ⟨hstep, hscripted, hstep.fed htuned.fed⟩
  | stop => exact ⟨.stop _, htuned.scripted, htuned.fed⟩
  | outside c hundisturbed =>
    have hscripted := htuned.scripted.of_undisturbed hundisturbed
    have hstep : Outline.Step id (l.outline s) { l.outline s with now := c.now } :=
      .wait (l.outline s) c.now hundisturbed.now
    have hsame : c.scriptAt s = l.cluster.scriptAt s := hscripted.scriptAt_eq
    have houtline : Listener.outline s { l with cluster := c } =
        { l.outline s with now := c.now } := by
      rw [Listener.outline, hsame]
      rfl
    exact ⟨houtline ▸ hstep, hsame.symm ▸ hscripted, houtline ▸ hstep.fed htuned.fed⟩

theorem Run.outline (hrun : Run s l l') (htuned : l.Tuned s id) :
    Outline.Run id (l.outline s) (l'.outline s) ∧ l'.Tuned s id := by
  induction hrun with
  | refl => exact ⟨.refl, htuned⟩
  | tail _ hstep ih =>
    obtain ⟨hstep', htuned'⟩ := hstep.outline ih.2
    exact ⟨ih.1.tail hstep', htuned'⟩

theorem Starts.tuned (hstarts : l.Starts s id script) : l.Tuned s id := by
  obtain ⟨relay, hscripted, _⟩ := hstarts.scripted
  refine ⟨hscripted.scriptAt_eq.symm ▸ hscripted, fun x hx feed hfeed => ?_⟩
  have hfirst : x = .first := Option.some.inj (hx.symm.trans hstarts.loop)
  rw [hfirst] at hfeed
  cases hfeed

end Listener

end EventHub.Cluster
