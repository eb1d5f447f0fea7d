import EventHub.Cluster.Delivery
/-!
# Publishing

A server publishes an event to its own connections and, once that has succeeded, hands it to the
relay. What becomes of it there is not the publisher's business: a failing relay changes no result.
Messages from the relay are delivered to the server's own connections only.
-/

namespace EventHub.Cluster

inductive LocalPublish where
  | fresh (target : Option ClientId) (event : Event)
  | delivering (d : Delivery)
deriving Repr

def stepLocal (c : Cluster) (cancelled : Bool) (s : Nat) : LocalPublish →
    Cluster × Progress LocalPublish (Except Error Unit)
  | .fresh target event =>
    match (c.server? s).bind (·.journal) with
    | some j =>
      let note (j : Journal) : Journal := { j with calls := j.calls ++ [(target, event)] }
      (c.modifyServer s fun x => { x with journal := x.journal.map note },
        .done (match j.failure with
          | some e => .error e
          | none => .ok ()))
    | none => (c, .moved (.delivering (.fresh target event)))
  | .delivering d =>
    let (c, p) := c.stepDelivery cancelled s d
    (c, p.mapState .delivering)

def refusedError : Error := ⟨.relay .publish, some (.external "connection refused")⟩

def relay (c : Cluster) (s : Nat) (channel message : String) : Cluster × Except Error Unit :=
  match (c.server? s).map Server.link with
  | none | some .none => (c, .ok ())
  | some .ring => ({ c with ring := c.ring.send channel message }, .ok ())
  | some (.script script) =>
    let noted := { script with published := script.published ++ [(channel, message)] }
    (c.modifyServer s fun x => { x with link := .script noted },
      if script.down then .error refusedError else .ok ())

inductive Publication where
  | publishing (target : Option ClientId) (event : Event) (p : LocalPublish)
  /-- Delivered to the own connections; the relay comes next. -/
  | relaying (target : Option ClientId) (event : Event)
deriving Repr

def Publication.ofEvent (target : Option ClientId) (event : Event) : Publication :=
  .publishing target event (.fresh target event)

def Server.relays (x : Server) : Bool := x.link ≠ .none

def stepPublication (c : Cluster) (cancelled : Bool) (s : Nat) : Publication →
    Cluster × Progress Publication (Except Error Unit)
  | .publishing target event p =>
    match c.stepLocal cancelled s p with
    | (c, .blocked) => (c, .blocked)
    | (c, .moved p) => (c, .moved (.publishing target event p))
    | (c, .done (.error e)) => (c, .done (.error e))
    | (c, .done (.ok ())) =>
      if (c.server? s).any (·.relays) then (c, .moved (.relaying target event))
      else (c, .done (.ok ()))
  | .relaying target event =>
    if cancelled then (c, .done (.error .cancelled))
    else match c.server? s with
      | none => (c, .done (.ok ()))
      | some server =>
        let message := Relay.Message.ofEvent server.id target event c.stamp
        ((c.relay s server.channels.broadcast message.encode).1, .done (.ok ()))

/-! ## Messages from the relay -/

/-- What a server does about a relayed text: nothing for a message of its own, otherwise it
delivers the event to its own connections. -/
def received (server : ServerId) (raw : String) : Except Error (Option LocalPublish) :=
  match Relay.Message.decode raw with
  | .error e => .error e
  | .ok m =>
    if m.source = server then .ok none
    else match m.event with
      | .error e => .error e
      | .ok event => .ok (some (.fresh m.target event))

inductive Handling where
  | fresh (raw : String)
  | publishing (p : LocalPublish)
deriving Repr

def stepHandling (c : Cluster) (cancelled : Bool) (s : Nat) : Handling →
    Cluster × Progress Handling (Except Error Unit)
  | .fresh raw =>
    match c.server? s with
    | none => (c, .done (.ok ()))
    | some server =>
      match received server.id raw with
      | .error e => (c, .done (.error e))
      | .ok none => (c, .done (.ok ()))
      | .ok (some p) => (c, .moved (.publishing p))
  | .publishing p =>
    let (c, q) := c.stepLocal cancelled s p
    (c, q.mapState .publishing)

end EventHub.Cluster
