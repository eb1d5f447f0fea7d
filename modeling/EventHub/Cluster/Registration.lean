import EventHub.Cluster.Basic
/-!
# Registering connections

Adding a connection to a server and removing it. A server that shares a store registers there
first, and a failed or cancelled registration leaves the server as it was; a removal takes the
connection out of the server first, whatever the store then answers.
-/

namespace EventHub.Cluster

/-! ## Adding -/

def recordOf (server : ServerId) (x : Connection) : Store.Record :=
  ⟨server, x.client, x.id, x.lastEventId⟩

def enrol (c : Cluster) (s h : Nat) : Cluster :=
  match c.member? h with
  | none => c
  | some m => c.setRegistry s ((c.registry s).insert m)

/-- One step of adding the connection `h` to the server `s`. Cancellation comes first. -/
def stepAdd (c : Cluster) (cancelled : Bool) (s h : Nat) (w : StoreWait) :
    Cluster × Progress StoreWait (Except Error Unit) :=
  if cancelled then (c, .done (.error .cancelled))
  else match c.server? s, c.connection? h with
    | some server, some x =>
      match server.sharing with
      | none => (c.enrol s h, .done (.ok ()))
      | some sharing =>
        match c.stepCall (.register (recordOf server.id x) sharing.lifetime) w with
        | (c, .done (.ok _)) => (c.enrol s h, .done (.ok ()))
        | (c, .done (.error e)) => (c, .done (.error e))
        | (c, .moved w) => (c, .moved w)
        | (c, .blocked) => (c, .blocked)
    | _, _ => (c, .done (.ok ()))

/-! ## Removing -/

inductive Removal where
  | fresh (id : ConnectionId)
  /-- Out of the registry; the store has still to hear of it. -/
  | unregistering (id : ConnectionId) (w : StoreWait)
deriving DecidableEq, Repr

def stepRemoval (c : Cluster) (s : Nat) : Removal →
    Cluster × Progress Removal (Except Error Unit)
  | .fresh id =>
    match c.server? s with
    | none => (c, .done (.ok ()))
    | some server =>
      match server.registry.take id with
      | (_, none) => (c, .done (.ok ()))
      | (r, some _) =>
        let c := c.setRegistry s r
        if server.sharing.isSome then (c, .moved (.unregistering id .fresh))
        else (c, .done (.ok ()))
  | .unregistering id w =>
    match c.server? s with
    | none => (c, .done (.ok ()))
    | some server =>
      let (c, p) := c.stepCall (.unregister server.id id) w
      (c, (p.mapState (.unregistering id)).map fun r => r.map fun _ => ())

structure Removals where
  current : Option Removal := none
  rest : List ConnectionId
deriving DecidableEq, Repr

def stepRemovals (c : Cluster) (s : Nat) (r : Removals) : Cluster × Progress Removals Unit :=
  match r.current with
  | some removal =>
    match c.stepRemoval s removal with
    | (c, .done _) => (c, .moved ⟨none, r.rest⟩)
    | (c, .moved removal) => (c, .moved ⟨some removal, r.rest⟩)
    | (c, .blocked) => (c, .blocked)
  | none =>
    match r.rest with
    | [] => (c, .done ())
    | id :: rest => (c, .moved ⟨some (.fresh id), rest⟩)

/-! ## Other calls of a sharing server -/

/-- One step of counting: a sharing server asks the store and falls back on its own connections. -/
def stepCount (c : Cluster) (s : Nat) (w : StoreWait) : Cluster × Progress StoreWait Nat :=
  match (c.server? s).bind (·.sharing) with
  | none => (c, .done (c.registry s).size)
  | some _ =>
    let (c, p) := c.stepCall .count w
    (c, p.map fun r => r.toOption.getD (c.registry s).size)

/-- A refresh of the records of a server; the connections are those of the moment it begins. -/
structure Refresh where
  ids : List ConnectionId
  wait : StoreWait := .fresh
deriving DecidableEq, Repr

def refreshOf (c : Cluster) (s : Nat) : Refresh := ⟨(c.registry s).ids, .fresh⟩

def stepRefresh (c : Cluster) (s : Nat) (r : Refresh) :
    Cluster × Progress Refresh (Except Error Unit) :=
  match c.server? s with
  | none => (c, .done (.ok ()))
  | some server =>
    match server.sharing with
    | none => (c, .done (.ok ()))
    | some sharing =>
      let (c, p) := c.stepCall (.refresh server.id r.ids sharing.lifetime) r.wait
      (c, (p.mapState fun w => { r with wait := w }).map fun x => x.map fun _ => ())

end EventHub.Cluster
