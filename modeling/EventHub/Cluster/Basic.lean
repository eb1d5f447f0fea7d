import EventHub.Connection.Basic
import EventHub.Event.Frame
import EventHub.Registry.Basic
import EventHub.Relay.Message.Reader
import EventHub.Relay.Ring
import EventHub.Settings.Channels
import EventHub.Store.Basic
/-!
# Clusters

Servers, the connections that they hold, the store and the relay that they share, and a clock. The
activities of the servers are machines whose steps change a cluster; they are in the other modules
of this folder.
-/

namespace EventHub

namespace Cluster

inductive ScriptItem where
  | message (text : String)
  | failure (e : Error)
deriving DecidableEq, Repr

inductive ScriptEntry where
  | refuse
  /-- A subscription that yields the items and then ends. -/
  | accept (items : List ScriptItem)
deriving DecidableEq, Repr

/-- A relay that follows a script and notes what it is asked for. Without an entry left a
subscription never yields anything. -/
structure Script where
  entries : List ScriptEntry := []
  /-- Publishing fails. -/
  down : Bool := false
  /-- When each subscription was asked for, and its channels. -/
  attempts : List (Nat × List String) := []
  /-- The messages published, each with its channel. -/
  published : List (String × String) := []
deriving DecidableEq, Repr

inductive Link where
  | none
  /-- The relay in memory that the servers share. -/
  | ring
  | script (s : Script)
deriving DecidableEq, Repr

/-- The lifetime of the records of a server and how often it refreshes them, in milliseconds. -/
structure Sharing where
  lifetime : Nat
  refresh : Nat
deriving DecidableEq, Repr

/-- A publisher that notes what it is asked to publish, instead of publishing. -/
structure Journal where
  calls : List (Option ClientId × Event) := []
  failure : Option Error := .none
deriving Repr

structure Server where
  id : ServerId
  registry : Registry := {}
  /-- For a server that records its connections in the shared store. -/
  sharing : Option Sharing := .none
  journal : Option Journal := .none
  link : Link := .none
  channels : Settings.Channels := {}
deriving Repr

/-- Store calls that fail: those of a kind, or only those about one connection. -/
structure Trouble where
  name : String
  subject : Option ConnectionId
  error : Error
deriving DecidableEq, Repr

end Cluster

structure Cluster where
  /-- The clock, in milliseconds. -/
  now : Nat := 0
  /-- The timestamp of the messages that are relayed. -/
  stamp : Time.Timestamp
  connections : List Connection := []
  servers : List Cluster.Server := []
  store : Store := {}
  /-- How long each call on the store takes, in milliseconds. -/
  storeDelay : Nat := 0
  troubles : List Cluster.Trouble := []
  storeCalls : List Store.Call := []
  ring : Relay.Ring
deriving Repr

namespace Cluster

def server? (c : Cluster) (s : Nat) : Option Server := c.servers[s]?

def modifyServer (c : Cluster) (s : Nat) (f : Server → Server) : Cluster :=
  { c with servers := c.servers.modify s f }

def connection? (c : Cluster) (h : Nat) : Option Connection := c.connections[h]?

def setConnection (c : Cluster) (h : Nat) (x : Connection) : Cluster :=
  { c with connections := c.connections.set h x }

def modifyConnection (c : Cluster) (h : Nat) (f : Connection → Connection) : Cluster :=
  { c with connections := c.connections.modify h f }

def registry (c : Cluster) (s : Nat) : Registry := ((c.server? s).map (·.registry)).getD {}

def setRegistry (c : Cluster) (s : Nat) (r : Registry) : Cluster :=
  c.modifyServer s fun x => { x with registry := r }

def isLive (c : Cluster) (h : Nat) : Bool := (c.connection? h).any (·.live)

def member? (c : Cluster) (h : Nat) : Option Member :=
  (c.connection? h).map fun x => ⟨x.id, x.client, h⟩

/-! ## Sends -/

structure Send where
  handle : Nat
  frame : String
  state : Sending := .fresh
deriving DecidableEq, Repr

def stepSend (c : Cluster) (cancelled : Bool) (s : Send) :
    Cluster × Progress Send (Except Error Unit) :=
  match c.connection? s.handle with
  | .none => (c, .done (.error Connection.notLiveError))
  | some x =>
    let (x, p) := x.stepSend c.now cancelled s.frame s.state
    (c.setConnection s.handle x, p.mapState fun state => { s with state := state })

def abandonSend (c : Cluster) (s : Send) : Cluster :=
  c.modifyConnection s.handle fun x => x.abandon s.state

/-! ## Calls on the store -/

inductive StoreWait where
  | fresh
  | until (time : Nat)
deriving DecidableEq, Repr

def trouble? (c : Cluster) (call : Store.Call) : Option Error :=
  (c.troubles.find? fun t =>
    t.name = call.name && (t.subject = .none || t.subject = call.subject?)).map (·.error)

/-- Ends a call: it fails without effect or takes effect as a whole. -/
def finishCall (c : Cluster) (call : Store.Call) : Cluster × Except Error Nat :=
  match c.trouble? call with
  | some e => (c, .error e)
  | .none =>
    let (store, n) := c.store.perform call
    ({ c with store := store }, .ok n)

def stepCall (c : Cluster) (call : Store.Call) (s : StoreWait) :
    Cluster × Progress StoreWait (Except Error Nat) :=
  match s with
  | .fresh =>
    let c := { c with storeCalls := c.storeCalls ++ [call] }
    if c.storeDelay = 0 then
      let (c, r) := c.finishCall call
      (c, .done r)
    else (c, .moved (.until (c.now + c.storeDelay)))
  | .until time =>
    if time ≤ c.now then
      let (c, r) := c.finishCall call
      (c, .done r)
    else (c, .blocked)

end Cluster

end EventHub
