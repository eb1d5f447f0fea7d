import EventHub.Identity
import EventHub.Table
/-!
# The connections of one server

Two tables: from the name of a connection to the connection, and from a client to the names of its
connections. Both are kept in agreement by `insert` and `take`, which are made of operations on a
single table each.
-/

namespace EventHub

structure Member where
  id : ConnectionId
  client : ClientId
  /-- Where the connection itself is found. -/
  handle : Nat
deriving DecidableEq, Repr

structure Registry where
  entries : Table ConnectionId Member := []
  index : Table ClientId (List ConnectionId) := []
deriving DecidableEq, Repr

namespace Registry

/-! ## Operations on one table -/

def put (r : Registry) (m : Member) : Registry := { r with entries := r.entries.set m.id m }

def drop (r : Registry) (id : ConnectionId) : Registry := { r with entries := r.entries.erase id }

def link (r : Registry) (client : ClientId) (id : ConnectionId) : Registry :=
  let ids := (r.index.find? client).getD []
  { r with index := r.index.set client (if ids.contains id then ids else ids ++ [id]) }

def unlink (r : Registry) (client : ClientId) (id : ConnectionId) : Registry :=
  match r.index.find? client with
  | none => r
  | some ids => { r with index := r.index.set client (ids.filter (· ≠ id)) }

def prune (r : Registry) (client : ClientId) : Registry :=
  match r.index.find? client with
  | some [] => { r with index := r.index.erase client }
  | _ => r

def find? (r : Registry) (id : ConnectionId) : Option Member := r.entries.find? id

def contains (r : Registry) (id : ConnectionId) : Bool := (r.find? id).isSome

/-! ## Whole operations -/

def unindex (r : Registry) (client : ClientId) (id : ConnectionId) : Registry :=
  (r.unlink client id).prune client

/-- Adds a connection; one with the same name is replaced and leaves the names of its client. -/
def insert (r : Registry) (m : Member) : Registry :=
  let previous := r.find? m.id
  let r := r.put m
  let r := match previous with
    | some p => if p.client ≠ m.client then r.unindex p.client m.id else r
    | none => r
  let r := r.link m.client m.id
  if r.contains m.id then r else r.unindex m.client m.id

def take (r : Registry) (id : ConnectionId) : Registry × Option Member :=
  match r.find? id with
  | none => (r, none)
  | some m => ((r.drop id).unindex m.client id, some m)

def members (r : Registry) : List Member := r.entries.values

def ids (r : Registry) : List ConnectionId := r.entries.keys

def size (r : Registry) : Nat := r.entries.length

/-- The connections under the names of a client, less those that belong to another one. -/
def membersOf (r : Registry) (client : ClientId) : List Member :=
  (((r.index.find? client).getD []).filterMap r.find?).filter fun m => m.client = client

end Registry

end EventHub
