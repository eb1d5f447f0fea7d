import EventHub.Registry.Basic
/-!
# Registries shared by threads

Threads may insert, take and look up connections at the same time. Each operation on one table is
atomic, but other threads may come in between. `Call` says where a thread stands in its operation
and `Call.step` does the next atomic part.
-/

namespace EventHub.Registry

/-- Where an insertion, a removal or a look-up stands. -/
inductive Call where
  | insert (m : Member)
  /-- The connection is stored; its name is still among those of its former client. -/
  | unlinkFormer (m : Member) (former : ClientId)
  | pruneFormer (m : Member) (former : ClientId)
  | link (m : Member)
  /-- The name is linked; the connection may have been taken meanwhile. -/
  | check (m : Member)
  | unlinkOwn (m : Member)
  | pruneOwn (m : Member)
  | inserted (m : Member)
  | take (id : ConnectionId)
  | unlinkTaken (m : Member)
  | pruneTaken (m : Member)
  | taken (id : ConnectionId) (result : Option Member)
  | find (client : ClientId)
  /-- The names of the client have been read; those left are still to be looked up. -/
  | finding (client : ClientId) (left : List ConnectionId) (members : List Member)
  | found (client : ClientId) (members : List Member)
deriving DecidableEq, Repr

namespace Call

def isDone : Call → Bool
  | inserted _ | taken .. | found .. => true
  | _ => false

/-- The next atomic part of an operation; nothing once it has ended. -/
def step (r : Registry) : Call → Registry × Call
  | insert m =>
    match r.find? m.id with
    | some p => (r.put m, if p.client ≠ m.client then unlinkFormer m p.client else link m)
    | none => (r.put m, link m)
  | unlinkFormer m former => (r.unlink former m.id, pruneFormer m former)
  | pruneFormer m former => (r.prune former, link m)
  | link m => (r.link m.client m.id, check m)
  | check m => (r, if r.contains m.id then inserted m else unlinkOwn m)
  | unlinkOwn m => (r.unlink m.client m.id, pruneOwn m)
  | pruneOwn m => (r.prune m.client, inserted m)
  | inserted m => (r, inserted m)
  | take id =>
    match r.find? id with
    | none => (r, taken id none)
    | some m => (r.drop id, unlinkTaken m)
  | unlinkTaken m => (r.unlink m.client m.id, pruneTaken m)
  | pruneTaken m => (r.prune m.client, taken m.id (some m))
  | taken id result => (r, taken id result)
  | find client => (r, finding client ((r.index.find? client).getD []) [])
  | finding client [] members => (r, found client members)
  | finding client (id :: left) members =>
    (r, finding client left (members ++ (r.find? id).toList.filter fun m => m.client = client))
  | found client members => (r, found client members)

end Call

structure Shared where
  registry : Registry := {}
  calls : List Call := []

inductive Shared.Step : Shared → Shared → Prop where
  | advance (s : Shared) (i : Nat) (c : Call) (found : s.calls[i]? = some c) :
      Step s ⟨(c.step s.registry).1, s.calls.set i (c.step s.registry).2⟩
  | start (s : Shared) (c : Call)
      (fresh : (∃ m, c = .insert m) ∨ (∃ id, c = .take id) ∨ ∃ client, c = .find client) :
      Step s ⟨s.registry, s.calls ++ [c]⟩

inductive Shared.Reachable : Shared → Prop where
  | empty : Reachable {}
  | step {s t : Shared} : Reachable s → Shared.Step s t → Reachable t

end EventHub.Registry
