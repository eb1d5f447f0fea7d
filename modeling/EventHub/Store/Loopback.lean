import EventHub.Store.Commands
import EventHub.Store.Reply
/-!
# A store in memory

Answers the commands of the service: it keeps integer counters, queues the commands of a
transaction although their effects come at once, and answers one to everything else. Single replies
can be replaced beforehand.
-/

namespace EventHub.Store

structure Loopback where
  counters : Table String Int := []
  /-- The reply to the next command of a name. -/
  replaced : Table String Reply := []
  /-- The replies of the transaction that is being queued. -/
  queued : Option (List Reply) := none
deriving Repr

namespace Loopback

def add (s : Loopback) (key : String) (n : Int) : Loopback × Reply :=
  let total := (s.counters.find? key).getD 0 + n
  ({ s with counters := s.counters.set key total }, .integer total)

def perform (s : Loopback) : List String → Loopback × Reply
  | ["INCRBY", key, n] => s.add key ((Reply.readInteger n.toList).getD 0)
  | ["DECRBY", key, n] => s.add key (-((Reply.readInteger n.toList).getD 0))
  | ["GET", key] =>
    (s, match s.counters.find? key with
      | some n => .text (toString n)
      | none => .nil)
  | _ => (s, .integer 1)

def answer (s : Loopback) (command : List String) : Loopback × Reply :=
  match command, s.queued with
  | ["MULTI"], _ => ({ s with queued := some [] }, .status "OK")
  | ["EXEC"], some replies => ({ s with queued := none }, .list replies)
  | command, some replies =>
    let (s, reply) := s.perform command
    ({ s with queued := some (replies ++ [reply]) }, .status "QUEUED")
  | command, none => s.perform command

def receive (s : Loopback) (command : List String) : Loopback × Reply :=
  let (s, reply) := s.answer command
  let name := command.headD ""
  match s.replaced.find? name with
  | none => (s, reply)
  | some other => ({ s with replaced := s.replaced.erase name }, other)

def receiveAll (s : Loopback) : List (List String) → Loopback × List Reply
  | [] => (s, [])
  | command :: rest =>
    let (s, reply) := s.receive command
    let (s, replies) := receiveAll s rest
    (s, reply :: replies)

def call (s : Loopback) (keyPrefix : String) (connectedAt : Time.Timestamp)
    (lifetime : Time.Duration) (c : Call) : Loopback × Except Error Nat :=
  let (s, replies) := s.receiveAll (c.commands keyPrefix connectedAt lifetime)
  (s, c.result replies)

end Loopback

end EventHub.Store
