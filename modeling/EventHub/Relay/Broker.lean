import EventHub.Error
import EventHub.Store.Reply
import EventHub.Text.Utf8
/-!
# The relay at a broker

Messages go through the channels of a broker that all servers reach: the commands that publish and
subscribe, and what its replies and the messages it delivers amount to. The broker in memory has one
subscriber. Single replies can be replaced beforehand.
-/

namespace EventHub.Relay

open Store (Reply)

def publishCommand (channel message : String) : List String := ["PUBLISH", channel, message]

def subscribeCommands (channels : List String) : List (List String) :=
  channels.map fun channel => ["SUBSCRIBE", channel]

def brokerError (fault : RelayFault) (reason : String) : Error :=
  ⟨.relay fault, some (.external reason)⟩

/-- The reply to a publication is the number of receivers; that there are none is no error. -/
def publishResult : Reply → Except Error Unit
  | .integer _ => .ok ()
  | .error code => .error (brokerError .publish code)
  | _ => .error (brokerError .publish "TYPE")

def deliveredText (bytes : List UInt8) : Except Error String :=
  match Text.Utf8.decode? bytes with
  | some text => .ok (String.ofList text)
  | none => .error (brokerError .malformed "UTF-8")

structure Broker where
  /-- The channels of the subscription. -/
  channels : List String := []
  /-- What has been delivered and not been read, the oldest first. -/
  waiting : List (List UInt8) := []
  /-- The reply to the next command of a name. -/
  replaced : Table String Reply := []
  /-- Connections to the broker are accepted. -/
  reachable : Bool := true
deriving Repr

namespace Broker

def push (b : Broker) (channel : String) (message : List UInt8) : Broker × Nat :=
  if b.channels.contains channel then ({ b with waiting := b.waiting ++ [message] }, 1)
  else (b, 0)

def perform (b : Broker) : List String → Broker × Reply
  | ["PUBLISH", channel, message] =>
    let (b, receivers) := b.push channel (Text.Utf8.encode message.toList)
    (b, .integer receivers)
  | ["SUBSCRIBE", channel] => ({ b with channels := b.channels ++ [channel] }, .integer 1)
  | _ => (b, .integer 1)

def receive (b : Broker) (command : List String) : Broker × Reply :=
  let (b, reply) := b.perform command
  let name := command.headD ""
  match b.replaced.find? name with
  | none => (b, reply)
  | some other => ({ b with replaced := b.replaced.erase name }, other)

def receiveAll (b : Broker) (commands : List (List String)) : Broker :=
  commands.foldl (fun b command => (b.receive command).1) b

/-! ## Calls of a server -/

def publish (b : Broker) (channel message : String) : Broker × Except Error Unit :=
  if b.reachable then
    let (b, reply) := b.receive (publishCommand channel message)
    (b, publishResult reply)
  else (b, .error (brokerError .publish "Connection refused"))

/-- Subscribes on a connection of its own, in place of the one before. The replies are not looked
at. -/
def subscribe (b : Broker) (channels : List String) : Broker × Except Error Unit :=
  if b.reachable then
    (receiveAll { b with channels := [], waiting := [] } (subscribeCommands channels), .ok ())
  else (b, .error (brokerError .subscribe "Connection refused"))

/-- What the subscription yields next, `none` if nothing has been delivered. -/
def read (b : Broker) : Broker × Option (Except Error String) :=
  match b.waiting with
  | [] => (b, none)
  | message :: rest => ({ b with waiting := rest }, some (deliveredText message))

end Broker

end EventHub.Relay
