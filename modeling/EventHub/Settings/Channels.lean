import EventHub.Identity
import EventHub.Settings.Distributed
/-!
# Channels of the relay

Every event is relayed on one channel that all servers listen to. Each server also listens to a
channel of its own.
-/

namespace EventHub.Settings

structure Channels where
  channelPrefix : String := defaultKeyPrefix
deriving DecidableEq, Repr

namespace Channels

def broadcast (c : Channels) : String := c.channelPrefix ++ ":broadcast"

def server (c : Channels) (id : ServerId) : String := c.channelPrefix ++ ":server:" ++ id.text

def heardBy (c : Channels) (id : ServerId) : List String := [c.broadcast, c.server id]

end Channels

end EventHub.Settings
