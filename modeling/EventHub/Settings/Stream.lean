import EventHub.Error
/-!
# Settings of a stream

How often an open stream hears from the server, how long one frame may take and how many frames
may wait.
-/

namespace EventHub.Settings

open Time (Duration)

structure Stream where
  /-- The delay before reconnecting that clients are told. -/
  retryInterval : Duration := .ofSeconds 3
  heartbeatInterval : Duration := .ofSeconds 30
  /-- The longest time that one frame may wait for the client. -/
  writeTimeout : Duration := .ofSeconds 5
  /-- The number of frames that may wait. -/
  buffer : Nat := 64
deriving DecidableEq, Repr

def Stream.validate (s : Stream) : Except Error Stream :=
  if s.heartbeatInterval.isZero then .error (.config .invalidInterval .heartbeatIsZero)
  else if s.writeTimeout.isZero then .error (.config .invalidInterval .writeTimeoutIsZero)
  else .ok s

end EventHub.Settings
