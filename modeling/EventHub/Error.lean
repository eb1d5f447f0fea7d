import EventHub.Time.Duration
/-!
# Errors

What went wrong, in which part of the service, and why. `Error.message` is the one place where an
error gets its words. A cancellation is not a failure, but it travels the same way.
-/

namespace EventHub

open Time (Duration)

/-- An option value that the service cannot start with. -/
inductive ConfigFault where
  /-- The refresh interval is not strictly shorter than the lifetime it extends. -/
  | ttlRefreshInterval
  | missingConnectionString
  | invalidInterval
deriving DecidableEq, Repr

inductive StoreFault where
  | unavailable
  | transaction
deriving DecidableEq, Repr

inductive WriteFault where
  /-- The writer has been disposed; every later write fails too. -/
  | disposed
  /-- The other side went away. -/
  | closed
  | timeout
deriving DecidableEq, Repr

inductive RelayFault where
  | publish
  | subscribe
  | malformed
deriving DecidableEq, Repr

inductive ErrorKind where
  | config (fault : ConfigFault)
  | store (fault : StoreFault)
  | write (fault : WriteFault)
  | relay (fault : RelayFault)
  | cancelled
deriving DecidableEq, Repr

inductive Cause where
  | refreshIsZero
  | refreshNotBelowLifetime (refresh lifetime : Duration)
  | connectionStringMissing
  | heartbeatIsZero
  | writeTimeoutIsZero
  | connectionNotLive
  | writerDisposed
  | receiverDropped
  | writeTimedOut
  /-- A subscriber fell behind and lost so many messages. -/
  | lagged (lost : Nat)
  /-- A text could not be read. -/
  | unreadable (reason : String)
  /-- A cause reported from outside the service. -/
  | external (text : String)
deriving DecidableEq, Repr

structure Error where
  kind : ErrorKind
  cause : Option Cause := none
deriving DecidableEq, Repr

def ConfigFault.name : ConfigFault → String
  | .ttlRefreshInterval => "TtlRefreshInterval"
  | .missingConnectionString => "MissingConnectionString"
  | .invalidInterval => "InvalidInterval"

def StoreFault.name : StoreFault → String
  | .unavailable => "Unavailable"
  | .transaction => "Transaction"

/-- The fault that an error reply with the code makes: an aborted transaction is told apart. -/
def StoreFault.ofCode (code : String) : StoreFault :=
  if code = "EXECABORT" then .transaction else .unavailable

def WriteFault.name : WriteFault → String
  | .disposed => "Disposed"
  | .closed => "Closed"
  | .timeout => "Timeout"

def RelayFault.name : RelayFault → String
  | .publish => "Publish"
  | .subscribe => "Subscribe"
  | .malformed => "Malformed"

def ErrorKind.message : ErrorKind → String
  | .config f => "Configuration error: " ++ f.name
  | .store f => "Connection store error: " ++ f.name
  | .write f => "Connection write error: " ++ f.name
  | .relay f => "Backplane error: " ++ f.name
  | .cancelled => "Operation cancelled"

def Cause.message : Cause → String
  | .refreshIsZero => "TTL refresh interval must be greater than zero"
  | .refreshNotBelowLifetime refresh lifetime =>
    "TTL refresh interval (" ++ refresh.secondsText ++
      "s) must be shorter than the connection TTL (" ++ lifetime.secondsText ++ "s)"
  | .connectionStringMissing => "a Redis connection string is required for the distributed registry"
  | .heartbeatIsZero => "heartbeat interval must be greater than zero"
  | .writeTimeoutIsZero => "write timeout must be greater than zero"
  | .connectionNotLive => "connection is no longer live"
  | .writerDisposed => "writer disposed"
  | .receiverDropped => "stream receiver dropped"
  | .writeTimedOut => "stream write timed out"
  | .lagged lost => "subscriber lagged, " ++ toString lost ++ " message(s) dropped"
  | .unreadable reason => reason
  | .external text => text

namespace Error

def message (e : Error) : String :=
  match e.cause with
  | none => e.kind.message
  | some c => e.kind.message ++ " (" ++ c.message ++ ")"

def cancelled : Error := ⟨.cancelled, none⟩

def isCancelled (e : Error) : Bool := e.kind = .cancelled

def config (fault : ConfigFault) (cause : Cause) : Error := ⟨.config fault, some cause⟩

def write (fault : WriteFault) (cause : Cause) : Error := ⟨.write fault, some cause⟩

def malformed (reason : String) : Error := ⟨.relay .malformed, some (.unreadable reason)⟩

end Error

end EventHub
