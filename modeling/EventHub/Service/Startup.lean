import EventHub.Log.Record
import EventHub.Settings.Service
import EventHub.Store.Address
import EventHub.Text.Lines
import EventHub.Web.Cors
/-!
# Starting the service

What happens from the command line to an open port: which records are logged, where the start may
end early, and with which exit code.
-/

namespace EventHub.Service

open Settings (Distributed)
open Log (Record)

def successExit : Nat := 0

def usageExit : Nat := 2

def failureExit : Nat := 1

/-- The exit code of a service that gives up where no failure is expected. -/
def abortExit : Nat := 101

def name : String := "service 0.1.0"

inductive Start where
  /-- A text is printed and nothing is started. -/
  | printed (text : String)
  /-- The command line cannot be used. -/
  | refused (text : String)
  | failed (level : Log.Level) (records : List Record)
  /-- The service gives up with a last word. -/
  | aborted (level : Log.Level) (records : List Record) (text : String)
  | running (settings : Settings.Service) (records : List Record)
deriving Repr

def storeFailure (reason : String) : Error := ⟨.store .unavailable, some (.external reason)⟩

structure Surroundings where
  /-- The port can be listened to. -/
  portFree : Bool := true
  store : Except Error Unit := .error (storeFailure "Connection refused (os error 111)")

def record (level : Log.Level) (target message : String) : Record :=
  ⟨level, target, message, ""⟩

def info : String → String → Record := record .info

def connect (around : Surroundings) (url : String) : Except Error Unit :=
  match Store.Address.check url with
  | .error fault => .error (storeFailure fault.message)
  | .ok () => around.store

def storeRecords (s : Settings.Service) (d : Distributed) : List Record :=
  info "sse::distributed" ("Connected to Redis for connection tracking at " ++ d.url) ::
    if s.relayEnabled then [info "sse::backplane" ("Connected to Redis backplane at " ++ d.url)]
    else []

def prepare (around : Surroundings) (id : ServerId) (s : Settings.Service) :
    List Record × Except Error (Option Distributed) :=
  match s.stream with
  | .error e => ([], .error e)
  | .ok stream =>
    let opening := info "service" ("Server " ++ id.text ++ ": retry=" ++
      stream.retryInterval.unitText ++ ", heartbeat=" ++ stream.heartbeatInterval.unitText ++
      ", write_timeout=" ++ stream.writeTimeout.unitText ++ ", buffer=" ++ toString stream.buffer)
    match s.distributed with
    | .error e => ([opening], .error e)
    | .ok none =>
      ([opening, info "service" "No Redis URL configured, running as a single instance"], .ok none)
    | .ok (some d) =>
      let records := [opening, info "service" ("Distributed registry: prefix=" ++ d.keyPrefix ++
        ", ttl=" ++ d.lifetime.unitText ++ ", refresh=" ++ d.refreshInterval.unitText)]
      match connect around d.url with
      | .error e => (records, .error e)
      | .ok () => (records ++ storeRecords s d, .ok (some d))

def loopRecords (id : ServerId) (s : Settings.Service) (d? : Option Distributed) : List Record :=
  info "sse::heartbeat" ("Heartbeat running every " ++
      (Time.Duration.ofSeconds s.heartbeatSeconds).unitText) ::
    match d? with
    | none => []
    | some d =>
      info "sse::distributed" ("TTL refresh running every " ++ d.refreshInterval.unitText ++
          " (ttl " ++ d.lifetime.unitText ++ ")") ::
        if s.relayEnabled then
          [info "sse::backplane"
            ("Backplane subscribed to " ++ ", ".intercalate (s.channels.heardBy id))]
        else []

def stopRecords (s : Settings.Service) : List Record :=
  record .debug "sse::heartbeat" "Heartbeat stopped" ::
    if s.isDistributed then
      record .debug "sse::distributed" "TTL refresh stopped" ::
        if s.relayEnabled then [record .debug "sse::backplane" "Backplane subscriber stopped"]
        else []
    else []

def originRecords (s : Settings.Service) : List Record :=
  (s.allowedOrigins.filter fun o => !Web.Cors.isUsable o).map fun o =>
    record .warn "web" ("Ignoring invalid CORS origin: " ++ o)

def start (program : String) (around : Surroundings) (id : ServerId)
    (environment : List (String × String)) (arguments : List String) : Start :=
  match Settings.Service.read environment arguments with
  | .error .help => .printed (CommandLine.helpText program Settings.options environment)
  | .error .version => .printed (name ++ "\n")
  | .error f => .refused (f.text program)
  | .ok s =>
    let opening := info program ("Starting up SSE relay in " ++ s.mode.name ++ " mode")
    match prepare around id s with
    | (records, .error e) =>
      .failed s.logLevel (opening :: records ++
        [record .error program ("Failed to initialize services: " ++ e.message)])
    | (records, .ok d?) =>
      let records := opening :: records ++ loopRecords id s d?
      if around.portFree then
        let records := records ++ info "web" ("Server " ++ id.text ++
          " listening for connections on http://" ++ s.interface ++ ":" ++ toString s.port) ::
            originRecords s
        if (Web.Cors.origins? s.allowedOrigins).isSome then .running s records
        else .aborted s.logLevel records Web.Cors.wildcardMessage
      else
        .failed s.logLevel (records ++ stopRecords s ++
          [record .error program "Server error: Address already in use (os error 98)"])

def closingRecords (program : String) (s : Settings.Service) : List Record :=
  info program "Received shutdown signal, closing open streams" :: stopRecords s ++
    [info program "Shutdown complete"]

def textLines (text : String) : List String := (Text.lines text.toList).map String.ofList

namespace Start

/-- The exit code, `none` while the service runs. -/
def exit : Start → Option Nat
  | printed _ => some successExit
  | refused _ => some usageExit
  | failed .. => some failureExit
  | aborted .. => some abortExit
  | running .. => none

def output (time : String) : Start → List String × List String
  | printed text => (textLines text, [])
  | refused text => ([], textLines text)
  | failed level records => Log.lines time level records
  | aborted level records text =>
    let (out, err) := Log.lines time level records
    (out, err ++ textLines text)
  | running s records => Log.lines time s.logLevel records

end Start

end EventHub.Service
