import EventHub.CommandLine.Reader
import EventHub.Log.Level
import EventHub.Settings.Channels
import EventHub.Settings.Mode
import EventHub.Settings.Stream
/-!
# Settings of the service

Everything that a command line, the environment and the defaults decide, and the settings of the
parts of the service that follow from it.
-/

namespace EventHub.Settings

open CommandLine (Opt Value ValueKind)
open Time (Duration)

def options : List Opt :=
  [{ name := "allowed_origins", kind := .texts
     default := some "http://localhost:3000,https://localhost:3000"
     help := "A list of full CORS origin URLs that allowed to receive server responses" },
   { name := "redis_url"
     help := "Redis URL shared by every server instance. When set, connections are tracked in " ++
       "Redis and events are relayed between instances" },
   { name := "key_prefix", default := some defaultKeyPrefix
     help := "Prefix for every Redis key and pub/sub channel this service uses" },
   { name := "connection_ttl_secs", kind := .number, default := some "120"
     help := "Seconds before a connection record expires in Redis unless refreshed" },
   { name := "ttl_refresh_interval_secs", kind := .number, default := some "60"
     help := "Seconds between TTL refreshes; must be shorter than the connection TTL" },
   { name := "backplane_enabled", kind := .word ["true", "false"], default := some "true"
     help := "Relay published events to other instances through Redis pub/sub" },
   { name := "heartbeat_interval_secs", kind := .number, default := some "30"
     help := "Seconds between heartbeat sweeps over all open streams" },
   { name := "retry_interval_ms", kind := .number, default := some "3000"
     help := "Reconnect delay in milliseconds suggested to clients via the `retry:` frame" },
   { name := "write_timeout_ms", kind := .number, default := some "5000"
     help := "Milliseconds a single frame write may wait before the stream is considered dead" },
   { name := "stream_buffer", kind := .number, default := some "64"
     help := "Frames buffered per stream before writers wait on the client" },
   { name := "interface", letter := some 'i', default := some "127.0.0.1"
     help := "The host interface to listen for incoming connections" },
   { name := "port", letter := some 'p', kind := .port, default := some "4000"
     help := "The host TCP port to listen for incoming connections" },
   { name := "log_level_filter", letter := some 'l'
     kind := .word ["OFF", "ERROR", "WARN", "INFO", "DEBUG", "TRACE"], default := some "INFO"
     help := "Set the log level verbosity threshold (level) to control what gets displayed on " ++
       "console output" },
   { name := "runtime_env", letter := some 'r'
     kind := .word ["DEVELOPMENT", "PRODUCTION", "STAGING", "development", "production", "staging"]
     default := some "development"
     help := "Set the Rust runtime environment to use" }]

structure Service where
  allowedOrigins : List String
  storeUrl : Option String
  keyPrefix : String
  /-- How long the record of a connection lives, in seconds. -/
  lifetimeSeconds : Nat
  refreshSeconds : Nat
  relayEnabled : Bool
  heartbeatSeconds : Nat
  retryMillis : Nat
  writeTimeoutMillis : Nat
  buffer : Nat
  interface : String
  port : Nat
  logLevel : Log.Level
  mode : Mode
deriving DecidableEq, Repr

namespace Service

def valuesOf (g : CommandLine.Given) (name : String) : List Value :=
  match options.find? fun o => o.name = name with
  | none => []
  | some o =>
    match g.find? o, o.default with
    | some values, _ => values
    | none, some text => (CommandLine.readValues o text).toOption.getD []
    | none, none => []

def texts (g : CommandLine.Given) (name : String) : List String :=
  (valuesOf g name).filterMap fun
    | .text s => some s
    | .number _ => none

def text? (g : CommandLine.Given) (name : String) : Option String := (texts g name).head?

def text (g : CommandLine.Given) (name : String) : String := (text? g name).getD ""

def number (g : CommandLine.Given) (name : String) : Nat :=
  match (valuesOf g name).head? with
  | some (.number n) => n
  | _ => 0

def ofGiven (g : CommandLine.Given) : Service where
  allowedOrigins := texts g "allowed_origins"
  storeUrl := text? g "redis_url"
  keyPrefix := text g "key_prefix"
  lifetimeSeconds := number g "connection_ttl_secs"
  refreshSeconds := number g "ttl_refresh_interval_secs"
  relayEnabled := text g "backplane_enabled" = "true"
  heartbeatSeconds := number g "heartbeat_interval_secs"
  retryMillis := number g "retry_interval_ms"
  writeTimeoutMillis := number g "write_timeout_ms"
  buffer := number g "stream_buffer"
  interface := text g "interface"
  port := number g "port"
  logLevel := (Log.Level.ofName? (text g "log_level_filter")).getD .info
  mode := (Mode.ofName? (text g "runtime_env")).getD .development

def read (environment : List (String × String)) (arguments : List String) :
    Except CommandLine.Fault Service :=
  (CommandLine.read options environment arguments).map ofGiven

def isDistributed (s : Service) : Bool := s.storeUrl.any fun url => !Text.allBlank url

def stream (s : Service) : Except Error Stream :=
  Stream.validate
    { retryInterval := .ofMillis s.retryMillis
      heartbeatInterval := .ofSeconds s.heartbeatSeconds
      writeTimeout := .ofMillis s.writeTimeoutMillis
      buffer := s.buffer }

/-- The settings of the shared store, `none` for a server on its own. -/
def distributed (s : Service) : Except Error (Option Distributed) :=
  if s.isDistributed then do
    let d ← Distributed.ofUrl? s.storeUrl
    let d ← Distributed.validate
      { d with
        keyPrefix := s.keyPrefix
        lifetime := .ofSeconds s.lifetimeSeconds
        refreshInterval := .ofSeconds s.refreshSeconds }
    return some d
  else .ok none

def channels (s : Service) : Channels := ⟨s.keyPrefix⟩

end Service

end EventHub.Settings
