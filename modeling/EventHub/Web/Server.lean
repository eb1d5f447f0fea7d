import EventHub.Settings.Service
import EventHub.Web.Cors
import EventHub.Web.EventStream
import EventHub.Web.PublishRequest
import EventHub.Web.Route
/-!
# The web server

Requests to one server of a cluster, the event streams that they open, and the end of the service.
-/

namespace EventHub.Web

structure Request where
  method : String := "GET"
  target : List Char
  headers : List Header := []
  body : List UInt8 := []

/-- How the client of a stream is found out. -/
inductive Resolver where
  /-- The header or the query of the request. -/
  | standard
  | deny (r : Rejection)
  | answer (client : Option ClientId)

structure Server where
  machine : Machine
  settings : Settings.Stream := {}
  resolver : Resolver := .standard
  /-- The origins that may read answers, if these are looked at. -/
  origins : Option (List String) := none
  /-- The error of every publication. -/
  publisherFails : Option Error := none
  /-- The error of every call on the registry, which then is empty. -/
  registryFails : Option Error := none
  shutdown : Bool := false
  streams : List EventStream := []
  /-- The number from which the next name is made up. -/
  nextName : Nat := 0

namespace Server

def place : Nat := 0

def runBound : Nat := 100000

def taskOf (s : Server) (a : Activity) : Task :=
  { activity := a, cancelAt := if s.shutdown then some s.machine.cluster.now else none }

/-- Runs an activity to its end; no outcome means that it is still under way at the bound. -/
def await (s : Server) (t : Task) : Server × Option Outcome :=
  let (m, tasks) := s.machine.run runBound [t]
  ({ s with machine := m }, tasks.head?.bind (·.outcome))

def ofSettings (id : ServerId) (stamp : Time.Timestamp) (settings : Settings.Service) :
    Except Error Server :=
  settings.stream.map fun stream =>
    { machine := ⟨{ stamp := stamp, servers := [{ id := id, channels := settings.channels }]
                    ring := Relay.Ring.ofCapacity 1024 }, []⟩
      settings := stream }

def startLoops (s : Server) : Server :=
  let loop : Task := s.taskOf (.heartbeat place (.starting s.settings.heartbeatInterval.millis))
  { s with machine := { s.machine with tasks := s.machine.tasks ++ [loop] } }

/-- Cancels a task with the service. The registration of a connection is left alone. -/
def cancelTask (now : Nat) (t : Task) : Task :=
  match t.activity with
  | .add .. => t
  | _ => { t with cancelAt := some (min now (t.cancelAt.getD now)) }

def shutDown (s : Server) : Server :=
  { s with
    shutdown := true
    machine := { s.machine with
      tasks := s.machine.tasks.map (cancelTask s.machine.cluster.now) } }

/-- Goes on until everything waits. -/
def settle (s : Server) : Server := { s with machine := s.machine.settle runBound }

def withTasks (s : Server) (c : Cluster) (tasks : List Task) : Server :=
  { s with machine := { s.machine with cluster := c, tasks := s.machine.tasks ++ tasks } }

def freshName (s : Server) : Server × String :=
  ({ s with nextName := s.nextName + 1 }, generated s.nextName)

/-! ## Streams -/

def identify (s : Server) (r : Request) : Except Rejection (Option ClientId) :=
  match s.resolver with
  | .standard => ClientIdentity.resolve r.target r.headers
  | .deny rejection => .error rejection
  | .answer client => .ok client

def streamResponse (number : Nat) : Response := ⟨200, Event.streamHeaders, .stream number⟩

def clientOf (s : Server) (r : Request) : Except Rejection (Server × ClientId) :=
  (s.identify r).map fun
    | some client => (s, client)
    | none =>
      let (s, name) := s.freshName
      (s, "anonymous-" ++ name)

/-- A client comes: its connection is there, with the hint when to reconnect, and is to be
registered. -/
def connect (s : Server) (id : ConnectionId) (client : ClientId) (lastEventId : Option String) :
    Server × Task :=
  let c := s.machine.cluster
  let x := EventStream.connectionOf s.settings c.now id client lastEventId
  (s.withTasks { c with connections := c.connections ++ [x] } [],
    { activity := .add place c.connections.length .fresh })

def streamOf (handle : Nat) : EventStream := ⟨place, handle, false⟩

def register (s : Server) (r : Request) (client : ClientId) : Server × Option Outcome :=
  let (s, name) := s.freshName
  let (s, registering) := s.connect ⟨name⟩ client (EventStream.lastEventId? r.headers)
  s.await registering

/-- Opens a stream: its connection is registered before the answer begins. There is no answer while
the registration is under way. -/
def openStream (s : Server) (r : Request) : Server × Option Response :=
  match s.clientOf r with
  | .error rejection => (s, some (.plain rejection.status rejection.message))
  | .ok (s, client) =>
    match s.registryFails with
    | some e => (s, some (.ofError e))
    | none =>
      let handle := s.machine.cluster.connections.length
      match s.register r client with
      | (s, some (.result (.ok ()))) =>
        ({ s with streams := s.streams ++ [streamOf handle] },
          some (streamResponse s.streams.length))
      | (s, some (.result (.error e))) => (s, some (.ofError e))
      | (s, _) => (s, none)

def readStream (choice : List EventStream.Branch → Option EventStream.Branch) (s : Server)
    (number : Nat) : Server × EventStream.Answer :=
  match s.streams[number]? with
  | none => (s, .ended)
  | some stream =>
    let (c, stream, answer, tasks) := stream.poll choice s.shutdown s.machine.cluster
    ({ s with streams := s.streams.set number stream }.withTasks c tasks, answer)

def dropStream (s : Server) (number : Nat) : Server :=
  match s.streams[number]? with
  | none => s
  | some stream =>
    let (c, stream, tasks) := stream.leave s.machine.cluster
    { s with streams := s.streams.set number stream }.withTasks c tasks

/-! ## Other requests -/

def publish (s : Server) (target : Option ClientId) (r : Request) : Server × Option Response :=
  match PublishRequest.ofRequest r.headers r.body with
  | .error response => (s, some response)
  | .ok event =>
    match s.publisherFails with
    | some e => (s, some (.ofError e))
    | none =>
      match s.await (s.taskOf (.publication place (.ofEvent target event))) with
      | (s, some (.result (.ok ()))) => (s, some (.api 202 none))
      | (s, some (.result (.error e))) => (s, some (.ofError e))
      | (s, _) => (s, none)

def count (s : Server) : Server × Option Response :=
  let id := ((s.machine.cluster.server? place).map (·.id.text)).getD ""
  let answer (n : Nat) : Response :=
    .api 200 (some (.object [("count", .number (.int n)), ("server_id", .string id)]))
  if s.registryFails.isSome then (s, some (answer 0))
  else match s.await { activity := .count place .fresh } with
    | (s, some (.number n)) => (s, some (answer n))
    | (s, _) => (s, none)

def answerRoute (s : Server) (r : Request) : Route → Server × Option Response
  | .health => (s, some (.plain 200 "healthy"))
  | .stream => s.openStream r
  | .publish => s.publish none r
  | .publishTo segment =>
    match Route.client? segment with
    | some client => s.publish (some client) r
    | none => (s, some (.plain 400 "Invalid URL: Invalid UTF-8 in `client_id`"))
  | .count => s.count

def answerPlain (s : Server) (r : Request) : Server × Option Response :=
  match Route.ofPath? (path r.target) with
  | none => (s, some (.empty 404))
  | some route =>
    if route.methods.contains r.method then s.answerRoute r route else (s, some (.empty 405))

def answerOrigin (s : Server) (r : Request) : Server × Option Response :=
  match s.origins with
  | none => s.answerPlain r
  | some origins =>
    if r.method = "OPTIONS" then (s, some (Cors.preflight origins r.headers))
    else
      let (s, response) := s.answerPlain r
      (s, response.map (·.withHeaders (Cors.headersFor origins r.headers)))

def allowHeaders (r : Request) : List (String × String) :=
  match Route.ofPath? (path r.target) with
  | some route =>
    if route.methods.contains r.method then [] else [("allow", ",".intercalate route.methods)]
  | none => []

/-- Answers a request; there is no answer while what it asks for is under way. -/
def respond (s : Server) (r : Request) : Server × Option Response :=
  match s.answerOrigin r with
  | (s, none) => (s, none)
  | (s, some response) =>
    let response := (response.withHeaders (allowHeaders r)).withLength
    if r.method = "HEAD" then
      match response.body with
      | .stream number => (s.dropStream number, some response.withoutBody)
      | .text _ => (s, some response.withoutBody)
    else (s, some response)

end Server

end EventHub.Web
