import EventHub.Proofs.Cluster.Straight
import EventHub.Proofs.Web.Addresses
import EventHub.Proofs.Web.Awaited
import EventHub.Proofs.Web.Orderliness
/-!
# Clients that are addressed

Whatever the name of a client is, a request that names it opens a stream under that name, and an
event that is published to the name goes to all streams that are open under it and to no others.
-/

namespace EventHub.Web

open Cluster

namespace Server

variable {s s' s₀ : Server} {client : ClientId} {event : Event} {r : Request} {h : Nat}

/-! ## Streams of clients -/

def Listens (s : Server) (client : ClientId) (h : Nat) : Prop :=
  ∃ m, Hears s.cluster place (some client) m ∧ m.handle = h

/-- The connection is one of the client, and registered as one or not at all. As long as its stream
is open and has not been told to end, it is registered and live. -/
structure Belongs (s : Server) (client : ClientId) (h : Nat) : Prop where
  owner : s.cluster.clientAt h = some client
  only : ∀ m ∈ s.registry.members, m.handle = h → m.client = client
  listens : ∀ b ∈ s.streams, b.handle = h → b.gone = false → ¬ b.Terminated s.cluster →
    s.Listens client h

theorem Inv.belongs (hinv : Inv s) (hclient : s.cluster.clientAt h = some client) :
    Belongs s client h := by
  have honly (m : Member) (hm : m ∈ s.registry.members) (hh : m.handle = h) :
      m.client = client := by
    subst hh
    exact Option.some.inj ((clientAt_of_member? (hinv.located.member m hm)).symm.trans hclient)
  refine ⟨hclient, honly, fun b hb hh hopen hgoing => ?_⟩
  obtain ⟨m, hm, hregistered⟩ := (hinv.opened b hb hopen).resolve_right hgoing
  obtain ⟨x, hx, -⟩ := Option.map_eq_some_iff.mp (hinv.located.member m hm)
  have hmine : m.client = client := honly m hm (hregistered.trans hh)
  refine ⟨m, ⟨hm, fun client' hclient' => hmine.trans (Option.some.inj hclient'), ?_⟩,
    hregistered.trans hh⟩
  by_contra hdead
  rw [isLive_of_found hx, Bool.not_eq_true] at hdead
  refine hgoing (EventStream.terminated_of_dead ?_ (hinv.streams _ x hx) hdead)
  rw [← hregistered, hx]

theorem Run.clientAt (hrun : Run s s') (hinv : Inv s)
    (hclient : s.cluster.clientAt h = some client) : s'.cluster.clientAt h = some client := by
  induction hrun with
  | refl => exact hclient
  | tail hrun hstep ih =>
    obtain ⟨x, hx, hclient⟩ := Option.map_eq_some_iff.mp ih
    obtain ⟨y, hy, hfaded⟩ := (hstep.keeps (Run.inv hrun hinv)).grows.each _ x hx
    rw [Cluster.clientAt, hy, Option.map_some, hfaded.client_eq, hclient]

/-- Whatever happens after a client has come, its connection belongs to it. -/
theorem belongs_of_connect (hinv : Inv s) {id : ConnectionId}
    (hid : ∀ x ∈ s.machine.cluster.connections, x.id ≠ id) (lastEventId : Option String)
    (hrun : Run
      ((s.connect id client lastEventId).1.begin (s.connect id client lastEventId).2) s') :
    Belongs s' client s.cluster.connections.length := by
  have hinv' := (hinv.connect hid client lastEventId).inv
  refine (Run.inv hrun hinv').belongs (Run.clientAt hrun hinv' ?_)
  rw [Cluster.clientAt, connection?, (comes_connect s id client lastEventId).connections,
    List.getElem?_append_right (Nat.le_refl _), Nat.sub_self]
  rfl

/-! ## Opening streams -/

/-- The server identifies its clients and publishes by its own means, and is not shutting down. -/
structure Serves (s : Server) : Prop where
  resolver : s.resolver = .standard
  publisher : s.publisherFails = none
  registry : s.registryFails = none
  running : s.shutdown = false
  journal : ∀ x, s.cluster.server? place = some x → x.journal = none

/-- The server keeps its connections to itself, or its store records them at once. -/
def Admits (c : Cluster) : Prop :=
  ∀ x, c.server? place = some x → x.sharing = none ∨
    c.storeDelay = 0 ∧ ∀ record lifetime, c.trouble? (.register record lifetime) = none

/-- A registration that has nothing to wait for succeeds. -/
theorem stepAdd_of_admits {c : Cluster} (hadmits : Admits c) {m : Member}
    (hserver : (c.server? place).isSome = true) (hm : c.member? m.handle = some m) :
    (c.stepAdd false place m.handle .fresh).2 = .done (.ok ()) := by
  obtain ⟨x, hx⟩ := Option.isSome_iff_exists.mp hserver
  obtain ⟨y, hy, -⟩ := Option.map_eq_some_iff.mp hm
  simp only [stepAdd, hx, hy, Bool.false_eq_true, if_false]
  cases hsharing : x.sharing with
  | none => rfl
  | some sharing =>
    obtain ⟨hdelay, htrouble⟩ := (hadmits x hx).resolve_left (by simp [hsharing])
    have htrouble := htrouble (recordOf x.id y) sharing.lifetime
    rw [trouble?] at htrouble
    simp only [stepCall, hdelay, if_true, finishCall, trouble?, htrouble]

def registering (h : Nat) (c : Cluster) (cancelled : Bool) (w : StoreWait) :
    Cluster × Progress StoreWait (Except Error Unit) :=
  c.stepAdd cancelled place h w

abbrev RegistrationErrand := Errand Cluster StoreWait (Except Error Unit)

theorem conducts_registering (h : Nat) : Conducts (registering h) (.add place h) .result :=
  fun _ _ _ _ => rfl

/-- A server waits for a registration, which succeeds in its first step. -/
theorem exists_registered (hlocated : Located place s.cluster) (hadmits : Admits s.cluster)
    {m : Member} (hserver : (s.cluster.server? place).isSome = true)
    (hm : s.cluster.member? m.handle = some m) :
    ∃ e : RegistrationErrand, Errand.Run (registering m.handle) (Around place)
        (Errand.call (registering m.handle) s.cluster false .fresh) e ∧
      Awaits (.add place m.handle) .result e s
        (s.await { activity := .add place m.handle .fresh }) ∧
      e.stage = .inr (.ok ()) ∧
      ∃ t ∈ e.strides, m ∈ (t.after.registry place).membersOf m.client := by
  have hok := stepAdd_of_admits hadmits hserver hm
  let begins : RegistrationErrand := ⟨s.cluster, .inl .fresh, false, [], []⟩
  have hstraight : Errand.Straight (registering m.handle) 1 begins
      (Errand.call (registering m.handle) s.cluster false .fresh) :=
    .stride rfl (congrArg Progress.isBlocked hok) (.refl _)
  obtain ⟨e, hrun, hawaits⟩ :=
    exists_awaits (i := place) (conducts_registering m.handle) hstraight
    (by decide)
  have hstage : (Errand.call (registering m.handle) s.cluster false .fresh).stage =
      .inr (.ok ()) := by
    rw [Errand.call, Errand.stage_stride]
    exact congrArg (Progress.stage StoreWait.fresh) hok
  obtain ⟨hend, hstrides⟩ := hrun.ended hstage
  refine ⟨e, hrun, hawaits, hend, begins.coming (registering m.handle) .fresh, ?_, ?_⟩
  · rw [hstrides]
    exact Errand.mem_strides_call.mpr rfl
  obtain ⟨y, hy, hmember⟩ := Option.map_eq_some_iff.mp hm
  obtain ⟨-, hregistry⟩ := (stepAdd_registers hserver hy false .fresh).registry.resolve_right
    fun hnot => hnot.1 hok
  rw [show (⟨y.id, y.client, m.handle⟩ : Member) = m from hmember] at hregistry
  show m ∈ ((s.cluster.stepAdd false place m.handle .fresh).1.registry place).membersOf m.client
  rw [hregistry]
  exact (hlocated.agrees.insert m).mem_membersOf.mpr
    ⟨(hlocated.agrees.mem_members_insert).mpr (.inl rfl), rfl⟩

theorem Registration.run_of_ok {p : Server × Option Outcome} (hregistration : Registration s h p)
    (hok : p.2 = some (.result (.ok ()))) : Run s (p.1.goesOn p.1.machine [streamOf h]) := by
  cases hregistration with
  | endless => cases hok
  | failed => cases hok
  | registered hrun => exact hrun

/-- The server that the client of a request has come to, with a made-up name for the connection. -/
def arrival (s : Server) (client : ClientId) (r : Request) : Server :=
  (s.freshName.1.connect ⟨generated s.nextName⟩ client (EventStream.lastEventId? r.headers)).1

/-- In the course of a call, the connection has been registered under the name of the client. -/
def RegisteredIn (client : ClientId) (h : Nat) (e : RegistrationErrand) : Prop :=
  ∃ t ∈ e.strides, ∃ m ∈ (t.after.registry place).membersOf client, m.handle = h

/-- A stream of the client is opened in answer to a request: its connection is registered under the
name of the client, and whatever others do meanwhile, it belongs to the client from then on. -/
structure Opens (s : Server) (client : ClientId) (r : Request) : Prop where
  status : (s.respond r).2.map (·.status) = some 200
  body : (s.respond r).2.map (·.body) = some (.stream s.streams.length)
  streams : (s.respond r).1.streams = s.streams ++ [streamOf s.cluster.connections.length]
  registered : ∃ e : RegistrationErrand,
    Errand.Run (registering s.cluster.connections.length) (Around place)
      (Errand.call (registering s.cluster.connections.length) (s.arrival client r).cluster false
        .fresh) e ∧
    (s.respond r).1.cluster = e.world ∧ RegisteredIn client s.cluster.connections.length e
  belongs : Belongs (s.respond r).1 client s.cluster.connections.length

theorem openStream_of_registered (hserves : Serves s) (hopens : OpensFor client r)
    (hnamed : Named client) (hok : (s.register r client).2 = some (.result (.ok ()))) :
    s.openStream r =
      ((s.register r client).1.goesOn (s.register r client).1.machine
        [streamOf s.cluster.connections.length],
        some (streamResponse (s.register r client).1.streams.length)) := by
  rw [openStream, clientOf_of_opens hopens hnamed hserves.resolver]
  dsimp only
  rw [hserves.registry]
  dsimp only
  generalize s.register r client = p at hok
  obtain ⟨s', outcome⟩ := p
  cases hok
  rfl

/-- The connection of a client that has come is there, to be registered under its name. -/
theorem member?_arrival (s : Server) (client : ClientId) (r : Request) :
    (s.arrival client r).cluster.member? s.cluster.connections.length =
      some ⟨⟨generated s.nextName⟩, client, s.cluster.connections.length⟩ := by
  rw [member?, connection?]
  show ((s.cluster.connections ++ _)[s.cluster.connections.length]?).map _ = _
  rw [List.getElem?_append_right (Nat.le_refl _), Nat.sub_self]
  rfl

theorem opens_of_request (hinv : Inv s) (hnone : OpenNone s.machine.tasks)
    (hid : ∀ x ∈ s.cluster.connections, x.id ≠ ⟨generated s.nextName⟩)
    (hadmits : Admits s.cluster) (hserves : Serves s) (hopens : OpensFor client r)
    (hnamed : Named client) : Opens s client r := by
  have harrived := (hinv.named.inv.connect hid client (EventStream.lastEventId? r.headers)).inv
  let m : Member := ⟨⟨generated s.nextName⟩, client, s.cluster.connections.length⟩
  obtain ⟨e, hrun, hawaits, hend, t, ht, hmember⟩ := exists_registered (s := s.arrival client r)
    harrived.located hadmits harrived.server (m := m) (member?_arrival s client r)
  have hok : (s.register r client).2 = some (.result (.ok ())) := hawaits.ended _ hend
  have hopened := openStream_of_registered hserves hopens hnamed hok
  have hmethod : r.method = "GET" := by
    cases hopens <;> assumption
  obtain ⟨hleft, hstatus, hbody⟩ := respond_eq (s := s) (r := r) (by rw [hmethod]; decide)
    (by rw [hmethod]; decide)
  rw [answerPlain_of_opens hopens, hopened] at hleft hstatus hbody
  obtain ⟨machine, hserver, hworld⟩ := hawaits.server
  have hregister : (s.register r client).1 = { s.arrival client r with machine := machine } :=
    hserver
  constructor
  case status => exact hstatus
  case body =>
    rw [hregister] at hbody
    exact hbody
  case streams =>
    rw [hleft, hregister]
    rfl
  case registered =>
    refine ⟨e, hrun, ?_, t, ht, m, hmember, rfl⟩
    rw [hleft, hregister]
    exact hworld
  case belongs =>
    have hregistration : Registration
        ((s.arrival client r).begin { activity := .add place m.handle .fresh }) m.handle
        (s.register r client) :=
      await_registration (by simpa [connect, withTasks, freshName] using hnone) rfl rfl .refl
    rw [hleft]
    exact belongs_of_connect (s := s.freshName.1) hinv.named.inv hid _ (hregistration.run_of_ok hok)

/-! ## Publishing to clients -/

/-- How a request is answered whose publication has come to a stage: not before it has ended. -/
def publicationAnswer : Cluster.Publication ⊕ Except Error Unit → Option Response
  | .inl _ => none
  | .inr (.ok ()) => some (.api 202 none)
  | .inr (.error e) => some (.ofError e)

/-- A server waits for a publication, which goes on from wherever it gets without waiting. -/
theorem exists_published (hserves : Serves s) {target : Option ClientId}
    (hrequest : PublishRequest.ofRequest r.headers r.body = .ok event)
    {n : Nat} {e₁ : PublicationErrand} (hstraight : Errand.Straight (publicize place) n
      ⟨s.cluster, .inl (.ofEvent target event), false, [], []⟩ e₁) (hn : n ≤ runBound) :
    ∃ e, Errand.Run (publicize place) (Around place) e₁ e ∧ e.cancelled = false ∧
      (s.publish target r).1.cluster = e.world ∧
      (s.publish target r).2 = publicationAnswer e.stage := by
  obtain ⟨e, hrun, hawaits⟩ :=
    exists_awaits (i := place) (conducts_publicize place) hstraight hn
  refine ⟨e, hrun, hawaits.never, ?_⟩
  have htask : s.taskOf (.publication place (.ofEvent target event)) =
      { activity := .publication place (.ofEvent target event) } := by
    rw [taskOf, hserves.running]
    rfl
  obtain ⟨machine, hserver, hworld⟩ := hawaits.server
  have hendless := hawaits.endless
  have hended := hawaits.ended
  rw [publish, hrequest]
  dsimp only
  rw [hserves.publisher]
  dsimp only
  rw [htask]
  generalize s.await { activity := .publication place (.ofEvent target event) } = p at *
  obtain ⟨s', outcome⟩ := p
  have hcluster : s'.cluster = e.world := by
    rw [show s' = { s with machine := machine } from hserver]
    exact hworld
  cases hstage : e.stage with
  | inl x =>
    obtain rfl : outcome = none := hendless x hstage
    exact ⟨hcluster, rfl⟩
  | inr result =>
    obtain rfl : outcome = some (.result result) := hended result hstage
    cases result <;> exact ⟨hcluster, rfl⟩

/-- What is done in answer to a request to publish to a client. Every connection of the client that
has room gets the frame, whatever becomes of the others; once the publication has succeeded, each of
the others has got the frame too or has died of it. No connection of another client has. -/
structure Answers (s : Server) (client : ClientId) (event : Event) (r : Request)
    (e : PublicationErrand) : Prop where
  run : Errand.Run (publicize place) (Around place)
    (Errand.call (publicize place) s.cluster false (.ofEvent (some client) event)) e
  never : e.cancelled = false
  world : (s.respond r).1.cluster = e.world
  status : (s.respond r).2.map (·.status) = (publicationAnswer e.stage).map (·.status)
  room : ∀ h, s.Listens client h → s.cluster.HasRoom h → framesIn e.strides h = [event.frame]
  reached : e.stage = .inr (.ok ()) → ∀ h, s.Listens client h →
    framesIn e.strides h = [event.frame] ∨
      framesIn e.strides h = [] ∧ (s.respond r).1.cluster.isLive h = false
  others : ∀ h other, s.cluster.clientAt h = some other → other ≠ client →
    framesIn e.strides h = []
  accepted : (∀ h, s.Listens client h → s.cluster.HasRoom h) →
    (s.respond r).2.map (·.status) = some 202

theorem exists_answers {x : Cluster.Server} (horder : InOrder place x s.cluster)
    (hserves : Serves s) (hpublishes : PublishesTo client r) (hne : client ≠ "")
    (hrequest : PublishRequest.ofRequest r.headers r.body = .ok event) :
    ∃ e, Answers s client event r e := by
  have hjournal := hserves.journal x horder.server
  obtain ⟨hleft, hstatus, -⟩ := respond_eq (s := s) (r := r)
    (by rw [hpublishes.method]; decide) (by rw [hpublishes.method]; decide)
  rw [answerPlain_of_publishes hpublishes hne] at hleft hstatus
  obtain ⟨n, e₁, hn, hstraight, hframes, hend₁⟩ :=
    publicize_straight horder hjournal (some client) event
  have hbound : n + 2 ≤ runBound := Nat.le_trans (by omega : n + 2 ≤ 5) (by decide)
  obtain ⟨e, hrun, hnever, hworld, hanswer⟩ :=
    exists_published hserves hrequest hstraight hbound
  rw [← hleft] at hworld
  rw [hanswer] at hstatus
  have hwhole := (hstraight.after_call (n := n + 1)).run.trans hrun
  have haddressed := addressed_of_run horder hjournal hwhole hnever
  obtain ⟨later, hlater⟩ := hrun.strides_prefix
  refine ⟨e, hwhole, hnever, hworld, hstatus, ?_, ?_,
    fun h other hother hne => haddressed.framesIn_other horder hwhole hother hne, fun hall => ?_⟩
  · rintro h ⟨m, hears, rfl⟩ hroom
    refine (haddressed.once m.handle).resolve_left fun hnone => ?_
    rw [← hlater, framesIn_append, hframes m hears hroom] at hnone
    cases hnone
  · rintro hend h ⟨m, hears, rfl⟩
    -- The connections are looked up in the steps that do not wait.
    obtain ⟨t, hsecond, hbefore⟩ := publicize_second horder.server hjournal hstraight
    obtain ⟨t', hsecond', hreached⟩ := haddressed.reached hend
    rw [← hlater, List.getElem?_append_left (List.getElem?_eq_some_iff.mp hsecond).1] at hsecond'
    obtain rfl := Option.some.inj (hsecond.symm.trans hsecond')
    rw [hworld]
    exact hreached m (hbefore ▸ hears)
  · have hended := (hrun.ended (hend₁ fun m hears => hall m.handle ⟨m, hears, rfl⟩)).1
    rw [hstatus, hended]
    rfl

/-! ## Names -/

/-- Whatever the name of a client is, requests can name it, and all agree on the name. A stream that
is opened for the client is registered under the name, and stays so until it is told to end. An
event that is published to the name goes at once to every connection of the client that has room, to
each of the others unless it dies of it, to none of them twice, and to no connection of any other
client. -/
theorem events_reach_named_client (hnamed : Named client)
    (hstarts : Starts s₀) (hrun : Run s₀ s) (hserves : Serves s) :
    (∀ headers body, (∀ h ∈ headers, lowerCase h.name ≠ ClientIdentity.headerName) →
      OpensFor client ⟨"GET", streamTarget client, headers, body⟩) ∧
    (∀ headers body, PublishesTo client ⟨"POST", eventsTarget client, headers, body⟩) ∧
    (∀ r, OpensFor client r → s.clientOf r = .ok (s, client) ∧
      (OpenNone s.machine.tasks →
        (∀ x ∈ s.cluster.connections, x.id ≠ ⟨generated s.nextName⟩) →
        Admits s.cluster → Opens s client r)) ∧
    (∀ id lastEventId s', (∀ x ∈ s.cluster.connections, x.id ≠ id) →
      Run ((s.connect id client lastEventId).1.begin (s.connect id client lastEventId).2) s' →
      Belongs s' client s.cluster.connections.length) ∧
    (∀ event e, Errand.Run (publicize place) (Around place)
        (Errand.call (publicize place) s.cluster false (.ofEvent (some client) event)) e →
      e.cancelled = false → Addressed place client event e) ∧
    ∀ r event, PublishesTo client r → PublishRequest.ofRequest r.headers r.body = .ok event →
      ∃ e, Answers s client event r e := by
  have hinv := Run.inv hrun hstarts.inv
  obtain ⟨x, hx⟩ := Option.isSome_iff_exists.mp hinv.server
  have horder := inOrder_of_run hstarts hrun hx
  have hjournal := hserves.journal x hx
  refine ⟨fun headers body hheaders => opensFor_streamTarget client body hheaders,
    publishesTo_eventsTarget client, fun r hopens => ?_, ?_, ?_, ?_⟩
  · refine ⟨clientOf_of_opens hopens hnamed hserves.resolver, fun hnone hid hadmits => ?_⟩
    exact opens_of_request hinv hnone hid hadmits hserves hopens hnamed
  · exact fun id lastEventId s' hid hrun' => belongs_of_connect hinv hid lastEventId hrun'
  · exact fun event e hrun' hnever => addressed_of_run horder hjournal hrun' hnever
  · exact fun r event hpublishes hrequest =>
      exists_answers horder hserves hpublishes hnamed.1 hrequest

def enter (s : Server) (id : ConnectionId) (client : ClientId) : Server :=
  let (s', t) := s.connect id client none
  (s'.begin t).stepTask true s.machine.tasks.length

theorem run_enter {id : ConnectionId} (hid : ∀ x ∈ s.machine.cluster.connections, x.id ≠ id)
    (client : ClientId) : Run s (s.enter id client) :=
  (Relation.ReflTransGen.single (.connect s id client none hid)).tail (.task _ true _)

/-- A name that means something else wherever it is not encoded. -/
def awkward : ClientId := "a+b/ é&=%"

def roomy : Server := { lone with settings := {} }

/-- Two streams are open under the name, and one under another. -/
def attended : Server :=
  let s := ((roomy.enter ⟨"1"⟩ awkward).enter ⟨"2"⟩ "a").enter ⟨"3"⟩ awkward
  { s with machine := { s.machine with tasks := [] } }

theorem run_attended : Run roomy attended := by
  have hentered :
      Run roomy (((roomy.enter ⟨"1"⟩ awkward).enter ⟨"2"⟩ "a").enter ⟨"3"⟩ awkward) :=
    ((run_enter (by decide +kernel) awkward).trans (run_enter (by decide +kernel) "a")).trans
      (run_enter (by decide +kernel) awkward)
  refine hentered.tail (.forget _ [] (fun t ht => absurd ht List.not_mem_nil) fun t ht hlive => ?_)
  have hended : ∀ t ∈ (((roomy.enter ⟨"1"⟩ awkward).enter ⟨"2"⟩ "a").enter ⟨"3"⟩
      awkward).machine.tasks, t.outcome.isSome = true := by decide +kernel
  have hended := hended t ht
  rw [hlive] at hended
  cases hended

theorem members_attended : attended.registry.members =
    [⟨⟨"1"⟩, awkward, 0⟩, ⟨⟨"2"⟩, "a", 1⟩, ⟨⟨"3"⟩, awkward, 2⟩] := by
  decide +kernel

theorem listens_attended {h : Nat} : attended.Listens awkward h ↔ h = 0 ∨ h = 2 := by
  constructor
  · rintro ⟨m, hears, rfl⟩
    have hm : m ∈ attended.registry.members := hears.1
    have hclient : m.client = awkward := hears.2.1 awkward rfl
    rw [members_attended] at hm
    simp only [List.mem_cons, List.not_mem_nil, or_false] at hm
    obtain rfl | rfl | rfl := hm
    · exact .inl rfl
    · exact absurd hclient (by decide)
    · exact .inr rfl
  · have hlistens (m : Member) (hm : m ∈ attended.registry.members)
      (hclient : m.client = awkward)
        (hlive : attended.cluster.isLive m.handle = true) : attended.Listens awkward m.handle :=
      ⟨m, ⟨hm, fun client hsome => hclient.trans (Option.some.inj hsome), hlive⟩, rfl⟩
    rintro (rfl | rfl)
    · exact hlistens ⟨⟨"1"⟩, awkward, 0⟩ (by rw [members_attended]; simp) rfl
        (by decide +kernel)
    · exact hlistens ⟨⟨"3"⟩, awkward, 2⟩ (by rw [members_attended]; simp) rfl
        (by decide +kernel)

def summons : Request :=
  ⟨"POST", eventsTarget awkward,
    [⟨"content-type", Text.Utf8.encode "application/json".toList⟩],
    Text.Utf8.encode "\x7b\"event\":\"call\"\x7d".toList⟩

/-- A third stream opens under the name, and what is published to the name goes to the two that
were open, but not to the one of the other client. -/
theorem events_reach_named_client_awkward :
    Opens attended awkward ⟨"GET", streamTarget awkward, [], []⟩ ∧
    (attended.respond summons).2.map (·.status) = some 202 ∧
    ∃ event e, Answers attended awkward event summons e ∧
      event.frame = "event: call\ndata: null\n\n" ∧ framesIn e.strides 0 = [event.frame] ∧
      framesIn e.strides 1 = [] ∧ framesIn e.strides 2 = [event.frame] := by
  obtain ⟨-, -, -, -, -, htrimmed⟩ :=
    Text.trim_eq_iff.mp (show Text.trim awkward = awkward by decide +kernel)
  have hnamed : Named awkward := ⟨by decide, htrimmed⟩
  have hstarts : Starts roomy := ⟨⟨_, rfl, rfl⟩, rfl, rfl, rfl⟩
  have hserver : attended.cluster.server? place =
    some (attended.cluster.servers.headD { id := ⟨""⟩ }) := rfl
  have hserves : Serves attended := by
    refine ⟨rfl, rfl, rfl, rfl, fun x hx => ?_⟩
    obtain rfl := Option.some.inj (hserver.symm.trans hx)
    rfl
  have hadmits : Admits attended.cluster := by
    intro x hx
    obtain rfl := Option.some.inj (hserver.symm.trans hx)
    exact .inl rfl
  have hid : ∀ x ∈ attended.cluster.connections,
      x.id ≠ ⟨generated attended.nextName⟩ := by
    have hshort : ∀ x ∈ attended.cluster.connections, isGenerated x.id.text = false := by
      decide +kernel
    intro x hx hsame
    have hshort := hshort x hx
    rw [hsame, isGenerated_generated] at hshort
    cases hshort
  obtain ⟨hquery, hpath, hopening, -, -, hpublishing⟩ :=
    events_reach_named_client hnamed hstarts run_attended hserves
  have hnone : OpenNone attended.machine.tasks := fun t ht => absurd ht List.not_mem_nil
  refine ⟨(hopening _ (hquery [] [] fun h hh => absurd hh List.not_mem_nil)).2 hnone hid hadmits,
    ?_⟩
  have hread : (PublishRequest.ofRequest summons.headers summons.body).toOption.any
      (fun event => event.frame = "event: call\ndata: null\n\n") = true := by decide +kernel
  cases hrequest : PublishRequest.ofRequest summons.headers summons.body with
  | error response =>
    rw [hrequest] at hread
    cases hread
  | ok event =>
    rw [hrequest] at hread
    obtain ⟨e, hanswers⟩ := hpublishing summons event (hpath _ _) hrequest
    have hroom (h : Nat) (hh : attended.Listens awkward h) : attended.cluster.HasRoom h := by
      obtain rfl | rfl := listens_attended.mp hh <;>
        exact ⟨_, _, rfl, rfl, rfl, ⟨rfl, rfl, rfl, rfl, by decide⟩⟩
    have hframes (h : Nat) (hh : attended.Listens awkward h) :
        framesIn e.strides h = [event.frame] := hanswers.room h hh (hroom h hh)
    exact ⟨hanswers.accepted hroom, event, e, hanswers, of_decide_eq_true hread,
      hframes 0 (listens_attended.mpr (.inl rfl)),
      hanswers.others 1 "a" (by decide +kernel) (by decide),
      hframes 2 (listens_attended.mpr (.inr rfl))⟩

end Server

end EventHub.Web
