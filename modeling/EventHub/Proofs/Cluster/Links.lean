import EventHub.Proofs.Cluster.Surroundings
/-!
# Steps and the relay

Sending, removing and delivering are nothing that the relay hears of: only the publication of an
event hands it something, and only a subscription asks it for something. A server goes on to speak
under the same name and on the same channels, whatever is done, and its connections stay where its
registry says.
-/

namespace EventHub

namespace Cluster

variable {c c' c'' : Cluster} {s i : Nat} {cancelled stopFirst : Bool} {β : Type}

def Server.outward (x : Server) : ServerId × Settings.Channels × Link :=
  (x.id, x.channels, x.link)

def Server.inward (x : Server) : Server := { x with link := .none }

/-- The name and the channels under which a server speaks, and whether it does. -/
def Server.voice (x : Server) : ServerId × Settings.Channels × Bool :=
  (x.id, x.channels, x.relays)

theorem map_modifyServer {f : Server → Server} {g : Server → β} (hf : ∀ x, g (f x) = g x) :
    (c.modifyServer s f).servers.map g = c.servers.map g := by
  refine List.ext_getElem? fun j => ?_
  rw [modifyServer, List.getElem?_map, List.getElem?_map, List.getElem?_modify]
  cases c.servers[j]? with
  | none => rfl
  | some x =>
    split
    · exact congrArg some (hf x)
    · rfl

/-! ## Steps that the relay does not hear of -/

/-- A step that the relay hears nothing of. -/
structure Unrelayed (c c' : Cluster) : Prop where
  ring : c'.ring = c.ring
  servers : c'.servers.map Server.outward = c.servers.map Server.outward

theorem Unrelayed.refl (c : Cluster) : Unrelayed c c := ⟨rfl, rfl⟩

theorem ConnectionsOnly.unrelayed (honly : ConnectionsOnly c c') : Unrelayed c c' :=
  ⟨by rw [honly], by rw [honly]⟩

theorem unrelayed_modifyServer {f : Server → Server} (hf : ∀ x, (f x).outward = x.outward) :
    Unrelayed c (c.modifyServer i f) :=
  ⟨rfl, map_modifyServer hf⟩

theorem CallStep.unrelayed {call : Store.Call}
    {p : Cluster × Progress StoreWait (Except Error Nat)} (hstep : CallStep c call p) :
    Unrelayed c p.1 := by
  cases hstep <;> exact ⟨rfl, rfl⟩

theorem unrelayed_stepRemoval (r : Removal) : Unrelayed c (c.stepRemoval i r).1 := by
  cases r with
  | fresh id =>
    simp only [stepRemoval]
    cases hserver : c.server? i with
    | none => exact .refl c
    | some server =>
      dsimp only
      split
      · exact .refl c
      · next r m hr =>
        have htake : Unrelayed c (c.setRegistry i r) := unrelayed_modifyServer fun _ => rfl
        split <;> exact htake
  | unregistering id w =>
    simp only [stepRemoval]
    cases hserver : c.server? i with
    | none => exact .refl c
    | some server => exact (stepCall_step c (.unregister server.id id) w).unrelayed

theorem unrelayed_stepRemovals (r : Removals) : Unrelayed c (c.stepRemovals i r).1 := by
  obtain ⟨_ | removal, rest⟩ := r
  · cases rest <;> exact .refl c
  · have hremoval := unrelayed_stepRemoval (c := c) (i := i) removal
    simp only [stepRemovals]
    generalize c.stepRemoval i removal = p at hremoval
    obtain ⟨c', _ | removal' | result⟩ := p <;> exact hremoval

theorem only_pollAll {ε : Type} {poll : Cluster → ε → Cluster × ε × Bool}
    (hpoll : ∀ c x, ConnectionsOnly c (poll c x).1) (entries : List ε) (c : Cluster) :
    ConnectionsOnly c (pollAll poll c entries).1 := by
  induction entries generalizing c with
  | nil => exact .refl c
  | cons x rest ih => exact (hpoll c x).trans (ih _)

theorem unrelayed_stepDelivery (d : Delivery) :
    Unrelayed c (c.stepDelivery cancelled i d).1 := by
  cases d with
  | fresh target event =>
    rw [stepDelivery]
    split
    · exact .refl c
    · dsimp only
      split <;> exact .refl c
  | sending slots =>
    rw [stepDelivery]
    split
    · rw [abandonSlots_eq]
      exact (only_pollAll private_dropSlot.only slots c).unrelayed
    · have hslots : Unrelayed c (c.stepSlots cancelled slots).1 := by
        rw [stepSlots_eq]
        exact (only_pollAll (private_pollSlot cancelled).only slots c).unrelayed
      generalize c.stepSlots cancelled slots = p at hslots
      obtain ⟨c', slots', moved⟩ := p
      dsimp only
      split
      · split <;> exact hslots
      · split <;> exact hslots
  | pruning r => exact unrelayed_stepRemovals r

theorem unrelayed_stepLocal (p : LocalPublish) : Unrelayed c (c.stepLocal cancelled i p).1 := by
  cases p with
  | fresh target event =>
    rw [stepLocal]
    split
    · exact unrelayed_modifyServer fun _ => rfl
    · exact .refl c
  | delivering d => exact unrelayed_stepDelivery d

theorem unrelayed_stepHandling (x : Handling) :
    Unrelayed c (c.stepHandling cancelled i x).1 := by
  cases x with
  | fresh raw =>
    rw [stepHandling]
    split
    · exact .refl c
    · split <;> exact .refl c
  | publishing p => exact unrelayed_stepLocal p

theorem unrelayed_stepSweep (w : Sweep) : Unrelayed c (c.stepSweep cancelled i w).1 := by
  cases w with
  | fresh =>
    rw [stepSweep]
    split <;> exact .refl c
  | beating beats =>
    have hbeats : Unrelayed c (c.stepBeats cancelled beats).1 := by
      rw [stepBeats_eq]
      exact (only_pollAll (private_stepBeat cancelled).only beats c).unrelayed
    rw [stepSweep]
    generalize c.stepBeats cancelled beats = p at hbeats
    obtain ⟨c', beats', moved⟩ := p
    dsimp only
    split
    · exact hbeats
    · split <;> exact hbeats
  | evicting count r => exact unrelayed_stepRemovals r

theorem unrelayed_stepHeartbeat (l : Loop Sweep) :
    Unrelayed c (c.stepHeartbeat cancelled stopFirst i l).1 := by
  cases l with
  | starting period => exact .refl c
  | waiting t =>
    simp only [stepHeartbeat, stepLoop]
    split
    · exact .refl c
    · split <;> exact .refl c
  | working t w =>
    have hsweep : Unrelayed c (c.stepSweep cancelled i w).1 := unrelayed_stepSweep w
    simp only [stepHeartbeat, stepLoop]
    generalize c.stepSweep cancelled i w = p at hsweep
    obtain ⟨c', _ | w' | n⟩ := p <;> exact hsweep

theorem unrelayed_enrol (h : Nat) : Unrelayed c (c.enrol i h) := by
  unfold enrol
  split
  · exact .refl c
  · exact unrelayed_modifyServer fun _ => rfl

theorem unrelayed_stepAdd (h : Nat) (w : StoreWait) :
    Unrelayed c (c.stepAdd cancelled i h w).1 := by
  unfold stepAdd
  split
  · exact .refl c
  · split
    · next server x hserver hx =>
      split
      · exact unrelayed_enrol h
      · next sharing hsharing =>
        have hcall :=
          (stepCall_step c (.register (recordOf server.id x) sharing.lifetime) w).unrelayed
        generalize c.stepCall (.register (recordOf server.id x) sharing.lifetime) w = p at hcall
        obtain ⟨c', _ | w' | ⟨e | n⟩⟩ := p
        · exact hcall
        · exact hcall
        · exact hcall
        · have henrol := unrelayed_enrol (c := c') (i := i) h
          exact ⟨henrol.ring.trans hcall.ring, henrol.servers.trans hcall.servers⟩
    · exact .refl c

theorem unrelayed_stepWrite (h : Nat) (frame : String) (w : Option Writing) :
    Unrelayed c (Activity.stepWrite c h frame w).1 := by
  unfold Activity.stepWrite
  split <;> exact ⟨rfl, rfl⟩

theorem unrelayed_stepCount (w : StoreWait) : Unrelayed c (c.stepCount i w).1 := by
  unfold stepCount
  split
  · exact .refl c
  · exact (stepCall_step c .count w).unrelayed

theorem unrelayed_stepRefresh (r : Refresh) : Unrelayed c (c.stepRefresh i r).1 := by
  unfold stepRefresh
  split
  · exact .refl c
  · split
    · exact .refl c
    · exact (stepCall_step c _ r.wait).unrelayed

theorem unrelayed_stepRefreshing (l : Loop Refresh) :
    Unrelayed c (c.stepRefreshing cancelled stopFirst i l).1 := by
  cases l with
  | starting period => exact .refl c
  | waiting t =>
    simp only [stepRefreshing, stepLoop]
    split
    · exact .refl c
    · split <;> exact .refl c
  | working t r =>
    have hrefresh : Unrelayed c (c.stepRefresh i r).1 := unrelayed_stepRefresh r
    simp only [stepRefreshing, stepLoop]
    generalize c.stepRefresh i r = p at hrefresh
    obtain ⟨c', _ | r' | result⟩ := p <;> exact hrefresh

/-! ## Steps that the relay hears of -/

/-- A step that changes nothing but what the relay of a server has. -/
structure OnlyRelays (c c' : Cluster) : Prop where
  only : c' = { c with ring := c'.ring, servers := c'.servers }
  servers : c'.servers.map Server.inward = c.servers.map Server.inward

theorem onlyRelays_relay (c : Cluster) (s : Nat) (channel message : String) :
    OnlyRelays c (c.relay s channel message).1 := by
  unfold relay
  split
  · exact ⟨rfl, rfl⟩
  · exact ⟨rfl, rfl⟩
  · exact ⟨rfl, rfl⟩
  · exact ⟨rfl, map_modifyServer fun _ => rfl⟩

/-- The server `s` goes on to speak as before. -/
def SameVoice (s : Nat) (c c' : Cluster) : Prop :=
  (c'.server? s).map Server.voice = (c.server? s).map Server.voice

theorem Unrelayed.sameVoice (hunrelayed : Unrelayed c c') (s : Nat) : SameVoice s c c' := by
  have hvoice (c : Cluster) : (c.server? s).map Server.voice =
      (c.servers.map Server.outward)[s]?.map fun p => (p.1, p.2.1, decide (p.2.2 ≠ .none)) := by
    rw [server?, List.getElem?_map, Option.map_map]
    rfl
  rw [SameVoice, hvoice, hunrelayed.servers, ← hvoice]

theorem sameVoice_modifyServer {f : Server → Server}
    (hf : ∀ x, c.server? i = some x → (f x).voice = x.voice) :
    SameVoice s c (c.modifyServer i f) := by
  rw [SameVoice, server?_modifyServer]
  split
  · next hi =>
    subst hi
    cases hserver : c.server? i with
    | none => rfl
    | some x => exact congrArg some (hf x hserver)
  · rfl

/-- A relay that follows a script goes on to follow one. -/
theorem sameVoice_script {script script' : Script}
    (hscript : (c.server? i).map Server.link = some (.script script)) :
    SameVoice s c (c.modifyServer i fun x => { x with link := .script script' }) := by
  refine sameVoice_modifyServer fun x hx => ?_
  rw [hx] at hscript
  simp [Server.voice, Server.relays, Option.some.inj hscript]

theorem sameVoice_relay (c : Cluster) (i : Nat) (channel message : String) :
    SameVoice s c (c.relay i channel message).1 := by
  unfold relay
  split
  · rfl
  · rfl
  · rfl
  · next script hscript => exact sameVoice_script hscript

theorem sameVoice_subscribe (c : Cluster) (i : Nat) : SameVoice s c (c.subscribe i).1 := by
  unfold subscribe
  split
  · rfl
  · next server hserver =>
    dsimp only
    split
    · rfl
    · rfl
    · next script hscript =>
      have hlink : (c.server? i).map Server.link = some (.script script) := by
        rw [hserver, Option.map_some, hscript]
      exact sameVoice_script hlink

theorem sameVoice_stepPublication (p : Publication) :
    SameVoice s c (c.stepPublication cancelled i p).1 := by
  cases p with
  | publishing target event q =>
    have hlocal : SameVoice s c (c.stepLocal cancelled i q).1 := (unrelayed_stepLocal q).sameVoice s
    rw [stepPublication]
    generalize c.stepLocal cancelled i q = step at hlocal
    obtain ⟨c', _ | q' | ⟨e | _⟩⟩ := step
    · exact hlocal
    · exact hlocal
    · exact hlocal
    · dsimp only
      split <;> exact hlocal
  | relaying target event =>
    rw [stepPublication]
    split
    · rfl
    · split
      · rfl
      · exact sameVoice_relay c i _ _

theorem sameVoice_stepSubscriber (x : Subscriber) :
    SameVoice s c (c.stepSubscriber cancelled stopFirst i x).1 := by
  cases x with
  | subscribing pause =>
    have hsubscribe := sameVoice_subscribe (s := s) c i
    rw [stepSubscriber]
    split
    · rfl
    · generalize c.subscribe i = p at hsubscribe
      obtain ⟨c', _ | feed⟩ := p <;> exact hsubscribe
  | resting time pause =>
    rw [stepSubscriber]
    split
    · rfl
    · split <;> rfl
  | listening feed =>
    rw [stepSubscriber]
    split
    · rfl
    · split
      · split
        · rfl
        · split <;> rfl
      all_goals rfl
  | handling feed h =>
    have hhandling : SameVoice s c (c.stepHandling cancelled i h).1 :=
      (unrelayed_stepHandling h).sameVoice s
    rw [stepSubscriber]
    generalize c.stepHandling cancelled i h = p at hhandling
    obtain ⟨c', _ | h' | ⟨e | _⟩⟩ := p
    · exact hhandling
    · exact hhandling
    · dsimp only
      split <;> exact hhandling
    · exact hhandling

/-! ## Registries -/

theorem Later.member? (hlater : Later c c') {h : Nat} {m : Member} (hm : c.member? h = some m) :
    c'.member? h = some m := by
  obtain ⟨x, hx, rfl⟩ := Option.map_eq_some_iff.mp hm
  obtain ⟨x', hx', hlater'⟩ := hlater h x hx
  rw [Cluster.member?, hx', Option.map_some, hlater'.id_eq, hlater'.client_eq]

theorem Located.amid (hlocated : Located s c) (hamid : Amid s c c')
    (hmembers : ∀ m ∈ (c'.registry s).members, m ∈ (c.registry s).members) : Located s c' :=
  ⟨hamid.agrees hlocated.agrees, fun m hm =>
    hamid.onward.later.member? (hlocated.member m (hmembers m hm))⟩

theorem members_stepRemoval (hagrees : (c.registry s).Agrees) (r : Removal) :
    ∀ m ∈ ((c.stepRemoval i r).1.registry s).members, m ∈ (c.registry s).members := by
  intro m
  cases r with
  | fresh id =>
    simp only [stepRemoval]
    cases hserver : c.server? i with
    | none => exact fun hm => hm
    | some server =>
      dsimp only
      split
      · exact fun hm => hm
      · next r taken hr =>
        have htake : m ∈ ((c.setRegistry i r).registry s).members →
            m ∈ (c.registry s).members := by
          rw [registry_setRegistry hserver]
          split
          · next hi =>
            subst hi
            rw [registry_eq hserver] at hagrees ⊢
            intro hm
            have htaken : m ∈ (server.registry.take id).1.members := by rwa [hr]
            exact (hagrees.mem_members_take.mp htaken).2
          · exact fun hm => hm
        split <;> exact htake
  | unregistering id w =>
    simp only [stepRemoval]
    cases hserver : c.server? i with
    | none => exact fun hm => hm
    | some server =>
      have hservers := (stepCall_step c (.unregister server.id id) w).servers_eq
      dsimp only
      rw [registry, server?, hservers]
      exact fun hm => hm

theorem Removes.located {before after : Option Removal}
    (hremoves : Removes i c before (c', after)) (hamid : Amid s c c') (hlocated : Located s c) :
    Located s c' := by
  refine hlocated.amid hamid ?_
  cases hremoves with
  | quiet hquiet hfresh =>
    rw [hquiet.registry_eq s]
    exact fun _ hm => hm
  | step r => exact members_stepRemoval hlocated.agrees r

theorem located_enrol (hlocated : Located s c) (h : Nat) : Located s (c.enrol i h) := by
  unfold enrol
  split
  · exact hlocated
  · next m hm =>
    cases hserver : c.server? i with
    | none =>
      have hsame : c.setRegistry i ((c.registry i).insert m) = c := by
        rw [setRegistry, modifyServer, List.modify_eq_self (List.getElem?_eq_none_iff.mp hserver)]
      rwa [hsame]
    | some server =>
      obtain rfl : m.handle = h := by
        obtain ⟨x, _, rfl⟩ := Option.map_eq_some_iff.mp hm
        rfl
      have hregistry := registry_setRegistry hserver ((c.registry i).insert m) s
      split at hregistry
      · next hi =>
        subst hi
        refine ⟨by rw [hregistry]; exact hlocated.agrees.insert m, fun m' hm' => ?_⟩
        rw [hregistry, hlocated.agrees.mem_members_insert] at hm'
        rcases hm' with rfl | ⟨_, hm'⟩
        · exact hm
        · exact hlocated.member m' hm'
      · exact ⟨hregistry ▸ hlocated.agrees,
          fun m' hm' => hlocated.member m' (hregistry ▸ hm')⟩

theorem located_stepAdd (hlocated : Located s c) (h : Nat) (w : StoreWait) :
    Located s (c.stepAdd cancelled i h w).1 := by
  unfold stepAdd
  split
  · exact hlocated
  · split
    · next server x hserver hx =>
      split
      · exact located_enrol hlocated h
      · next sharing hsharing =>
        have hcall := stepCall_step c (.register (recordOf server.id x) sharing.lifetime) w
        have hlocated' : Located s
            (c.stepCall (.register (recordOf server.id x) sharing.lifetime) w).1 := by
          refine hlocated.amid ⟨.of_servers hcall.servers_eq,
            .of_connections hcall.connections_eq⟩
            fun m => ?_
          rw [registry, server?, hcall.servers_eq]
          exact fun hm => hm
        generalize c.stepCall (.register (recordOf server.id x) sharing.lifetime) w = p at hlocated'
        obtain ⟨c', _ | w' | ⟨e | n⟩⟩ := p
        · exact hlocated'
        · exact hlocated'
        · exact hlocated'
        · exact located_enrol hlocated' h
    · exact hlocated

/-! ## What others do -/

/-- What others may do while the server `s` publishes an event that goes to the relay as well. -/
structure Around (s : Nat) (c c' : Cluster) : Prop extends Amid s c c' where
  located : Located s c → Located s c'
  voice : SameVoice s c c'

theorem Quiet.located (hquiet : Quiet c c') (hamid : Amid s c c') (hlocated : Located s c) :
    Located s c' :=
  hlocated.amid hamid fun _ hm => hquiet.registry_eq s ▸ hm

theorem around_clock (s : Nat) (c : Cluster) (time : Nat) : Around s c { c with now := time } :=
  ⟨amid_clock s c time, fun hlocated => ⟨hlocated.agrees, hlocated.member⟩, rfl⟩

/-- Whatever other activities do, a publication may rely on it. -/
theorem around_step (s : Nat) (a : Activity) :
    Around s c (a.step c cancelled stopFirst).1 := by
  have hamid : Amid s c (a.step c cancelled stopFirst).1 := amid_step s a
  refine ⟨hamid, ?_, ?_⟩
  · cases a with
    | send x => exact (quiet_stepSend c cancelled x).located hamid
    | write h frame w => exact (quiet_stepWrite c h frame w).located hamid
    | add i h w => exact fun hlocated => located_stepAdd hlocated h w
    | removal i r =>
      exact fun hlocated => hlocated.amid hamid (members_stepRemoval hlocated.agrees r)
    | removals i r => exact (removes_stepRemovals c i r).located hamid
    | count i w => exact (quiet_stepCount c i w).located hamid
    | refresh i r => exact (quiet_stepRefresh c i r).located hamid
    | publication i p => exact (removes_stepPublication c cancelled i p).located hamid
    | handling i x => exact (removes_stepHandling c cancelled i x).located hamid
    | sweep i w => exact (removes_stepSweep c cancelled i w).located hamid
    | heartbeat i l => exact (removes_stepHeartbeat c cancelled stopFirst i l).located hamid
    | refreshing i l => exact (quiet_stepRefreshing c cancelled stopFirst i l).located hamid
    | subscriber i x => exact (removes_stepSubscriber c cancelled stopFirst i x).located hamid
    | sleep time => exact fun hlocated => hlocated
  · cases a with
    | send x => exact (only_stepSend c cancelled x).unrelayed.sameVoice s
    | write h frame w => exact (unrelayed_stepWrite h frame w).sameVoice s
    | add i h w => exact (unrelayed_stepAdd h w).sameVoice s
    | removal i r => exact (unrelayed_stepRemoval r).sameVoice s
    | removals i r => exact (unrelayed_stepRemovals r).sameVoice s
    | count i w => exact (unrelayed_stepCount w).sameVoice s
    | refresh i r => exact (unrelayed_stepRefresh r).sameVoice s
    | publication i p => exact sameVoice_stepPublication p
    | handling i x => exact (unrelayed_stepHandling x).sameVoice s
    | sweep i w => exact (unrelayed_stepSweep w).sameVoice s
    | heartbeat i l => exact (unrelayed_stepHeartbeat l).sameVoice s
    | refreshing i l => exact (unrelayed_stepRefreshing l).sameVoice s
    | subscriber i x => exact sameVoice_stepSubscriber x
    | sleep time => rfl

end Cluster

end EventHub
