import EventHub.Proofs.Cluster.Registrations
import EventHub.Proofs.Cluster.Rounds
/-!
# What others do meanwhile

While one call on a server is under way, other calls write to the same connections, connections
come and go, and the store is in trouble or is not. A call relies on little of that: writers hand
out their turns properly, a dead connection stays dead, the tables of the registry agree, and the
server is still the same. Every step of every activity keeps to it.
-/

namespace EventHub

namespace Cluster

variable {c c' c'' : Cluster} {s i : Nat} {cancelled stopFirst : Bool}

def Server.face (x : Server) : ServerId × Option Sharing := (x.id, x.sharing)

/-- The server `s` stays what it is, and its tables go on agreeing. -/
structure Steady (s : Nat) (c c' : Cluster) : Prop where
  agrees : (c.registry s).Agrees → (c'.registry s).Agrees
  face : (c'.server? s).map Server.face = (c.server? s).map Server.face

/-- What others may do while a call on the server `s` is under way. -/
structure Amid (s : Nat) (c c' : Cluster) : Prop extends Steady s c c' where
  onward : Onward c c'

theorem Steady.refl (s : Nat) (c : Cluster) : Steady s c c := ⟨fun h => h, rfl⟩

theorem Steady.trans (hsteady : Steady s c c') (hsteady' : Steady s c' c'') : Steady s c c'' :=
  ⟨hsteady'.agrees ∘ hsteady.agrees, hsteady'.face.trans hsteady.face⟩

theorem Steady.of_servers (hservers : c'.servers = c.servers) : Steady s c c' := by
  constructor
  · rw [registry, registry, server?, server?, hservers]
    exact fun h => h
  · rw [server?, server?, hservers]

theorem Amid.refl (s : Nat) (c : Cluster) : Amid s c c := ⟨.refl s c, .refl c⟩

theorem Steady.exists_after {server : Server} (hsteady : Steady s c c')
    (hserver : c.server? s = some server) :
    ∃ server', c'.server? s = some server' ∧ server'.id = server.id ∧
      server'.sharing = server.sharing := by
  have hface := hsteady.face
  rw [hserver, Option.map_some, Option.map_eq_some_iff] at hface
  obtain ⟨server', hserver', hface⟩ := hface
  rw [Server.face, Server.face, Prod.mk.injEq] at hface
  exact ⟨server', hserver', hface⟩

/-! ## Servers -/

theorem Quiet.registry_eq (hquiet : Quiet c c') (s : Nat) : c'.registry s = c.registry s := by
  have hregistry (c : Cluster) :
      c.registry s = (((c.server? s).map Server.part).map (·.2.2)).getD {} := by
    rw [registry, Option.map_map]
    rfl
  rw [hregistry, hquiet.server?_map_part, ← hregistry]

theorem Quiet.steady (hquiet : Quiet c c') (s : Nat) : Steady s c c' := by
  refine ⟨fun h => hquiet.registry_eq s ▸ h, ?_⟩
  have hface (c : Cluster) : (c.server? s).map Server.face =
      ((c.server? s).map Server.part).map fun p => (p.1, p.2.1) := by
    rw [Option.map_map]
    rfl
  rw [hface, hquiet.server?_map_part, ← hface]

theorem steady_setRegistry {r : Registry} (hr : (c.registry i).Agrees → r.Agrees) :
    Steady s c (c.setRegistry i r) := by
  constructor
  · cases hserver : c.server? i with
    | none =>
      have hsame : c.setRegistry i r = c := by
        rw [setRegistry, modifyServer,
          List.modify_eq_self (List.getElem?_eq_none_iff.mp hserver)]
      rw [hsame]
      exact fun h => h
    | some server =>
      rw [registry_setRegistry hserver]
      split
      · next hi => exact hi ▸ hr
      · exact fun h => h
  · rw [setRegistry, server?_modifyServer]
    split
    · rw [Option.map_map]
      rfl
    · rfl

theorem steady_enrol (h : Nat) : Steady s c (c.enrol i h) := by
  unfold enrol
  split
  · exact .refl s c
  · next m _ => exact steady_setRegistry fun hagrees => hagrees.insert m

theorem CallStep.servers_eq {call : Store.Call}
    {p : Cluster × Progress StoreWait (Except Error Nat)} (hstep : CallStep c call p) :
    p.1.servers = c.servers := by
  cases hstep <;> rfl

theorem steady_stepRemoval (r : Removal) : Steady s c (c.stepRemoval i r).1 := by
  cases r with
  | fresh id =>
    simp only [stepRemoval]
    cases hserver : c.server? i with
    | none => exact .refl s c
    | some server =>
      dsimp only
      split
      · exact .refl s c
      · next r m hr =>
        have htake : Steady s c (c.setRegistry i r) := steady_setRegistry fun hagrees => by
          rw [Cluster.registry_eq hserver] at hagrees
          have htaken := hagrees.take id
          rwa [hr] at htaken
        split <;> exact htake
  | unregistering id w =>
    simp only [stepRemoval]
    cases hserver : c.server? i with
    | none => exact .refl s c
    | some server =>
      exact .of_servers (stepCall_step c (.unregister server.id id) w).servers_eq

theorem Removes.steady {before after : Option Removal}
    (hremoves : Removes i c before (c', after)) : Steady s c c' := by
  cases hremoves with
  | quiet hquiet hfresh => exact hquiet.steady s
  | step r => exact steady_stepRemoval r

theorem steady_stepAdd (h : Nat) (w : StoreWait) :
    Steady s c (c.stepAdd cancelled i h w).1 := by
  unfold stepAdd
  split
  · exact .refl s c
  · split
    · next server x hserver hx =>
      split
      · exact steady_enrol h
      · next sharing hsharing =>
        have hcall :=
          (stepCall_step c (.register (recordOf server.id x) sharing.lifetime) w).servers_eq
        generalize c.stepCall (.register (recordOf server.id x) sharing.lifetime) w = p at hcall
        obtain ⟨c', _ | w' | ⟨e | n⟩⟩ := p
        · exact .of_servers hcall
        · exact .of_servers hcall
        · exact .of_servers hcall
        · exact (Steady.of_servers hcall).trans (steady_enrol h)
    · exact .refl s c

/-! ## Connections -/

theorem onward_stepWrite (h : Nat) (frame : String) (w : Option Writing) :
    Onward c (Activity.stepWrite c h frame w).1 := by
  unfold Activity.stepWrite
  split
  · exact .refl c
  · next x hx =>
    exact onward_setConnection hx (x.later_stepWrite c.now frame w)
      (x.moves_stepWrite c.now frame w).tidy

theorem onward_stepSlots (slots : List Slot) : Onward c (c.stepSlots cancelled slots).1 :=
  stepSlots_eq cancelled slots c ▸ onward_pollAll ((lawful_slotKind "").onward cancelled) slots c

theorem onward_stepBeats (beats : List Beat) : Onward c (c.stepBeats cancelled beats).1 :=
  stepBeats_eq cancelled beats c ▸ onward_pollAll (lawful_beatKind.onward cancelled) beats c

theorem onward_abandonSlots (slots : List Slot) (c : Cluster) :
    Onward c (c.abandonSlots slots) := by
  induction slots generalizing c with
  | nil => exact .refl c
  | cons slot rest ih =>
    cases slot with
    | ended h r => exact ih c
    | sending s => exact (onward_abandonSend c s).trans (ih _)

theorem onward_stepAdd (h : Nat) (w : StoreWait) :
    Onward c (c.stepAdd cancelled i h w).1 := by
  have henrol (c : Cluster) : Onward c (c.enrol i h) := by
    unfold enrol
    split <;> exact .of_connections rfl
  unfold stepAdd
  split
  · exact .refl c
  · split
    · next server x hserver hx =>
      split
      · exact henrol c
      · next sharing hsharing =>
        have hcall :=
          (stepCall_step c (.register (recordOf server.id x) sharing.lifetime) w).connections_eq
        generalize c.stepCall (.register (recordOf server.id x) sharing.lifetime) w = p at hcall
        obtain ⟨c', _ | w' | ⟨e | n⟩⟩ := p
        · exact .of_connections hcall
        · exact .of_connections hcall
        · exact .of_connections hcall
        · exact (Onward.of_connections hcall).trans (henrol c')
    · exact .refl c

theorem onward_stepRemoval (r : Removal) : Onward c (c.stepRemoval i r).1 :=
  .of_connections (connections_stepRemoval c i r)

theorem connections_stepRemovals (c : Cluster) (i : Nat) (r : Removals) :
    (c.stepRemovals i r).1.connections = c.connections := by
  obtain ⟨_ | removal, rest⟩ := r
  · cases rest <;> rfl
  · have hremoval := connections_stepRemoval c i removal
    simp only [stepRemovals]
    generalize c.stepRemoval i removal = p at hremoval
    obtain ⟨c', _ | removal' | result⟩ := p <;> exact hremoval

theorem onward_stepRemovals (r : Removals) : Onward c (c.stepRemovals i r).1 :=
  .of_connections (connections_stepRemovals c i r)

theorem onward_stepDelivery (d : Delivery) : Onward c (c.stepDelivery cancelled i d).1 := by
  cases d with
  | fresh target event =>
    rw [stepDelivery]
    split
    · exact .refl c
    · dsimp only
      split <;> exact .refl c
  | sending slots =>
    rw [stepDelivery]
    split
    · exact onward_abandonSlots slots c
    · have hslots : Onward c (c.stepSlots cancelled slots).1 := onward_stepSlots slots
      generalize c.stepSlots cancelled slots = p at hslots
      obtain ⟨c', slots', moved⟩ := p
      dsimp only
      split
      · split <;> exact hslots
      · split <;> exact hslots
  | pruning r => exact onward_stepRemovals r

theorem onward_stepLocal (p : LocalPublish) : Onward c (c.stepLocal cancelled i p).1 := by
  cases p with
  | fresh target event =>
    rw [stepLocal]
    split
    · exact .of_connections rfl
    · exact .refl c
  | delivering d => exact onward_stepDelivery d

theorem onward_stepPublication (p : Publication) :
    Onward c (c.stepPublication cancelled i p).1 := by
  cases p with
  | publishing target event q =>
    have hlocal : Onward c (c.stepLocal cancelled i q).1 := onward_stepLocal q
    rw [stepPublication]
    generalize c.stepLocal cancelled i q = step at hlocal
    obtain ⟨c', _ | q' | ⟨e | _⟩⟩ := step
    · exact hlocal
    · exact hlocal
    · exact hlocal
    · dsimp only
      split <;> exact hlocal
  | relaying target event =>
    rw [stepPublication]
    split
    · exact .refl c
    · split
      · exact .refl c
      · exact .of_connections (connections_relay c i _ _)

theorem onward_stepHandling (x : Handling) : Onward c (c.stepHandling cancelled i x).1 := by
  cases x with
  | fresh raw =>
    rw [stepHandling]
    split
    · exact .refl c
    · split <;> exact .refl c
  | publishing p => exact onward_stepLocal p

theorem onward_stepSweep (w : Sweep) : Onward c (c.stepSweep cancelled i w).1 := by
  cases w with
  | fresh =>
    rw [stepSweep]
    split <;> exact .refl c
  | beating beats =>
    have hbeats : Onward c (c.stepBeats cancelled beats).1 := onward_stepBeats beats
    rw [stepSweep]
    generalize c.stepBeats cancelled beats = p at hbeats
    obtain ⟨c', beats', moved⟩ := p
    dsimp only
    split
    · exact hbeats
    · split <;> exact hbeats
  | evicting count r => exact onward_stepRemovals r

theorem onward_stepHeartbeat (l : Loop Sweep) :
    Onward c (c.stepHeartbeat cancelled stopFirst i l).1 := by
  cases l with
  | starting period => exact .refl c
  | waiting t =>
    simp only [stepHeartbeat, stepLoop]
    split
    · exact .refl c
    · split <;> exact .refl c
  | working t w =>
    have hsweep : Onward c (c.stepSweep cancelled i w).1 := onward_stepSweep w
    simp only [stepHeartbeat, stepLoop]
    generalize c.stepSweep cancelled i w = p at hsweep
    obtain ⟨c', _ | w' | n⟩ := p <;> exact hsweep

theorem onward_stepSubscriber (x : Subscriber) :
    Onward c (c.stepSubscriber cancelled stopFirst i x).1 := by
  cases x with
  | subscribing pause =>
    have hsubscribe := connections_subscribe c i
    rw [stepSubscriber]
    split
    · exact .refl c
    · generalize c.subscribe i = p at hsubscribe
      obtain ⟨c', _ | feed⟩ := p <;> exact .of_connections hsubscribe
  | resting time pause =>
    rw [stepSubscriber]
    split
    · exact .refl c
    · split <;> exact .refl c
  | listening feed =>
    rw [stepSubscriber]
    split
    · exact .refl c
    · split
      · split
        · exact .refl c
        · split <;> exact .refl c
      all_goals exact .refl c
  | handling feed h =>
    have hhandling : Onward c (c.stepHandling cancelled i h).1 := onward_stepHandling h
    rw [stepSubscriber]
    generalize c.stepHandling cancelled i h = p at hhandling
    obtain ⟨c', _ | h' | ⟨e | _⟩⟩ := p
    · exact hhandling
    · exact hhandling
    · dsimp only
      split <;> exact hhandling
    · exact hhandling

/-! ## Steps -/

/-- Whatever other activities do, a call may rely on it. -/
theorem amid_step (s : Nat) (a : Activity) : Amid s c (a.step c cancelled stopFirst).1 := by
  cases a with
  | send x => exact ⟨(quiet_stepSend c cancelled x).steady s, onward_stepSend c cancelled x⟩
  | write h frame w =>
    exact ⟨(quiet_stepWrite c h frame w).steady s, onward_stepWrite h frame w⟩
  | add i h w => exact ⟨steady_stepAdd h w, onward_stepAdd h w⟩
  | removal i r => exact ⟨steady_stepRemoval r, onward_stepRemoval r⟩
  | removals i r => exact ⟨(removes_stepRemovals c i r).steady, onward_stepRemovals r⟩
  | count i w =>
    exact ⟨(quiet_stepCount c i w).steady s, .of_connections (connections_stepCount c i w)⟩
  | refresh i r =>
    exact ⟨(quiet_stepRefresh c i r).steady s, .of_connections (connections_stepRefresh c i r)⟩
  | publication i p =>
    exact ⟨(removes_stepPublication c cancelled i p).steady, onward_stepPublication p⟩
  | handling i x => exact ⟨(removes_stepHandling c cancelled i x).steady, onward_stepHandling x⟩
  | sweep i w => exact ⟨(removes_stepSweep c cancelled i w).steady, onward_stepSweep w⟩
  | heartbeat i l =>
    exact ⟨(removes_stepHeartbeat c cancelled stopFirst i l).steady, onward_stepHeartbeat l⟩
  | refreshing i l =>
    exact ⟨(quiet_stepRefreshing c cancelled stopFirst i l).steady s,
      .of_connections (connections_stepRefreshing c cancelled stopFirst i l)⟩
  | subscriber i x =>
    exact ⟨(removes_stepSubscriber c cancelled stopFirst i x).steady, onward_stepSubscriber x⟩
  | sleep time => exact .refl s c

theorem amid_clock (s : Nat) (c : Cluster) (time : Nat) : Amid s c { c with now := time } :=
  ⟨.of_servers rfl, .of_connections rfl⟩

end Cluster

end EventHub
