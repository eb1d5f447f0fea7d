import EventHub.Cluster.Machine
import EventHub.Proofs.Cluster.StoreCalls
/-!
# What the store hears nothing of

Sending and relaying, the clock, and whatever else happens to the streams change neither the store
nor what the servers have on it, and a connection keeps its name, its client and the last event that
it asked for.
-/

namespace EventHub

def Connection.label (x : Connection) : ConnectionId × ClientId × Option String :=
  (x.id, x.client, x.lastEventId)

namespace Cluster

def Server.part (x : Server) : ServerId × Option Sharing × Registry :=
  (x.id, x.sharing, x.registry)

/-- A step that the store and the registries hear nothing of. -/
structure Quiet (c c' : Cluster) : Prop where
  store : c'.store = c.store
  servers : c'.servers.map Server.part = c.servers.map Server.part
  connections : ∀ h x, c.connection? h = some x →
    ∃ x', c'.connection? h = some x' ∧ x'.label = x.label

variable {c c' c'' : Cluster}

theorem Quiet.refl (c : Cluster) : Quiet c c := ⟨rfl, rfl, fun _ x hx => ⟨x, hx, rfl⟩⟩

theorem Quiet.trans (hquiet : Quiet c c') (hquiet' : Quiet c' c'') : Quiet c c'' := by
  refine ⟨hquiet'.store.trans hquiet.store, hquiet'.servers.trans hquiet.servers, ?_⟩
  intro h x hx
  obtain ⟨x', hx', hlabel⟩ := hquiet.connections h x hx
  obtain ⟨x'', hx'', hlabel'⟩ := hquiet'.connections h x' hx'
  exact ⟨x'', hx'', hlabel'.trans hlabel⟩

theorem Quiet.of_eq (hstore : c'.store = c.store) (hservers : c'.servers = c.servers)
    (hconnections : c'.connections = c.connections) : Quiet c c' :=
  ⟨hstore, by rw [hservers], fun _ x hx => ⟨x, by rwa [connection?, hconnections], rfl⟩⟩

theorem Quiet.server?_map_part (hquiet : Quiet c c') (s : Nat) :
    (c'.server? s).map Server.part = (c.server? s).map Server.part := by
  rw [server?, server?, ← List.getElem?_map, ← List.getElem?_map, hquiet.servers]

theorem Quiet.exists_before {s : Nat} {server' : Server} (hquiet : Quiet c c')
    (hserver' : c'.server? s = some server') :
    ∃ server, c.server? s = some server ∧ server.id = server'.id ∧
      server.sharing = server'.sharing ∧ server.registry = server'.registry := by
  have hmap := hquiet.server?_map_part s
  rw [hserver', Option.map_some, eq_comm, Option.map_eq_some_iff] at hmap
  obtain ⟨server, hserver, hpart⟩ := hmap
  simp only [Server.part, Prod.mk.injEq] at hpart
  exact ⟨server, hserver, hpart⟩

theorem Quiet.exists_after {s : Nat} {server : Server} (hquiet : Quiet c c')
    (hserver : c.server? s = some server) :
    ∃ server', c'.server? s = some server' ∧ server'.id = server.id := by
  have hmap := hquiet.server?_map_part s
  rw [hserver, Option.map_some, Option.map_eq_some_iff] at hmap
  obtain ⟨server', hserver', hpart⟩ := hmap
  exact ⟨server', hserver', congrArg Prod.fst hpart⟩

theorem quiet_modifyServer (s : Nat) {f : Server → Server} (hf : ∀ x, (f x).part = x.part) :
    Quiet c (c.modifyServer s f) := by
  refine ⟨rfl, ?_, fun _ x hx => ⟨x, hx, rfl⟩⟩
  rw [modifyServer]
  refine List.ext_getElem? fun i => ?_
  rw [List.getElem?_map, List.getElem?_map, List.getElem?_modify]
  cases c.servers[i]? with
  | none => rfl
  | some x =>
    split
    · exact congrArg some (hf x)
    · rfl

theorem quiet_modifyConnection (h : Nat) {f : Connection → Connection}
    (hf : ∀ x, (f x).label = x.label) : Quiet c (c.modifyConnection h f) := by
  refine ⟨rfl, rfl, fun i x hx => ?_⟩
  rw [connection?] at hx
  simp only [connection?, modifyConnection, List.getElem?_modify, hx]
  split
  · exact ⟨f x, rfl, hf x⟩
  · exact ⟨x, rfl, rfl⟩

theorem quiet_setConnection {h : Nat} {x y : Connection} (hx : c.connection? h = some x)
    (hlabel : y.label = x.label) : Quiet c (c.setConnection h y) := by
  refine ⟨rfl, rfl, fun i z hz => ?_⟩
  rw [connection?] at hx hz
  simp only [connection?, setConnection, List.getElem?_set]
  split
  · next hi =>
    subst hi
    rw [hx, Option.some.injEq] at hz
    rw [if_pos (List.getElem?_eq_some_iff.mp hx).1]
    exact ⟨y, rfl, hz ▸ hlabel⟩
  · exact ⟨z, hz, rfl⟩

/-! ## Connections -/

theorem label_finish (x : Connection) (r : Except Error Unit) : (x.finish r).label = x.label := by
  unfold Connection.finish
  split
  · rfl
  · split <;> rfl

theorem label_abandon (x : Connection) (s : Sending) : (x.abandon s).label = x.label := by
  cases s <;> rfl

theorem label_stepSend (x : Connection) (now : Nat) (cancelled : Bool) (frame : String)
    (s : Sending) : (x.stepSend now cancelled frame s).1.label = x.label := by
  cases s with
  | fresh =>
    rw [Connection.stepSend]
    split
    · rfl
    · split
      · rfl
      · split
        · rfl
        · exact label_finish _ _
  | writing w =>
    rw [Connection.stepSend]
    split
    · exact label_abandon x _
    · split
      · rfl
      · exact label_finish _ _

theorem label_stepWrite (x : Connection) (now : Nat) (frame : String) (w : Option Writing) :
    (x.stepWrite now frame w).1.label = x.label := by
  cases w with
  | none => rw [Connection.stepWrite]; split <;> rfl
  | some w => rw [Connection.stepWrite]; split <;> rfl

/-! ## Sending -/

theorem quiet_stepSend (c : Cluster) (cancelled : Bool) (s : Send) :
    Quiet c (c.stepSend cancelled s).1 := by
  unfold stepSend
  split
  · exact Quiet.refl c
  · next x hx => exact quiet_setConnection hx (label_stepSend x _ _ _ _)

theorem quiet_stepWrite (c : Cluster) (h : Nat) (frame : String) (w : Option Writing) :
    Quiet c (Activity.stepWrite c h frame w).1 := by
  unfold Activity.stepWrite
  split
  · exact Quiet.refl c
  · next x hx => exact quiet_setConnection hx (label_stepWrite x _ _ _)

theorem quiet_abandonSlots (slots : List Slot) (c : Cluster) :
    Quiet c (c.abandonSlots slots) := by
  induction slots generalizing c with
  | nil => exact Quiet.refl c
  | cons slot rest ih =>
    match slot with
    | .sending s =>
      exact (quiet_modifyConnection s.handle fun x => label_abandon x _).trans (ih _)
    | .ended _ _ => exact ih c

theorem quiet_stepSlots (cancelled : Bool) (slots : List Slot) (c : Cluster) :
    Quiet c (c.stepSlots cancelled slots).1 := by
  induction slots generalizing c with
  | nil => exact Quiet.refl c
  | cons slot rest ih =>
    match slot with
    | .sending s =>
      have hsend := quiet_stepSend c cancelled s
      rw [stepSlots]
      generalize c.stepSend cancelled s = p at hsend
      obtain ⟨c', _ | s' | r⟩ := p <;> exact hsend.trans (ih c')
    | .ended _ _ => exact ih c

theorem quiet_stepBeat (c : Cluster) (cancelled : Bool) (b : Beat) :
    Quiet c (c.stepBeat cancelled b).1 := by
  match b with
  | .fresh m =>
    rw [stepBeat]
    split <;> exact Quiet.refl c
  | .sending m s =>
    have hsend := quiet_stepSend c cancelled s
    rw [stepBeat]
    generalize c.stepSend cancelled s = p at hsend
    obtain ⟨c', _ | s' | r⟩ := p <;> exact hsend
  | .ended _ _ => exact Quiet.refl c

theorem quiet_stepBeats (cancelled : Bool) (beats : List Beat) (c : Cluster) :
    Quiet c (c.stepBeats cancelled beats).1 := by
  induction beats generalizing c with
  | nil => exact Quiet.refl c
  | cons b rest ih => exact (quiet_stepBeat c cancelled b).trans (ih _)

/-! ## The relay -/

theorem quiet_relay (c : Cluster) (s : Nat) (channel message : String) :
    Quiet c (c.relay s channel message).1 := by
  unfold relay
  split
  · exact Quiet.refl c
  · exact Quiet.refl c
  · exact Quiet.of_eq rfl rfl rfl
  · exact quiet_modifyServer s fun _ => rfl

theorem quiet_subscribe (c : Cluster) (s : Nat) : Quiet c (c.subscribe s).1 := by
  unfold subscribe
  split
  · exact Quiet.refl c
  · dsimp only
    split
    · exact Quiet.refl c
    · exact Quiet.refl c
    · exact quiet_modifyServer s fun _ => rfl

/-! ## Calls that change nothing -/

theorem CallStep.quiet {call : Store.Call} {p : Cluster × Progress StoreWait (Except Error Nat)}
    (hstep : CallStep c call p) (hcall : (c.store.perform call).1 = c.store) : Quiet c p.1 := by
  cases hstep with
  | blocked => exact Quiet.refl c
  | moved | failed => exact Quiet.of_eq rfl rfl rfl
  | performed => exact Quiet.of_eq hcall rfl rfl

theorem quiet_stepCount (c : Cluster) (s : Nat) (w : StoreWait) :
    Quiet c (c.stepCount s w).1 := by
  unfold stepCount
  split
  · exact Quiet.refl c
  · exact (stepCall_step c .count w).quiet rfl

theorem quiet_stepRefresh (c : Cluster) (s : Nat) (r : Refresh) :
    Quiet c (c.stepRefresh s r).1 := by
  unfold stepRefresh
  split
  · exact Quiet.refl c
  · split
    · exact Quiet.refl c
    · exact (stepCall_step c _ r.wait).quiet rfl

theorem quiet_stepRefreshing (c : Cluster) (stopping stopFirst : Bool) (s : Nat)
    (l : Loop Refresh) : Quiet c (c.stepRefreshing stopping stopFirst s l).1 := by
  cases l with
  | starting period => exact Quiet.refl c
  | waiting t =>
    simp only [stepRefreshing, stepLoop]
    split
    · exact Quiet.refl c
    · split <;> exact Quiet.refl c
  | working t r =>
    have hrefresh := quiet_stepRefresh c s r
    simp only [stepRefreshing, stepLoop]
    generalize c.stepRefresh s r = p at hrefresh
    obtain ⟨c', _ | r' | result⟩ := p <;> exact hrefresh

end Cluster

end EventHub
