import EventHub.Proofs.Cluster.Evictions
/-!
# How the registry of a server changes

An activity of a server adds the connection that it is there to add, takes one out that is dead, or
leaves the registry as it is.
-/

namespace EventHub

open Cluster

variable {c c' : Cluster} {s h : Nat} {a : Activity} {cancelled stopFirst : Bool}

/-! ## Activities -/

/-- The activity is one of the server `s`, and spares the connections that are live. -/
def Activity.Spares (s : Nat) (c : Cluster) : Activity → Prop
  | .add i h _ => i = s ∧ Taken c h
  | .removal i r => i = s ∧ r.Spares c
  | .publication i p => i = s ∧ p.Spares c
  | .handling i x => i = s ∧ x.Spares c
  | .sweep i w => i = s ∧ w.Spares c
  | .heartbeat i l => i = s ∧ l.Spares c
  | .subscriber i x => i = s ∧ x.Spares c
  | .count .. | .refresh .. | .refreshing .. | .sleep _ => True
  | .send _ | .write .. | .removals .. => False

theorem Activity.Spares.grows (hspares : a.Spares s c) (hgrows : Grows c c') :
    a.Spares s c' := by
  cases a with
  | add i h w => exact ⟨hspares.1, hgrows.taken hspares.2⟩
  | removal i r => exact ⟨hspares.1, fun id hid => hgrows.dead (hspares.2 id hid)⟩
  | publication i p => exact ⟨hspares.1, Publication.Spares.grows hspares.2 hgrows⟩
  | handling i x => exact ⟨hspares.1, Handling.Spares.grows hspares.2 hgrows⟩
  | sweep i w => exact ⟨hspares.1, Sweep.Spares.grows hspares.2 hgrows⟩
  | heartbeat i l =>
    refine ⟨hspares.1, ?_⟩
    cases l with
    | starting period => trivial
    | waiting t => trivial
    | working t w => exact Sweep.Spares.grows hspares.2 hgrows
  | subscriber i x =>
    refine ⟨hspares.1, ?_⟩
    cases x with
    | subscribing pause => trivial
    | resting time pause => trivial
    | listening feed => trivial
    | handling feed x => exact Handling.Spares.grows hspares.2 hgrows
  | count i w => trivial
  | refresh i r => trivial
  | refreshing i l => trivial
  | sleep time => trivial
  | send x => exact hspares.elim
  | write h frame w => exact hspares.elim
  | removals i r => exact hspares.elim

namespace Cluster

/-! ## The removal that an activity is at -/

theorem Removals.Spares.current {r : Removals} (hspares : r.Spares c) {removal : Removal}
    (hcurrent : r.current = some removal) : removal.Spares c := by
  intro id hid
  exact hspares id (by simp [Removals.pending, hcurrent, hid])

theorem LocalPublish.Spares.removal {p : LocalPublish} (hspares : p.Spares c) {removal : Removal}
    (hremoval : p.removal? = some removal) : removal.Spares c := by
  match p with
  | .delivering (.pruning r) => exact Removals.Spares.current hspares hremoval

theorem Handling.Spares.removal {x : Handling} (hspares : x.Spares c) {removal : Removal}
    (hremoval : x.removal? = some removal) : removal.Spares c := by
  match x with
  | .publishing p => exact LocalPublish.Spares.removal hspares hremoval

theorem Publication.Spares.removal {p : Publication} (hspares : p.Spares c) {removal : Removal}
    (hremoval : p.removal? = some removal) : removal.Spares c := by
  match p with
  | .publishing _ _ p => exact LocalPublish.Spares.removal hspares hremoval

theorem Sweep.Spares.removal {w : Sweep} (hspares : w.Spares c) {removal : Removal}
    (hremoval : w.removal? = some removal) : removal.Spares c := by
  match w with
  | .evicting _ r => exact Removals.Spares.current hspares hremoval

theorem Loop.Spares.removal {l : Loop Sweep} (hspares : l.Spares c) {removal : Removal}
    (hremoval : l.removal? = some removal) : removal.Spares c := by
  match l with
  | .working _ w => exact Sweep.Spares.removal hspares hremoval

theorem Subscriber.Spares.removal {x : Subscriber} (hspares : x.Spares c) {removal : Removal}
    (hremoval : x.removal? = some removal) : removal.Spares c := by
  match x with
  | .handling _ h => exact Handling.Spares.removal hspares hremoval

/-! ## Taking connections out -/

/-- The registry of the server is as before, or a connection has left it that is dead. -/
structure Unregisters (s : Nat) (c c' : Cluster) : Prop where
  server : (c'.server? s).isSome = (c.server? s).isSome
  registry : c'.registry s = c.registry s ∨
    ∃ id, Dead c id ∧ c'.registry s = ((c.registry s).take id).1

theorem Quiet.unregisters (hquiet : Quiet c c') (s : Nat) : Unregisters s c c' := by
  have hmap := hquiet.server?_map_part s
  constructor
  · simpa using congrArg Option.isSome hmap
  · left
    have hregistry (c : Cluster) :
        c.registry s = (((c.server? s).map Server.part).map (·.2.2)).getD {} := by
      rw [registry, Option.map_map]
      rfl
    rw [hregistry, hmap, ← hregistry]

theorem stepRemoval_fresh_spec (c : Cluster) (s : Nat) (id : ConnectionId) :
    ((c.stepRemoval s (.fresh id)).1.server? s).isSome = (c.server? s).isSome ∧
      (c.stepRemoval s (.fresh id)).1.registry s = ((c.registry s).take id).1 := by
  simp only [stepRemoval]
  cases hserver : c.server? s with
  | none =>
    refine ⟨by rw [hserver], ?_⟩
    rw [registry, hserver]
    rfl
  | some server =>
    rw [registry_eq hserver]
    dsimp only
    split
    · next r hr =>
      rw [hr, hserver, registry_eq hserver]
      refine ⟨rfl, ?_⟩
      have htake := Registry.take_of_none (show (server.registry.take id).2 = none by rw [hr])
      rw [hr] at htake
      exact htake.symm
    · next r m hr =>
      have hset := registry_setRegistry hserver r s
      have hserver' := server?_modifyServer c s s fun x => { x with registry := r }
      rw [if_pos rfl] at hset hserver'
      rw [hr]
      split <;> exact ⟨by rw [setRegistry, hserver', hserver]; rfl, hset⟩

theorem Removes.unregisters {before after : Option Removal}
    (hremoves : Removes s c before (c', after))
    (hspares : ∀ r, before = some r → r.Spares c) : Unregisters s c c' := by
  cases hremoves with
  | quiet hquiet hfresh => exact hquiet.unregisters s
  | step r =>
    cases r with
    | fresh id =>
      obtain ⟨hserver, hregistry⟩ := stepRemoval_fresh_spec c s id
      exact ⟨hserver, Or.inr ⟨id, hspares _ rfl id (List.mem_singleton.mpr rfl), hregistry⟩⟩
    | unregistering id w =>
      simp only [stepRemoval]
      cases hserver : c.server? s with
      | none => exact (Quiet.refl c).unregisters s
      | some server =>
        have hcall := stepCall_step c (.unregister server.id id) w
        dsimp only
        generalize c.stepCall (.unregister server.id id) w = p at hcall
        cases hcall <;> exact ⟨rfl, Or.inl rfl⟩

/-! ## Adding a connection -/

/-- A registration ends well in the step that puts its connection into the registry. -/
structure Registers (s : Nat) (c : Cluster) (m : Member)
    (q : Cluster × Progress StoreWait (Except Error Unit)) : Prop where
  connections : q.1.connections = c.connections
  server : (q.1.server? s).isSome = true
  registry : (q.2 = .done (.ok ()) ∧ q.1.registry s = (c.registry s).insert m) ∨
    (q.2 ≠ .done (.ok ()) ∧ q.1.registry s = c.registry s)

theorem registers_enrol {server : Server} {x : Connection} (hserver : c.server? s = some server)
    (hx : c.connection? h = some x) :
    Registers s c ⟨x.id, x.client, h⟩ (c.enrol s h, .done (.ok ())) := by
  have henrol : c.enrol s h =
      c.setRegistry s ((c.registry s).insert ⟨x.id, x.client, h⟩) := by
    rw [enrol, member?, hx]
    rfl
  have hset := registry_setRegistry hserver ((c.registry s).insert ⟨x.id, x.client, h⟩) s
  rw [if_pos rfl] at hset
  rw [henrol]
  refine ⟨rfl, ?_, Or.inl ⟨rfl, hset⟩⟩
  rw [setRegistry, server?_modifyServer, if_pos rfl, hserver]
  rfl

theorem stepAdd_registers {x : Connection} (hserver : (c.server? s).isSome = true)
    (hx : c.connection? h = some x) (cancelled : Bool) (w : StoreWait) :
    Registers s c ⟨x.id, x.client, h⟩ (c.stepAdd cancelled s h w) := by
  obtain ⟨server, hs⟩ := Option.isSome_iff_exists.mp hserver
  have hunchanged {p : Progress StoreWait (Except Error Unit)} (hp : p ≠ .done (.ok ())) :
      Registers s c ⟨x.id, x.client, h⟩ (c, p) := ⟨rfl, hserver, Or.inr ⟨hp, rfl⟩⟩
  cases cancelled with
  | true => exact hunchanged (by simp)
  | false =>
    simp only [stepAdd, hs, hx, Bool.false_eq_true, if_false]
    cases server.sharing with
    | none => exact registers_enrol hs hx
    | some sharing =>
      have hcall := stepCall_step c (.register (recordOf server.id x) sharing.lifetime) w
      dsimp only
      generalize c.stepCall (.register (recordOf server.id x) sharing.lifetime) w = p at hcall
      cases hcall with
      | blocked => exact hunchanged (by simp)
      | moved => exact ⟨rfl, hserver, Or.inr ⟨by simp, rfl⟩⟩
      | failed => exact ⟨rfl, hserver, Or.inr ⟨by simp, rfl⟩⟩
      | performed calls =>
        obtain ⟨hconnections, hserver', hregistry⟩ := registers_enrol
          (c := { c with storeCalls := calls, store := (c.store.perform
            (.register (recordOf server.id x) sharing.lifetime)).1 }) hs hx
        exact ⟨hconnections, hserver', hregistry⟩

/-! ## Calls that touch no connection -/

theorem CallStep.connections_eq {call : Store.Call}
    {p : Cluster × Progress StoreWait (Except Error Nat)} (hstep : CallStep c call p) :
    p.1.connections = c.connections := by
  cases hstep <;> rfl

theorem connections_stepCount (c : Cluster) (s : Nat) (w : StoreWait) :
    (c.stepCount s w).1.connections = c.connections := by
  unfold stepCount
  split
  · rfl
  · exact (stepCall_step c .count w).connections_eq

theorem connections_stepRefresh (c : Cluster) (s : Nat) (r : Refresh) :
    (c.stepRefresh s r).1.connections = c.connections := by
  unfold stepRefresh
  split
  · rfl
  · split
    · rfl
    · exact (stepCall_step c _ r.wait).connections_eq

theorem connections_stepRefreshing (c : Cluster) (stopping stopFirst : Bool) (s : Nat)
    (l : Loop Refresh) : (c.stepRefreshing stopping stopFirst s l).1.connections =
      c.connections := by
  cases l with
  | starting period => rfl
  | waiting t =>
    simp only [stepRefreshing, stepLoop]
    split
    · rfl
    · split <;> rfl
  | working t r =>
    have hrefresh := connections_stepRefresh c s r
    simp only [stepRefreshing, stepLoop]
    generalize c.stepRefresh s r = p at hrefresh
    obtain ⟨c', _ | r' | result⟩ := p <;> exact hrefresh

/-! ## Steps -/

structure Maintains (s : Nat) (c : Cluster) (q : Cluster × Progress Activity Outcome) : Prop where
  sparing : Sparing c (fun c a => a.Spares s c) q
  unregisters : Unregisters s c q.1

theorem maintains_of_quiet {q : Cluster × Progress Activity Outcome} (hquiet : Quiet c q.1)
    (hconnections : q.1.connections = c.connections)
    (hspares : q.2.To (Activity.Spares s q.1)) : Maintains s c q :=
  ⟨⟨Fades.of_connections hconnections, hspares⟩, hquiet.unregisters s⟩

theorem step_maintains (cancelled stopFirst : Bool) (hlocated : Located s c)
    (hspares : a.Spares s c) (hadd : ∀ i h w, a ≠ .add i h w) :
    Maintains s c (a.step c cancelled stopFirst) := by
  cases a with
  | add i h w => exact absurd rfl (hadd i h w)
  | removal i r =>
    obtain ⟨rfl, hspares⟩ := hspares
    refine ⟨(sparing_stepRemoval c i r).lift fun _ _ h => ⟨rfl, h⟩, ?_⟩
    exact (Removes.step r).unregisters fun _ h => Option.some.inj h ▸ hspares
  | publication i p =>
    obtain ⟨rfl, hspares⟩ := hspares
    refine ⟨(sparing_stepPublication cancelled hlocated hspares).lift
      fun _ _ h => ⟨rfl, h⟩, ?_⟩
    exact (removes_stepPublication c cancelled i p).unregisters fun _ h =>
      Publication.Spares.removal hspares h
  | handling i x =>
    obtain ⟨rfl, hspares⟩ := hspares
    refine ⟨(sparing_stepHandling cancelled hlocated hspares).lift
      fun _ _ h => ⟨rfl, h⟩, ?_⟩
    exact (removes_stepHandling c cancelled i x).unregisters fun _ h =>
      Handling.Spares.removal hspares h
  | sweep i w =>
    obtain ⟨rfl, hspares⟩ := hspares
    refine ⟨(sparing_stepSweep cancelled hlocated hspares).lift fun _ _ h => ⟨rfl, h⟩, ?_⟩
    exact (removes_stepSweep c cancelled i w).unregisters fun _ h =>
      Sweep.Spares.removal hspares h
  | heartbeat i l =>
    obtain ⟨rfl, hspares⟩ := hspares
    refine ⟨(sparing_stepHeartbeat cancelled stopFirst hlocated hspares).lift
      fun _ _ h => ⟨rfl, h⟩, ?_⟩
    exact (removes_stepHeartbeat c cancelled stopFirst i l).unregisters fun _ h =>
      Loop.Spares.removal hspares h
  | subscriber i x =>
    obtain ⟨rfl, hspares⟩ := hspares
    refine ⟨(sparing_stepSubscriber cancelled stopFirst hlocated hspares).lift
      fun _ _ h => ⟨rfl, h⟩, ?_⟩
    exact (removes_stepSubscriber c cancelled stopFirst i x).unregisters fun _ h =>
      Subscriber.Spares.removal hspares h
  | count i w =>
    refine maintains_of_quiet (quiet_stepCount c i w) (connections_stepCount c i w) ?_
    exact (c.stepCount i w).2.to_true.lift fun _ _ => trivial
  | refresh i r =>
    refine maintains_of_quiet (quiet_stepRefresh c i r) (connections_stepRefresh c i r) ?_
    exact (c.stepRefresh i r).2.to_true.lift fun _ _ => trivial
  | refreshing i l =>
    refine maintains_of_quiet (quiet_stepRefreshing c cancelled stopFirst i l)
      (connections_stepRefreshing c cancelled stopFirst i l) ?_
    exact (c.stepRefreshing cancelled stopFirst i l).2.to_true.lift fun _ _ => trivial
  | sleep time =>
    refine maintains_of_quiet (Quiet.refl c) rfl ?_
    simp only [Activity.step]
    split <;> trivial
  | send x => exact hspares.elim
  | write h frame w => exact hspares.elim
  | removals i r => exact hspares.elim

end Cluster

end EventHub
