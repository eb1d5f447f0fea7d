import EventHub.Proofs.Cluster.Slots
import EventHub.Proofs.Registry.Agreement
/-!
# Servers and their connections

What is true of every cluster whose servers share a relay and nothing else: each registry is in
order and holds connections of its own server only, under the names that these have.
-/

namespace EventHub.Cluster

/-- What never changes: the names of the servers, their channels, and the server that a connection
belongs to. -/
structure Setup where
  ids : List ServerId
  nodup : ids.Nodup
  channels : Settings.Channels
  home : Nat → Nat

/-- A server on the relay that shares nothing else and really publishes. -/
structure Server.Plain (u : Setup) (x : Server) : Prop where
  sharing : x.sharing = none
  journal : x.journal = none
  link : x.link = .ring
  channels : x.channels = u.channels

variable {u : Setup} {c c' : Cluster}

structure Good (u : Setup) (c : Cluster) : Prop where
  ids : c.servers.map (·.id) = u.ids
  plain : ∀ s server, c.server? s = some server → server.Plain u
  agrees : ∀ s, (c.registry s).Agrees
  members : ∀ s m, m ∈ (c.registry s).members → u.home m.handle = s ∧
    ∃ x, c.connection? m.handle = some x ∧ x.id = m.id ∧ x.client = m.client
  sound : c.Sound

structure Effect (u : Setup) (c c' : Cluster) : Prop where
  good : Good u c'
  later : Later c c'
  ring : c'.ring = c.ring
  stamp : c'.stamp = c.stamp

theorem Effect.refl (hgood : Good u c) : Effect u c c := ⟨hgood, Later.refl c, rfl, rfl⟩

/-! ## Registries -/

theorem server?_modifyServer (c : Cluster) (s i : Nat) (f : Server → Server) :
    (c.modifyServer s f).server? i =
      if s = i then (c.server? i).map f else c.server? i := by
  rw [server?, modifyServer, List.getElem?_modify, server?]
  split <;> simp

theorem registry_setRegistry {s : Nat} {server : Server} (hserver : c.server? s = some server)
    (r : Registry) (i : Nat) :
    (c.setRegistry s r).registry i = if s = i then r else c.registry i := by
  rw [registry, setRegistry, server?_modifyServer, registry]
  split
  · next hi =>
    subst hi
    rw [hserver]
    rfl
  · rfl

theorem good_setRegistry (hgood : Good u c) {s : Nat} {server : Server}
    (hserver : c.server? s = some server) {r : Registry} (hagrees : r.Agrees)
    (hmembers : ∀ m ∈ r.members, u.home m.handle = s ∧
      ∃ x, c.connection? m.handle = some x ∧ x.id = m.id ∧ x.client = m.client) :
    Good u (c.setRegistry s r) := by
  refine ⟨?_, ?_, ?_, ?_, hgood.sound⟩
  · rw [← hgood.ids]
    refine List.ext_getElem? fun i => ?_
    have hi := server?_modifyServer c s i fun x => { x with registry := r }
    simp only [server?] at hi
    simp only [List.getElem?_map, setRegistry, hi]
    split <;> cases c.servers[i]? <;> rfl
  · intro i y hy
    rw [setRegistry, server?_modifyServer] at hy
    split at hy
    · obtain ⟨z, hz, rfl⟩ := Option.map_eq_some_iff.mp hy
      obtain ⟨hsharing, hjournal, hlink, hchannels⟩ := hgood.plain i z hz
      exact ⟨hsharing, hjournal, hlink, hchannels⟩
    · exact hgood.plain i y hy
  · intro i
    rw [registry_setRegistry hserver]
    split
    · exact hagrees
    · exact hgood.agrees i
  · intro i m hm
    rw [registry_setRegistry hserver] at hm
    split at hm
    · next hi => exact hi ▸ hmembers m hm
    · exact hgood.members i m hm

structure Silent (u : Setup) (c c' : Cluster) : Prop extends Effect u c c' where
  connections : c'.connections = c.connections

theorem Silent.refl (hgood : Good u c) : Silent u c c := ⟨Effect.refl hgood, rfl⟩

theorem Silent.news_eq (hsilent : Silent u c c') (h : Nat) : news c c' h = [] :=
  news_of_untouched (by rw [connection?, hsilent.connections, connection?])

theorem silent_setRegistry (hgood : Good u c) {s : Nat} {server : Server}
    (hserver : c.server? s = some server) {r : Registry} (hagrees : r.Agrees)
    (hmembers : ∀ m ∈ r.members, u.home m.handle = s ∧
      ∃ x, c.connection? m.handle = some x ∧ x.id = m.id ∧ x.client = m.client) :
    Silent u c (c.setRegistry s r) :=
  ⟨⟨good_setRegistry hgood hserver hagrees hmembers, Later.refl c, rfl, rfl⟩, rfl⟩

theorem registry_eq {s : Nat} {server : Server} (hserver : c.server? s = some server) :
    c.registry s = server.registry := by
  rw [registry, hserver]
  rfl

/-! ## Adding and removing -/

theorem silent_enrol (hgood : Good u c) {s h : Nat} (hhome : u.home h = s) {server : Server}
    (hserver : c.server? s = some server) : Silent u c (c.enrol s h) := by
  unfold enrol
  split
  · exact Silent.refl hgood
  · next m hm =>
    obtain ⟨x, hx, rfl⟩ := Option.map_eq_some_iff.mp hm
    have hagrees := (hgood.agrees s).insert ⟨x.id, x.client, h⟩
    apply silent_setRegistry hgood hserver hagrees
    intro m hm
    rw [hagrees.mem_members, Registry.find?_insert] at hm
    split at hm
    · cases hm
      exact ⟨hhome, x, hx, rfl, rfl⟩
    · exact hgood.members s m ((hgood.agrees s).mem_members.mpr hm)

theorem silent_stepAdd (hgood : Good u c) (cancelled : Bool) {s h : Nat} (hhome : u.home h = s)
    (w : StoreWait) : Silent u c (c.stepAdd cancelled s h w).1 := by
  unfold stepAdd
  split
  · exact Silent.refl hgood
  · split
    · next server x hserver hx =>
      rw [(hgood.plain s server hserver).sharing]
      exact silent_enrol hgood hhome hserver
    · exact Silent.refl hgood

theorem silent_stepCall (hgood : Good u c) (call : Store.Call) (w : StoreWait) :
    Silent u c (c.stepCall call w).1 := by
  have hfinish : ∀ c : Cluster, Good u c → Silent u c (c.finishCall call).1 := by
    intro c hgood
    unfold finishCall
    split
    · exact Silent.refl hgood
    · exact ⟨⟨⟨hgood.ids, hgood.plain, hgood.agrees, hgood.members, hgood.sound⟩,
        Later.of_connections rfl, rfl, rfl⟩, rfl⟩
  have hnoted : Good u { c with storeCalls := c.storeCalls ++ [call] } :=
    ⟨hgood.ids, hgood.plain, hgood.agrees, hgood.members, hgood.sound⟩
  unfold stepCall
  split
  · dsimp only
    split
    · obtain ⟨⟨hgood', hlater, hring, hstamp⟩, hconnections⟩ := hfinish _ hnoted
      exact ⟨⟨hgood', hlater, hring, hstamp⟩, hconnections⟩
    · exact ⟨⟨hnoted, Later.of_connections rfl, rfl, rfl⟩, rfl⟩
  · split
    · exact hfinish c hgood
    · exact Silent.refl hgood

theorem silent_stepRemoval (hgood : Good u c) (s : Nat) (r : Removal) :
    Silent u c (c.stepRemoval s r).1 := by
  cases r with
  | fresh id =>
    rw [stepRemoval]
    split
    · exact Silent.refl hgood
    · next server hserver =>
      have hagrees := (hgood.agrees s).take id
      have hmembers : ∀ m ∈ ((c.registry s).take id).1.members, u.home m.handle = s ∧
          ∃ x, c.connection? m.handle = some x ∧ x.id = m.id ∧ x.client = m.client := by
        intro m hm
        rw [hagrees.mem_members, Registry.find?_take] at hm
        split at hm
        · cases hm
        · exact hgood.members s m ((hgood.agrees s).mem_members.mpr hm)
      have hsilent := silent_setRegistry hgood hserver hagrees hmembers
      rw [registry_eq hserver] at hsilent
      generalize server.registry.take id = p at hsilent
      obtain ⟨r, _ | m⟩ := p
      · exact Silent.refl hgood
      · dsimp only
        split <;> exact hsilent
  | unregistering id w =>
    rw [stepRemoval]
    split
    · exact Silent.refl hgood
    · exact silent_stepCall hgood _ _

theorem silent_stepRemovals (hgood : Good u c) (s : Nat) (r : Removals) :
    Silent u c (c.stepRemovals s r).1 := by
  unfold stepRemovals
  split
  · next removal _ =>
    have hsilent := silent_stepRemoval hgood s removal
    generalize c.stepRemoval s removal = p at hsilent
    obtain ⟨c', _ | removal | result⟩ := p <;> exact hsilent
  · split <;> exact Silent.refl hgood

/-! ## Targets -/

/-- The connection is registered at its server, live, and one that the target means. -/
def Present (u : Setup) (c : Cluster) (target : Option ClientId) (h : Nat) : Prop :=
  ∃ x m, c.connection? h = some x ∧ x.live = true ∧
    (c.registry (u.home h)).find? x.id = some m ∧ m.handle = h ∧
    ∀ client, target = some client → x.client = client

instance (u : Setup) (c : Cluster) (target : Option ClientId) (h : Nat) :
    Decidable (Present u c target h) :=
  decidable_of_iff ((c.connection? h).any fun x =>
      x.live && (((c.registry (u.home h)).find? x.id).any (·.handle == h) &&
        target.all (x.client == ·))) <| by
    simp only [Present, Option.any_eq_true, Bool.and_eq_true, beq_iff_eq, Option.all_eq_true]
    constructor
    · rintro ⟨x, hx, hlive, ⟨m, hm, hhandle⟩, hclient⟩
      exact ⟨x, m, hx, hlive, hm, hhandle, hclient⟩
    · rintro ⟨x, m, hx, hlive, hm, hhandle, hclient⟩
      exact ⟨x, hx, hlive, ⟨m, hm, hhandle⟩, hclient⟩

/-- The tables of a registry agree, and its connections are where it says. -/
structure Located (s : Nat) (c : Cluster) : Prop where
  agrees : (c.registry s).Agrees
  member : ∀ m ∈ (c.registry s).members, c.member? m.handle = some m

theorem Good.located (hgood : Good u c) (s : Nat) : Located s c := by
  refine ⟨hgood.agrees s, fun m hm => ?_⟩
  obtain ⟨_, x, hx, hid, hclient⟩ := hgood.members s m hm
  rw [member?, hx, Option.map_some, hid, hclient]

theorem mem_targets_of_agrees {s : Nat} (hagrees : (c.registry s).Agrees)
    {target : Option ClientId} {m : Member} : m ∈ c.targets s target ↔
      m ∈ (c.registry s).members ∧ ∀ client, target = some client → m.client = client := by
  cases target with
  | none => simp [targets]
  | some client =>
    rw [targets, hagrees.mem_membersOf]
    simp

theorem nodup_targets_of_located {s : Nat} (hlocated : Located s c) (target : Option ClientId) :
    ((c.targets s target).map (·.handle)).Nodup := by
  have hnodup : (c.targets s target).Nodup := by
    cases target with
    | none => exact hlocated.agrees.nodup_members
    | some client => exact hlocated.agrees.nodup_membersOf client
  refine hnodup.map_on fun m hm m' hm' hhandle => ?_
  have hfound := hlocated.member m ((mem_targets_of_agrees hlocated.agrees).mp hm).1
  have hfound' := hlocated.member m' ((mem_targets_of_agrees hlocated.agrees).mp hm').1
  rw [hhandle, hfound', Option.some.injEq] at hfound
  exact hfound.symm

theorem mem_targets (hgood : Good u c) {s : Nat} {target : Option ClientId} {m : Member} :
    m ∈ c.targets s target ↔
      m ∈ (c.registry s).members ∧ ∀ client, target = some client → m.client = client :=
  mem_targets_of_agrees (hgood.agrees s)

theorem nodup_targets (hgood : Good u c) (s : Nat) (target : Option ClientId) :
    ((c.targets s target).map (·.handle)).Nodup :=
  nodup_targets_of_located (hgood.located s) target

theorem mem_targets_of_present (hgood : Good u c) {target : Option ClientId} {h : Nat}
    (hpresent : Present u c target h) :
    h ∈ ((c.targets (u.home h) target).filter fun m => c.isLive m.handle).map (·.handle) := by
  obtain ⟨x, m, hx, hlive, hfind, rfl, htarget⟩ := hpresent
  have hid := (hgood.agrees _).id_eq _ _ hfind
  have hmember : m ∈ (c.registry (u.home m.handle)).members := by
    rw [(hgood.agrees _).mem_members, hid]
    exact hfind
  obtain ⟨_, y, hy, _, hclient⟩ := hgood.members _ m hmember
  rw [hx, Option.some.injEq] at hy
  refine List.mem_map.mpr ⟨m, List.mem_filter.mpr ⟨?_, ?_⟩, rfl⟩
  · refine (mem_targets hgood).mpr ⟨hmember, fun client hclient' => ?_⟩
    rw [← hclient, ← hy]
    exact htarget client hclient'
  · simpa [isLive, hx] using hlive

end EventHub.Cluster
