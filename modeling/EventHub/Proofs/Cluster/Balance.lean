import EventHub.Proofs.Cluster.Deeds
import EventHub.Proofs.Cluster.Servers
/-!
# Every record accounted for

What the store holds is what it has been told of and not told to forget. A connection that has been
registered is in the registry of one server, or one task has taken it out of there and still has to
unregister it, or its unregistration has succeeded or failed, once.
-/

namespace EventHub.Cluster

/-! ## What the store has answered -/

def registered? : Store.Call × Except Error Nat → Option Store.Record
  | (.register record _, .ok _) => some record
  | _ => none

def unregistered? : Store.Call × Except Error Nat → Option ConnectionId
  | (.unregister _ id, .ok _) => some id
  | _ => none

def refused? : Store.Call × Except Error Nat → Option ConnectionId
  | (.unregister _ id, .error _) => some id
  | _ => none

variable {c c' : Cluster} {leaving : List (Option (Nat × ConnectionId))}
  {settled : List (Store.Call × Except Error Nat)} {i s : Nat}
  {server : Server} {id : ConnectionId}

def registrations (settled : List (Store.Call × Except Error Nat)) : List Store.Record :=
  settled.filterMap registered?

def unregistrations (settled : List (Store.Call × Except Error Nat)) : List ConnectionId :=
  settled.filterMap unregistered?

def refusals (settled : List (Store.Call × Except Error Nat)) : List ConnectionId :=
  settled.filterMap refused?

def storeAfter (settled : List (Store.Call × Except Error Nat)) : Store :=
  settled.foldl (fun store q => match q.2 with
    | .ok _ => (store.perform q.1).1
    | .error _ => store) {}

def timesRegistered (settled : List (Store.Call × Except Error Nat)) (id : ConnectionId) : Nat :=
  ((registrations settled).map (·.connection)).count id

def holders (c : Cluster) (id : ConnectionId) : Nat :=
  c.servers.countP fun x => x.registry.contains id

/-- How many tasks have taken the connection out of a registry and not unregistered it yet. -/
def leavers (leaving : List (Option (Nat × ConnectionId))) (id : ConnectionId) : Nat :=
  leaving.countP fun l => l.any fun p => p.2 = id

/-- A member of a registry stands for a connection whose record is among those given. -/
def HasRecord (c : Cluster) (records : List Store.Record) (serverId : ServerId)
    (id : ConnectionId) (m : Member) : Prop :=
  ∃ x, c.connection? m.handle = some x ∧ x.id = id ∧ recordOf serverId x ∈ records

def HasServer (c : Cluster) (records : List Store.Record) (s : Nat) (id : ConnectionId) : Prop :=
  ∃ server record, c.server? s = some server ∧ record ∈ records ∧ record.connection = id ∧
    record.server = server.id

structure Balanced (c : Cluster) (leaving : List (Option (Nat × ConnectionId)))
    (settled : List (Store.Call × Except Error Nat)) : Prop where
  shares : c.Shares
  store : c.store = storeAfter settled
  held : ∀ s server id m, c.server? s = some server → server.registry.find? id = some m →
    HasRecord c (registrations settled) server.id id m
  left : ∀ s id, some (s, id) ∈ leaving → HasServer c (registrations settled) s id
  ended : ∀ serverId id r, (.unregister serverId id, r) ∈ settled →
    ∃ record ∈ registrations settled, record.connection = id ∧ record.server = serverId
  balance : ∀ id, holders c id + leavers leaving id + (unregistrations settled).count id +
    (refusals settled).count id = timesRegistered settled id
  records : ∀ id record, c.store.records.find? id = some record ↔
    record ∈ registrations settled ∧ record.connection = id ∧ id ∉ unregistrations settled
  nodup : (Table.keys c.store.records).Nodup
  counter : c.store.counter = c.store.records.length

/-! ## Counting -/

theorem countP_set_add {α : Type} {p : α → Bool} {l : List α} {a : α} (ha : l[i]? = some a)
    (b : α) : (l.set i b).countP p + (if p a then 1 else 0) =
      l.countP p + if p b then 1 else 0 := by
  obtain ⟨hlt, rfl⟩ := List.getElem?_eq_some_iff.mp ha
  have hle := List.boole_getElem_le_countP (p := p) hlt
  rw [List.countP_set hlt]
  omega

theorem holders_of_parts (hservers : c'.servers.map Server.part = c.servers.map Server.part)
    (id : ConnectionId) : holders c' id = holders c id := by
  have hparts (c : Cluster) : holders c id =
      (c.servers.map Server.part).countP fun p => p.2.2.contains id := by
    rw [List.countP_map]
    rfl
  rw [hparts, hparts, hservers]

theorem holders_setRegistry (hserver : c.server? s = some server) (r : Registry)
    (id : ConnectionId) : holders (c.setRegistry s r) id +
      (if server.registry.contains id then 1 else 0) =
        holders c id + if r.contains id then 1 else 0 := by
  have hset : (c.setRegistry s r).servers = c.servers.set s { server with registry := r } := by
    rw [setRegistry, modifyServer]
    refine List.ext_getElem? fun j => ?_
    rw [List.getElem?_modify, List.getElem?_set]
    rw [server?] at hserver
    split
    · next hs =>
      subst hs
      rw [hserver, if_pos (List.getElem?_eq_some_iff.mp hserver).1]
      rfl
    · cases c.servers[j]? <;> rfl
  rw [holders, hset]
  exact countP_set_add hserver _

/-- A server after a registry has been replaced is one before. -/
theorem exists_of_setRegistry {r : Registry} {s' : Nat} {server' : Server}
    (hserver' : (c.setRegistry s r).server? s' = some server') :
    ∃ server, c.server? s' = some server ∧ server.id = server'.id ∧
      server.sharing = server'.sharing ∧
      server'.registry = if s = s' then r else server.registry := by
  rw [setRegistry, server?_modifyServer] at hserver'
  split at hserver'
  · next hs =>
    obtain ⟨server, hserver, rfl⟩ := Option.map_eq_some_iff.mp hserver'
    exact ⟨server, hserver, rfl, rfl, (if_pos hs).symm⟩
  · next hs => exact ⟨server', hserver', rfl, rfl, (if_neg hs).symm⟩

theorem exists_setRegistry {s' : Nat} (hserver : c.server? s' = some server) (s : Nat)
    (r : Registry) :
    ∃ server', (c.setRegistry s r).server? s' = some server' ∧ server'.id = server.id := by
  rw [setRegistry, server?_modifyServer]
  split
  · exact ⟨{ server with registry := r }, by rw [hserver]; rfl, rfl⟩
  · exact ⟨server, hserver, rfl⟩

theorem HasRecord.mono {records records' : List Store.Record} {serverId : ServerId} {m : Member}
    (hrecord : HasRecord c records serverId id m) (hsubset : records ⊆ records')
    (hconnections : c'.connections = c.connections) : HasRecord c' records' serverId id m := by
  obtain ⟨x, hx, hid, hmem⟩ := hrecord
  exact ⟨x, by rwa [connection?, hconnections], hid, hsubset hmem⟩

theorem HasServer.mono {records records' : List Store.Record}
    (hserver : HasServer c records s id) (hsubset : records ⊆ records')
    (hservers : c'.servers = c.servers) : HasServer c' records' s id := by
  obtain ⟨server, record, hserver, hmem, hid, hname⟩ := hserver
  exact ⟨server, record, by rwa [server?, hservers], hsubset hmem, hid, hname⟩

theorem HasServer.setRegistry {records : List Store.Record} {s' : Nat}
    (hserver : HasServer c records s' id) (s : Nat) (r : Registry) :
    HasServer (c.setRegistry s r) records s' id := by
  obtain ⟨server, record, hserver, hmem, hid, hname⟩ := hserver
  obtain ⟨server', hserver', hname'⟩ := exists_setRegistry hserver s r
  exact ⟨server', record, hserver', hmem, hid, hname.trans hname'.symm⟩

/-- The members of all registries have records if those of the others and of a new registry do. -/
theorem hasRecord_setRegistry {records : List Store.Record} {r : Registry}
    (hserver : c.server? s = some server)
    (hothers : ∀ s server id m, c.server? s = some server →
      server.registry.find? id = some m →
      HasRecord c records server.id id m)
    (hown : ∀ id m, r.find? id = some m → HasRecord c records server.id id m) :
    ∀ s' server' id m, (c.setRegistry s r).server? s' = some server' →
      server'.registry.find? id = some m →
        HasRecord (c.setRegistry s r) records server'.id id m := by
  intro s' server' id m hserver' hm
  obtain ⟨y, hy, hname, _, hregistry⟩ := exists_of_setRegistry hserver'
  rw [hregistry] at hm
  rw [← hname]
  split at hm
  · next hs =>
    subst hs
    rw [hserver, Option.some.injEq] at hy
    exact hy ▸ hown id m hm
  · exact hothers s' y id m hy hm

theorem one_le_holders (hserver : c.server? s = some server)
    (hid : server.registry.contains id = true) : 1 ≤ holders c id :=
  List.countP_pos_iff.mpr ⟨server, List.mem_of_getElem? hserver, hid⟩

theorem one_le_leavers (hmem : some (s, id) ∈ leaving) : 1 ≤ leavers leaving id :=
  List.countP_pos_iff.mpr ⟨_, hmem, by simp⟩

theorem leavers_set_none (hl : leaving[i]? = some (some (s, id))) (id' : ConnectionId) :
    leavers (leaving.set i none) id' + (if id = id' then 1 else 0) = leavers leaving id' := by
  simpa [leavers] using countP_set_add (p := fun l => l.any fun p => p.2 = id') hl none

theorem leavers_set_some (hl : leaving[i]? = some none) (s : Nat) (id id' : ConnectionId) :
    leavers (leaving.set i (some (s, id))) id' =
      leavers leaving id' + if id = id' then 1 else 0 := by
  simpa [leavers] using countP_set_add (p := fun l => l.any fun p => p.2 = id') hl (some (s, id))

theorem filterMap_snoc {α β : Type} (f : α → Option β) (l : List α) (a : α) :
    (l ++ [a]).filterMap f = l.filterMap f ++ (f a).toList := by
  rw [List.filterMap_append, List.filterMap_cons]
  cases f a <;> rfl

@[simp]
theorem registrations_snoc (settled : List (Store.Call × Except Error Nat))
    (q : Store.Call × Except Error Nat) :
    registrations (settled ++ [q]) = registrations settled ++ (registered? q).toList :=
  filterMap_snoc _ settled q

@[simp]
theorem unregistrations_snoc (settled : List (Store.Call × Except Error Nat))
    (q : Store.Call × Except Error Nat) :
    unregistrations (settled ++ [q]) = unregistrations settled ++ (unregistered? q).toList :=
  filterMap_snoc _ settled q

@[simp]
theorem refusals_snoc (settled : List (Store.Call × Except Error Nat))
    (q : Store.Call × Except Error Nat) :
    refusals (settled ++ [q]) = refusals settled ++ (refused? q).toList :=
  filterMap_snoc _ settled q

theorem refused?_eq_some {q : Store.Call × Except Error Nat} :
    refused? q = some id ↔ ∃ serverId e, q = (.unregister serverId id, .error e) := by
  unfold refused?
  split
  · simp
  · next hother =>
    refine ⟨fun h => (by cases h), ?_⟩
    rintro ⟨serverId, e, rfl⟩
    exact absurd rfl (hother serverId id e)

theorem mem_refusals :
    id ∈ refusals settled ↔
      ∃ serverId e, (.unregister serverId id, .error e) ∈ settled := by
  simp only [refusals, List.mem_filterMap, refused?_eq_some]
  constructor
  · rintro ⟨_, hmem, serverId, e, rfl⟩
    exact ⟨serverId, e, hmem⟩
  · rintro ⟨serverId, e, hmem⟩
    exact ⟨_, hmem, serverId, e, rfl⟩

theorem storeAfter_ok (settled : List (Store.Call × Except Error Nat)) (call : Store.Call)
    (n : Nat) :
    storeAfter (settled ++ [(call, .ok n)]) = ((storeAfter settled).perform call).1 := by
  rw [storeAfter, List.foldl_append]
  rfl

theorem storeAfter_error (settled : List (Store.Call × Except Error Nat)) (call : Store.Call)
    (e : Error) : storeAfter (settled ++ [(call, .error e)]) = storeAfter settled := by
  rw [storeAfter, List.foldl_append]
  rfl

theorem registrations_unregister (serverId : ServerId) (id : ConnectionId)
    (r : Except Error Nat) : registrations (settled ++ [(.unregister serverId id, r)]) =
      registrations settled := by
  simp [registered?]

theorem timesRegistered_register (record : Store.Record) (lifetime n : Nat) (id : ConnectionId) :
    timesRegistered (settled ++ [(.register record lifetime, .ok n)]) id =
      timesRegistered settled id + if record.connection = id then 1 else 0 := by
  simp [timesRegistered, registered?, List.count_append, List.count_singleton]

/-! ## Each deed keeps the balance -/

theorem Balanced.quiet (hbalanced : Balanced c leaving settled) (hquiet : Quiet c c') :
    Balanced c' leaving settled where
  shares := by
    intro s server' hserver'
    obtain ⟨server, hserver, _, hsharing, _⟩ := hquiet.exists_before hserver'
    exact hsharing ▸ hbalanced.shares s server hserver
  store := hquiet.store.trans hbalanced.store
  held := by
    intro s server' id m hserver' hm
    obtain ⟨server, hserver, hname, _, hregistry⟩ := hquiet.exists_before hserver'
    obtain ⟨x, hx, hid, hrecord⟩ := hbalanced.held s server id m hserver (hregistry ▸ hm)
    obtain ⟨x', hx', hlabel⟩ := hquiet.connections m.handle x hx
    simp only [Connection.label, Prod.mk.injEq] at hlabel
    obtain ⟨hid', hclient, hlast⟩ := hlabel
    refine ⟨x', hx', hid'.trans hid, ?_⟩
    rw [recordOf, ← hname, hid', hclient, hlast]
    exact hrecord
  left := by
    intro s id hmem
    obtain ⟨server, record, hserver, hrecord, hid, hname⟩ := hbalanced.left s id hmem
    obtain ⟨server', hserver', hname'⟩ := hquiet.exists_after hserver
    exact ⟨server', record, hserver', hrecord, hid, hname.trans hname'.symm⟩
  ended := hbalanced.ended
  balance := by
    intro id
    rw [holders_of_parts hquiet.servers]
    exact hbalanced.balance id
  records := by
    rw [hquiet.store]
    exact hbalanced.records
  nodup := by
    rw [hquiet.store]
    exact hbalanced.nodup
  counter := by
    rw [hquiet.store]
    exact hbalanced.counter

theorem Balanced.notRegistered (hbalanced : Balanced c leaving settled) (record : Store.Record)
    (lifetime : Nat) (e : Error) :
    Balanced c leaving (settled ++ [(.register record lifetime, .error e)]) where
  shares := hbalanced.shares
  store := hbalanced.store.trans (storeAfter_error settled _ e).symm
  held := by simpa [registered?] using hbalanced.held
  left := by simpa [registered?] using hbalanced.left
  ended := by simpa [registered?] using hbalanced.ended
  balance := by
    simpa [timesRegistered, registered?, unregistered?, refused?] using hbalanced.balance
  records := by simpa [registered?, unregistered?] using hbalanced.records
  nodup := hbalanced.nodup
  counter := hbalanced.counter

/-- What a task has still taken out when another one has come to the end of a removal. -/
theorem mem_of_mem_set_none {p : Nat × ConnectionId} (hmem : some p ∈ leaving.set i none) :
    some p ∈ leaving :=
  (List.mem_or_eq_of_mem_set hmem).resolve_right nofun

theorem Balanced.ended_snoc (hbalanced : Balanced c leaving settled)
    (hl : leaving[i]? = some (some (s, id))) (hserver : c.server? s = some server)
    (r : Except Error Nat) : ∀ serverId id' r',
      (.unregister serverId id', r') ∈ settled ++ [(.unregister server.id id, r)] →
      ∃ record ∈ registrations settled, record.connection = id' ∧
        record.server = serverId := by
  intro serverId id' r' hmem
  rcases List.mem_append.mp hmem with hmem | hmem
  · exact hbalanced.ended serverId id' r' hmem
  · obtain ⟨server', record, hserver', hrecord, hid, hname⟩ :=
      hbalanced.left s id (List.mem_of_getElem? hl)
    rw [hserver, Option.some.injEq] at hserver'
    simp only [List.mem_singleton, Prod.mk.injEq, Store.Call.unregister.injEq] at hmem
    obtain ⟨⟨rfl, rfl⟩, _⟩ := hmem
    exact ⟨record, hrecord, hid, hserver' ▸ hname⟩

theorem Balanced.refused (hbalanced : Balanced c leaving settled)
    (hl : leaving[i]? = some (some (s, id))) (hserver : c.server? s = some server) (e : Error) :
    Balanced c (leaving.set i none) (settled ++ [(.unregister server.id id, .error e)]) where
  shares := hbalanced.shares
  store := hbalanced.store.trans (storeAfter_error settled _ e).symm
  held := by
    rw [registrations_unregister]
    exact hbalanced.held
  left := by
    rw [registrations_unregister]
    exact fun s' id' hmem => hbalanced.left s' id' (mem_of_mem_set_none hmem)
  ended := by
    rw [registrations_unregister]
    exact hbalanced.ended_snoc hl hserver (.error e)
  balance := by
    intro id'
    have hbalance := hbalanced.balance id'
    have hleavers := leavers_set_none hl id'
    simp only [timesRegistered, registrations_unregister, unregistrations_snoc, refusals_snoc,
      unregistered?, refused?, Option.toList, List.append_nil, List.count_append,
      List.count_singleton, beq_iff_eq] at hbalance ⊢
    omega
  records := by simpa [registered?, unregistered?] using hbalanced.records
  nodup := hbalanced.nodup
  counter := hbalanced.counter

/-- A connection that has been registered once is not unregistered while it is somewhere. -/
theorem Balanced.not_mem_unregistrations (hbalanced : Balanced c leaving settled)
    (honce : timesRegistered settled id ≤ 1) (hplace : 1 ≤ holders c id + leavers leaving id) :
    id ∉ unregistrations settled := by
  intro hmem
  have hcount := List.count_pos_iff.mpr hmem
  have hbalance := hbalanced.balance id
  omega

theorem Balanced.unregistered (hbalanced : Balanced c leaving settled)
    (hl : leaving[i]? = some (some (s, id))) (hserver : c.server? s = some server)
    (honce : timesRegistered settled id ≤ 1) (calls : List Store.Call) :
    Balanced { c with
      storeCalls := calls
      store := (c.store.perform (.unregister server.id id)).1 } (leaving.set i none)
      (settled ++ [(.unregister server.id id, .ok 0)]) where
  shares := hbalanced.shares
  store := by rw [storeAfter_ok, ← hbalanced.store]
  held := by
    rw [registrations_unregister]
    exact hbalanced.held
  left := by
    rw [registrations_unregister]
    exact fun s' id' hmem => hbalanced.left s' id' (mem_of_mem_set_none hmem)
  ended := by
    rw [registrations_unregister]
    exact hbalanced.ended_snoc hl hserver (.ok 0)
  balance := by
    intro id'
    have hbalance := hbalanced.balance id'
    have hleavers := leavers_set_none hl id'
    change holders c id' + _ + _ + _ = _
    simp only [timesRegistered, registrations_unregister, unregistrations_snoc, refusals_snoc,
      unregistered?, refused?, Option.toList, List.append_nil, List.count_append,
      List.count_singleton, beq_iff_eq] at hbalance ⊢
    omega
  records := by
    intro id' record
    have hrecords := hbalanced.records id' record
    simp only [Store.perform, Table.find?_erase, registrations_unregister, unregistrations_snoc,
      unregistered?, Option.toList, List.mem_append, List.mem_singleton]
    split
    · next hid => simp [hid]
    · next hid => simp [hrecords, Ne.symm hid]
  nodup := Table.nodup_keys_erase hbalanced.nodup id
  counter := by
    obtain ⟨_, record, _, hrecord, hid, _⟩ := hbalanced.left s id (List.mem_of_getElem? hl)
    have hplace := one_le_leavers (List.mem_of_getElem? hl)
    have hfound := (hbalanced.records id record).mpr
      ⟨hrecord, hid, hbalanced.not_mem_unregistrations honce (Nat.le_add_left_of_le hplace)⟩
    have hlength := Table.length_erase hbalanced.nodup id
    have hcounter := hbalanced.counter
    simp only [hfound, Option.isSome_some, if_true] at hlength
    simp only [Store.perform]
    omega

theorem Shares.setRegistry (hshares : c.Shares) (s : Nat) (r : Registry) :
    (c.setRegistry s r).Shares := by
  intro s' server' hserver'
  obtain ⟨server, hserver, _, hsharing, _⟩ := exists_of_setRegistry hserver'
  exact hsharing ▸ hshares s' server hserver

theorem Balanced.taken (hbalanced : Balanced c leaving settled) (hl : leaving[i]? = some none)
    (hserver : c.server? s = some server) {m : Member} (hm : server.registry.find? id = some m) :
    Balanced (c.setRegistry s (server.registry.take id).1) (leaving.set i (some (s, id)))
      settled where
  shares := hbalanced.shares.setRegistry _ _
  store := hbalanced.store
  held := by
    refine hasRecord_setRegistry hserver hbalanced.held fun id' m' hm' => ?_
    rw [Registry.find?_take] at hm'
    split at hm'
    · cases hm'
    · exact hbalanced.held s server id' m' hserver hm'
  left := by
    intro s' id' hmem
    apply HasServer.setRegistry
    rcases List.mem_or_eq_of_mem_set hmem with hmem | heq
    · exact hbalanced.left s' id' hmem
    · cases heq
      obtain ⟨x, _, hid, hrecord⟩ := hbalanced.held s server id m hserver hm
      exact ⟨server, _, hserver, hrecord, hid, rfl⟩
  ended := hbalanced.ended
  balance := by
    intro id'
    have hbalance := hbalanced.balance id'
    have hleavers := leavers_set_some hl s id id'
    have hholders := holders_setRegistry hserver (server.registry.take id).1 id'
    simp only [Registry.contains, Registry.find?_take] at hholders
    by_cases hid : id = id'
    · subst hid
      simp only [hm, if_true, Option.isSome_some, Option.isSome_none, Bool.false_eq_true,
        if_false] at hholders hleavers
      omega
    · simp only [hid, if_false, Nat.add_zero] at hholders hleavers
      have hsame := Nat.add_right_cancel hholders
      omega
  records := hbalanced.records
  nodup := hbalanced.nodup
  counter := hbalanced.counter

theorem enrol_eq (hserver : c.server? s = some server) {h : Nat} {x : Connection}
    (hx : c.connection? h = some x) :
    c.enrol s h = c.setRegistry s (server.registry.insert ⟨x.id, x.client, h⟩) := by
  rw [enrol, member?, hx, Cluster.registry_eq hserver]
  rfl

theorem Balanced.nowhere (hbalanced : Balanced c leaving settled)
    (hfirst : timesRegistered settled id = 0) :
    holders c id = 0 ∧ id ∉ unregistrations settled ∧
      ∀ record ∈ registrations settled, record.connection ≠ id := by
  have hbalance := hbalanced.balance id
  refine ⟨by omega, fun hmem => ?_, fun record hrecord hid => ?_⟩
  · have hcount := List.count_pos_iff.mpr hmem
    omega
  · have hcount : 0 < timesRegistered settled id :=
      List.count_pos_iff.mpr (List.mem_map.mpr ⟨record, hrecord, hid⟩)
    omega

/-- The store has no record of a connection that has never been registered. -/
theorem Balanced.find?_eq_none (hbalanced : Balanced c leaving settled)
    (hfirst : timesRegistered settled id = 0) : c.store.records.find? id = none := by
  refine Option.eq_none_iff_forall_ne_some.mpr fun record hrecord => ?_
  obtain ⟨hmem, hid, _⟩ := (hbalanced.records id record).mp hrecord
  exact (hbalanced.nowhere hfirst).2.2 record hmem hid

theorem Balanced.holders_insert (hbalanced : Balanced c leaving settled)
    (hserver : c.server? s = some server) {m : Member} (hfirst : timesRegistered settled m.id = 0)
    (id : ConnectionId) : holders (c.setRegistry s (server.registry.insert m)) id =
      holders c id + if m.id = id then 1 else 0 := by
  have hholders := holders_setRegistry hserver (server.registry.insert m) id
  simp only [Registry.contains, Registry.find?_insert] at hholders
  by_cases hid : m.id = id
  · subst hid
    have hfresh : (server.registry.find? m.id).isSome = false := by
      by_contra hcontains
      have hheld := one_le_holders hserver (Bool.not_eq_false _ ▸ hcontains)
      rw [(hbalanced.nowhere hfirst).1] at hheld
      cases hheld
    simpa only [hfresh, if_true, Option.isSome_some, Bool.false_eq_true, if_false,
      Nat.add_zero] using hholders
  · simp only [hid, if_false] at hholders ⊢
    exact Nat.add_right_cancel hholders

theorem Balanced.find?_set (hbalanced : Balanced c leaving settled) {r : Store.Record}
    (hfirst : timesRegistered settled r.connection = 0) (id : ConnectionId)
    (record : Store.Record) :
    (c.store.records.set r.connection r).find? id = some record ↔
      record ∈ registrations settled ++ [r] ∧ record.connection = id ∧
        id ∉ unregistrations settled := by
  obtain ⟨_, hnever, hothers⟩ := hbalanced.nowhere hfirst
  rw [Table.find?_set, List.mem_append, List.mem_singleton]
  by_cases hid : r.connection = id
  · subst hid
    rw [if_pos rfl, Option.some.injEq, eq_comm]
    refine ⟨fun h => ⟨Or.inr h, h ▸ rfl, hnever⟩,
      fun h => h.1.resolve_left fun hmem => ?_⟩
    exact hothers record hmem h.2.1
  · rw [if_neg hid, hbalanced.records id record]
    refine ⟨fun h => ⟨Or.inl h.1, h.2⟩,
      fun h => ⟨h.1.resolve_right fun hmem => ?_, h.2⟩⟩
    exact hid (hmem ▸ h.2.1)

/-- The store has heard of a connection for the first time, and it has been put into a registry. -/
theorem Balanced.registered {c₁ : Cluster} (hbalanced : Balanced c leaving settled)
    (hserver : c.server? s = some server) {h : Nat} {x : Connection}
    (hx : c.connection? h = some x) (lifetime : Nat) (hservers : c₁.servers = c.servers)
    (hconnections : c₁.connections = c.connections)
    (hstore : c₁.store = (c.store.perform (.register (recordOf server.id x) lifetime)).1)
    (hfirst : timesRegistered settled x.id = 0) :
    Balanced (c₁.enrol s h) leaving
      (settled ++ [(.register (recordOf server.id x) lifetime, .ok 0)]) := by
  have hserver? (i : Nat) : c₁.server? i = c.server? i := by rw [server?, server?, hservers]
  have hconnection? (i : Nat) : c₁.connection? i = c.connection? i := by
    rw [connection?, connection?, hconnections]
  have hnew : registrations (settled ++ [(.register (recordOf server.id x) lifetime, .ok 0)]) =
      registrations settled ++ [recordOf server.id x] := by
    simp [registered?]
  have hsubset := List.subset_append_left (registrations settled) [recordOf server.id x]
  rw [enrol_eq (hserver? s ▸ hserver) (hconnection? h ▸ hx)]
  constructor
  case shares =>
    refine Shares.setRegistry (fun i y hy => ?_) _ _
    exact hbalanced.shares i y (hserver? i ▸ hy)
  case store =>
    rw [storeAfter_ok, ← hbalanced.store]
    exact hstore
  case held =>
    have hold (s' : Nat) (server' : Server) (id' : ConnectionId) (m' : Member)
        (hserver' : c.server? s' = some server') (hm' : server'.registry.find? id' = some m') :
        HasRecord c₁ (registrations settled ++ [recordOf server.id x]) server'.id id' m' :=
      (hbalanced.held s' server' id' m' hserver' hm').mono hsubset hconnections
    rw [hnew]
    refine hasRecord_setRegistry (hserver? s ▸ hserver)
      (fun s' server' id' m' hserver' => hold s' server' id' m' (hserver? s' ▸ hserver')) ?_
    intro id' m' hm'
    rw [Registry.find?_insert] at hm'
    split at hm'
    · next hid =>
      cases hm'
      exact ⟨x, hconnection? h ▸ hx, hid, List.mem_append_right _ (List.mem_singleton_self _)⟩
    · exact hold s server id' m' hserver hm'
  case left =>
    intro s' id' hmem
    rw [hnew]
    exact ((hbalanced.left s' id' hmem).mono hsubset hservers).setRegistry _ _
  case ended =>
    intro serverId id' r hmem
    rw [List.mem_append, List.mem_singleton] at hmem
    have hold := hmem.resolve_right fun h => by cases h
    obtain ⟨record, hrecord, hname⟩ := hbalanced.ended serverId id' r hold
    exact ⟨record, hnew ▸ hsubset hrecord, hname⟩
  case balance =>
    -- One registration more and one holder more, for the name that is new.
    intro id'
    have hbalance := hbalanced.balance id'
    have hholders := hbalanced.holders_insert hserver (m := ⟨x.id, x.client, h⟩) hfirst id'
    have hsame : holders (c₁.setRegistry s (server.registry.insert ⟨x.id, x.client, h⟩)) id' =
        holders (c.setRegistry s (server.registry.insert ⟨x.id, x.client, h⟩)) id' :=
      holders_of_parts (by simp only [setRegistry, modifyServer, hservers]) id'
    simp only [timesRegistered_register, unregistrations_snoc, refusals_snoc, unregistered?,
      refused?, Option.toList, List.append_nil, hsame, hholders, recordOf] at hbalance ⊢
    omega
  case records =>
    intro id' record
    have hset := hbalanced.find?_set (r := recordOf server.id x) hfirst id' record
    change c₁.store.records.find? id' = some record ↔ _
    rw [hstore, hnew]
    simpa only [Store.perform, unregistrations_snoc, unregistered?, Option.toList,
      List.append_nil] using hset
  case nodup =>
    change (Table.keys c₁.store.records).Nodup
    rw [hstore]
    exact Table.nodup_keys_set hbalanced.nodup _ _
  case counter =>
    have hcounter := hbalanced.counter
    have hlength := Table.length_set c.store.records x.id (recordOf server.id x)
    rw [hbalanced.find?_eq_none hfirst, Option.isSome_none, if_neg Bool.false_ne_true] at hlength
    change c₁.store.counter = c₁.store.records.length
    rw [hstore]
    change c.store.counter + 1 = (Table.set c.store.records x.id (recordOf server.id x)).length
    omega

/-- A task has begun that has taken nothing out of a registry. -/
theorem Balanced.append_none (hbalanced : Balanced c leaving settled) :
    Balanced c (leaving ++ [none]) settled where
  shares := hbalanced.shares
  store := hbalanced.store
  held := hbalanced.held
  left := by
    intro s id hmem
    rw [List.mem_append, List.mem_singleton] at hmem
    exact hbalanced.left s id (hmem.resolve_right nofun)
  ended := hbalanced.ended
  balance := by simpa [leavers, List.countP_append] using hbalanced.balance
  records := hbalanced.records
  nodup := hbalanced.nodup
  counter := hbalanced.counter

theorem Balanced.deed {l l' : Option (Nat × ConnectionId)}
    {answer : Option (Store.Call × Except Error Nat)} (hbalanced : Balanced c leaving settled)
    (hl : leaving[i]? = some l) (hdeed : Deed c l c' l' answer)
    (honce : ∀ id, timesRegistered (settled ++ answer.toList) id ≤ 1) :
    Balanced c' (leaving.set i l') (settled ++ answer.toList) := by
  have hself : leaving.set i l = leaving := by
    obtain ⟨hlt, rfl⟩ := List.getElem?_eq_some_iff.mp hl
    exact List.set_getElem_self hlt
  cases hdeed with
  | quiet hquiet =>
    rw [hself, Option.toList_none, List.append_nil]
    exact hbalanced.quiet hquiet
  | @registered s h server x lifetime calls hserver hx =>
    have hid : timesRegistered (settled ++ _) x.id ≤ 1 := honce x.id
    rw [Option.toList_some, timesRegistered_register] at hid
    simp only [recordOf, if_true] at hid
    rw [hself]
    exact hbalanced.registered hserver hx _ rfl rfl rfl (by omega)
  | notRegistered hquiet =>
    rw [hself]
    exact (hbalanced.quiet hquiet).notRegistered _ _ _
  | taken hserver hm =>
    rw [Option.toList_none, List.append_nil]
    exact hbalanced.taken hl hserver hm
  | @unregistered s server id calls hserver =>
    have hid : timesRegistered (settled ++ _) id ≤ 1 := honce id
    rw [Option.toList_some, timesRegistered, registrations_unregister] at hid
    exact hbalanced.unregistered hl hserver hid calls
  | refused hserver hquiet =>
    obtain ⟨server', hserver', hname⟩ := hquiet.exists_after hserver
    rw [← hname]
    exact (hbalanced.quiet hquiet).refused hl hserver' _

end EventHub.Cluster
