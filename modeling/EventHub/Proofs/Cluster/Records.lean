import EventHub.Proofs.Cluster.Balance
import EventHub.Proofs.Cluster.Preservation
/-!
# The records of a fleet

Whatever happens on the servers, and however often the store fails: the store has the records of the
connections that are registered on some server and of those that have been taken out of a registry
without the store having heard of it, and its counter is the number of its records. Nothing is
unregistered twice.
-/

namespace EventHub.Fleet

open Cluster

variable {n n' : Fleet}

def Held (n : Fleet) (record : Store.Record) : Prop :=
  ∃ s server m x, n.cluster.server? s = some server ∧
    server.registry.find? record.connection = some m ∧
    n.cluster.connection? m.handle = some x ∧ record = recordOf server.id x

/-- The connection has been registered and is in no registry any more, but the store has not heard
of that: its server is still at it, or the call has failed. -/
def Departing (n : Fleet) (record : Store.Record) : Prop :=
  record ∈ registrations n.settled ∧
    (∀ s server, n.cluster.server? s = some server →
      server.registry.find? record.connection = none) ∧
    ((∃ s server, n.cluster.server? s = some server ∧ server.id = record.server ∧
        some (s, record.connection) ∈ n.leaving) ∨
      ∃ e, (.unregister record.server record.connection, .error e) ∈ n.settled)

def Once (n : Fleet) : Prop := ((registrations n.settled).map (·.connection)).Nodup

structure Accounted (n : Fleet) : Prop where
  /-- The store is what the registrations and unregistrations that succeeded have made of it. -/
  store : n.cluster.store = storeAfter n.settled
  records : ∀ id record, n.cluster.store.records.find? id = some record ↔
    record.connection = id ∧ (n.Held record ∨ n.Departing record)
  held : ∀ s server id m, n.cluster.server? s = some server →
    server.registry.find? id = some m →
      ∃ record, record.server = server.id ∧ record.connection = id ∧ n.Held record
  left : ∀ s id, some (s, id) ∈ n.leaving →
    ∃ record, record.connection = id ∧ n.Departing record
  refused : ∀ serverId id e, (.unregister serverId id, .error e) ∈ n.settled →
    ∃ record, record.server = serverId ∧ record.connection = id ∧ n.Departing record
  nodup : (Table.keys n.cluster.store.records).Nodup
  counter : n.cluster.store.counter = n.cluster.store.records.length
  once : (unregistrations n.settled).Nodup
  unregistered : ∀ id ∈ unregistrations n.settled,
    id ∈ (registrations n.settled).map (·.connection)

/-! ## Runs -/

theorem leaving_spawn (n : Fleet) {activity : Activity} (hfresh : activity.leaving? = none)
    (cancelAt : Option Nat) : (n.spawn activity cancelAt).leaving = n.leaving ++ [none] := by
  change (n.tasks ++ [_]).map Task.leaving? = _
  rw [List.map_append, List.map_singleton, Task.leaving?, hfresh]
  rfl

theorem machine_stepTask {i : Nat} {t : Task} (ht : n.tasks[i]? = some t)
    (hlive : t.outcome = none) (stopFirst : Bool) {p : Cluster × Progress Activity Outcome}
    (hp : t.activity.step n.cluster (t.isCancelled n.cluster.now) stopFirst = p) :
    (n.stepTask stopFirst i).machine = ⟨p.1, n.tasks.set i (Network.after t p.2)⟩ := by
  obtain ⟨hfst, hsnd⟩ := Network.step_of_live stopFirst hlive hp
  simp only [stepTask, Machine.stepTask, ht, ← hfst, ← hsnd]

theorem leaving?_of_live {t : Task} (hlive : t.outcome = none) :
    t.leaving? = t.activity.leaving? := by
  simp [Task.leaving?, Task.isDone, hlive]

theorem leaving?_after {t : Task} (hlive : t.outcome = none) (p : Progress Activity Outcome) :
    (Network.after t p).leaving? = leavingAfter t.activity p := by
  cases p with
  | blocked => exact leaving?_of_live hlive
  | moved a => exact leaving?_of_live hlive
  | done o => rfl

theorem stepTask_of_ended {i : Nat} (hended : ∀ t, n.tasks[i]? = some t → t.isDone = true)
    (stopFirst : Bool) : n.stepTask stopFirst i = n := by
  have hnone : (n.tasks[i]?.bind fun t => t.settled? n.cluster) = none := by
    rw [Option.bind_eq_none_iff]
    exact fun t ht => if_pos (hended t ht)
  unfold stepTask
  rw [Network.machine_stepTask_of_ended hended, hnone, Option.toList_none, List.append_nil]

theorem Step.exists_settled (hstep : Step n n') : ∃ rest, n'.settled = n.settled ++ rest := by
  cases hstep with
  | task => exact ⟨_, rfl⟩
  | spawn | outside => exact ⟨[], (List.append_nil _).symm⟩

theorem Once.before (honce : n'.Once) (hstep : Step n n') : n.Once := by
  obtain ⟨rest, hrest⟩ := hstep.exists_settled
  rw [Once, hrest, registrations, List.filterMap_append, List.map_append] at honce
  exact (List.nodup_append.mp honce).1

theorem Once.timesRegistered_le (honce : n.Once) (id : ConnectionId) :
    timesRegistered n.settled id ≤ 1 :=
  List.nodup_iff_count_le_one.mp honce id

theorem balanced_start {c : Cluster} (hstart : Start c) : Balanced c [] [] where
  shares := fun s server hserver => (hstart.servers s server hserver).1
  store := hstart.store
  held := by
    intro s server id m hserver hm
    rw [(hstart.servers s server hserver).2] at hm
    cases hm
  left := nofun
  ended := nofun
  balance := by
    intro id
    have hnone : holders c id = 0 := by
      refine List.countP_eq_zero.mpr fun server hmem hcontains => ?_
      obtain ⟨s, hserver⟩ := List.mem_iff_getElem?.mp hmem
      rw [(hstart.servers s server hserver).2] at hcontains
      cases hcontains
    rw [hnone]
    rfl
  records := by simp [hstart.store, Table.find?, registrations]
  nodup := by simp [hstart.store, Table.keys]
  counter := by simp [hstart.store]

theorem balanced_step (hbalanced : Balanced n.cluster n.leaving n.settled) (hstep : Step n n')
    (honce : n'.Once) : Balanced n'.cluster n'.leaving n'.settled := by
  cases hstep with
  | task stopFirst i =>
    rcases Network.ended_or_live n.tasks i with hended | ⟨t, ht, hlive⟩
    · rwa [stepTask_of_ended hended]
    have hmachine := machine_stepTask ht hlive stopFirst rfl
    have hl : n.leaving[i]? = some t.activity.leaving? := by
      rw [leaving, List.getElem?_map, ht, Option.map_some, leaving?_of_live hlive]
    have hleaving : (n.stepTask stopFirst i).leaving = n.leaving.set i (leavingAfter t.activity
        (t.activity.step n.cluster (t.isCancelled n.cluster.now) stopFirst).2) := by
      rw [leaving, tasks, hmachine, List.map_set, leaving?_after hlive]
      rfl
    have hsettled : (n.stepTask stopFirst i).settled = n.settled ++
        (t.activity.settled? n.cluster (t.isCancelled n.cluster.now)).toList := by
      simp [stepTask, ht, Task.settled?, Task.isDone, hlive]
    have hserver : ∀ s id, t.activity.leaving? = some (s, id) →
        (n.cluster.server? s).isSome = true := by
      intro s id hid
      obtain ⟨server, _, hserver, _⟩ :=
        hbalanced.left s id (List.mem_of_getElem? (hl.trans (congrArg some hid)))
      exact Option.isSome_of_eq_some hserver
    have hdeed := step_deed hbalanced.shares t.activity (t.isCancelled n.cluster.now) stopFirst
      hserver
    rw [cluster, hmachine, hleaving, hsettled]
    exact hbalanced.deed hl hdeed fun id => hsettled ▸ honce.timesRegistered_le id
  | spawn activity cancelAt hfresh =>
    rw [leaving_spawn n hfresh]
    exact hbalanced.append_none
  | outside c hquiet => exact hbalanced.quiet hquiet

theorem Reachable.balanced (hn : Reachable n) (honce : n.Once) :
    Balanced n.cluster n.leaving n.settled := by
  induction hn with
  | start c hstart => exact balanced_start hstart
  | step _ hstep ih => exact balanced_step (ih (honce.before hstep)) hstep honce

/-! ## Every record -/

section

variable (hbalanced : Balanced n.cluster n.leaving n.settled) {id : ConnectionId}
  {record record' : Store.Record}

theorem Once.record_eq (honce : n.Once) (hrecord : record ∈ registrations n.settled)
    (hrecord' : record' ∈ registrations n.settled)
    (hid : record.connection = record'.connection) :
    record = record' :=
  List.inj_on_of_nodup_map honce hrecord hrecord' hid

theorem find?_of_holders (hnone : holders n.cluster id = 0) (s : Nat) (server : Server)
    (hserver : n.cluster.server? s = some server) : server.registry.find? id = none := by
  by_contra hsome
  have hheld := one_le_holders hserver (Option.isSome_iff_ne_none.mpr hsome)
  omega

include hbalanced

theorem exists_held {s : Nat} {server : Server} {m : Member}
    (hserver : n.cluster.server? s = some server) (hm : server.registry.find? id = some m) :
    ∃ record ∈ registrations n.settled, record.server = server.id ∧ record.connection = id ∧
      n.Held record := by
  obtain ⟨x, hx, hid, hrecord⟩ := hbalanced.held s server id m hserver hm
  subst hid
  exact ⟨recordOf server.id x, hrecord, rfl, rfl, s, server, m, x, hserver, hm, hx, rfl⟩

theorem find?_of_held (honce : n.Once) (hheld : n.Held record) :
    n.cluster.store.records.find? record.connection = some record := by
  obtain ⟨s, server, m, x, hserver, hm, hx, rfl⟩ := hheld
  obtain ⟨x', hx', _, hrecord⟩ := hbalanced.held s server _ m hserver hm
  rw [hx, Option.some.injEq] at hx'
  have hplace := one_le_holders hserver (Option.isSome_of_eq_some hm)
  exact (hbalanced.records _ _).mpr ⟨hx' ▸ hrecord, rfl,
    hbalanced.not_mem_unregistrations (honce.timesRegistered_le _)
      (Nat.le_add_right_of_le hplace)⟩

theorem exists_departing_of_left (honce : n.Once) {s : Nat} (hleft : some (s, id) ∈ n.leaving) :
    ∃ record, record.connection = id ∧ n.Departing record := by
  obtain ⟨server, record, hserver, hrecord, hid, hname⟩ := hbalanced.left s id hleft
  have hplace := one_le_leavers hleft
  have hbalance := hbalanced.balance id
  have htimes := honce.timesRegistered_le id
  subst hid
  refine ⟨record, rfl, hrecord, find?_of_holders (by omega),
    Or.inl ⟨s, server, hserver, ?_, hleft⟩⟩
  exact hname.symm

theorem exists_departing_of_refused (honce : n.Once) {serverId : ServerId} {e : Error}
    (hrefused : (.unregister serverId id, .error e) ∈ n.settled) :
    ∃ record, record.server = serverId ∧ record.connection = id ∧ n.Departing record := by
  obtain ⟨record, hrecord, hid, hname⟩ := hbalanced.ended serverId id _ hrefused
  have hplace : 0 < (refusals n.settled).count id :=
    List.count_pos_iff.mpr (mem_refusals.mpr ⟨serverId, e, hrefused⟩)
  have hbalance := hbalanced.balance id
  have htimes := honce.timesRegistered_le id
  subst hid hname
  exact ⟨record, rfl, rfl, hrecord, find?_of_holders (by omega), Or.inr ⟨e, hrefused⟩⟩

theorem find?_of_departing (honce : n.Once) (hdeparting : n.Departing record) :
    n.cluster.store.records.find? record.connection = some record := by
  obtain ⟨hrecord, _, hplace⟩ := hdeparting
  refine (hbalanced.records _ _).mpr ⟨hrecord, rfl, fun hmem => ?_⟩
  have hcount := List.count_pos_iff.mpr hmem
  have hbalance := hbalanced.balance record.connection
  have htimes := honce.timesRegistered_le record.connection
  rcases hplace with ⟨s, _, _, _, hleft⟩ | ⟨e, hrefused⟩
  · have hleavers := one_le_leavers hleft
    omega
  · have hrefusals : 0 < (refusals n.settled).count record.connection :=
      List.count_pos_iff.mpr (mem_refusals.mpr ⟨record.server, e, hrefused⟩)
    omega

/-- A record belongs to a connection that is in a registry or has been taken out of one. -/
theorem held_or_departing (honce : n.Once)
    (hfound : n.cluster.store.records.find? id = some record) :
    record.connection = id ∧ (n.Held record ∨ n.Departing record) := by
  obtain ⟨hrecord, hid, hkept⟩ := (hbalanced.records id record).mp hfound
  refine ⟨hid, ?_⟩
  -- Registered and never unregistered: the balance leaves it one of three places.
  have hbalance := hbalanced.balance id
  have hnever : (unregistrations n.settled).count id = 0 := List.count_eq_zero.mpr hkept
  have hregistered : 0 < timesRegistered n.settled id :=
    List.count_pos_iff.mpr (List.mem_map.mpr ⟨record, hrecord, hid⟩)
  by_cases hholders : 0 < holders n.cluster id
  · obtain ⟨server, hmem, hcontains⟩ := List.countP_pos_iff.mp hholders
    obtain ⟨s, hserver⟩ := List.mem_iff_getElem?.mp hmem
    obtain ⟨m, hm⟩ := Option.isSome_iff_exists.mp hcontains
    obtain ⟨record', hrecord', _, hid', hheld⟩ := exists_held hbalanced hserver hm
    exact Or.inl (honce.record_eq hrecord hrecord' (hid.trans hid'.symm) ▸ hheld)
  right
  obtain ⟨record', hid', hdeparting⟩ :
      ∃ record, record.connection = id ∧ n.Departing record := by
    by_cases hleavers : 0 < leavers n.leaving id
    · obtain ⟨_ | ⟨s, id'⟩, hmem, hl⟩ := List.countP_pos_iff.mp hleavers
      · cases hl
      · obtain rfl : id' = id := of_decide_eq_true hl
        exact exists_departing_of_left hbalanced honce hmem
    · have hrefusals : 0 < (refusals n.settled).count id := by omega
      obtain ⟨_, _, hrefused⟩ := mem_refusals.mp (List.count_pos_iff.mp hrefusals)
      exact (exists_departing_of_refused hbalanced honce hrefused).imp fun _ => And.right
  exact honce.record_eq hrecord hdeparting.1 (hid.trans hid'.symm) ▸ hdeparting

end

theorem Reachable.accounted (hn : Reachable n) (honce : n.Once) : n.Accounted := by
  have hbalanced := hn.balanced honce
  constructor
  case store => exact hbalanced.store
  case records =>
    intro id record
    refine ⟨held_or_departing hbalanced honce, ?_⟩
    rintro ⟨rfl, hheld | hdeparting⟩
    · exact find?_of_held hbalanced honce hheld
    · exact find?_of_departing hbalanced honce hdeparting
  case held =>
    intro s server id m hserver hm
    obtain ⟨record, _, hheld⟩ := exists_held hbalanced hserver hm
    exact ⟨record, hheld⟩
  case left => exact fun s id => exists_departing_of_left hbalanced honce
  case refused => exact fun serverId id e => exists_departing_of_refused hbalanced honce
  case nodup => exact hbalanced.nodup
  case counter => exact hbalanced.counter
  case once =>
    refine List.nodup_iff_count_le_one.mpr fun id => ?_
    have hbalance := hbalanced.balance id
    have htimes := honce.timesRegistered_le id
    omega
  case unregistered =>
    intro id hmem
    have hcount := List.count_pos_iff.mpr hmem
    have hbalance := hbalanced.balance id
    exact List.count_pos_iff.mp (show 0 < timesRegistered n.settled id by omega)

/-- A step of adding a connection that does not end well has changed nothing. -/
theorem Reachable.quiet_add (hn : Reachable n) (honce : n.Once) {i : Nat} {t : Task} {s h : Nat}
    {w : StoreWait} (ht : n.tasks[i]? = some t) (hadd : t.activity = .add s h w)
    (stopFirst : Bool)
    (hresult : ∀ t', (n.stepTask stopFirst i).tasks[i]? = some t' →
      t'.outcome ≠ some (.result (.ok ()))) :
    Quiet n.cluster (n.stepTask stopFirst i).cluster := by
  by_cases hlive : t.isDone = true
  · rw [stepTask_of_ended (fun t' ht' => by rw [ht] at ht'; cases ht'; exact hlive)]
    exact Quiet.refl _
  have hmachine := machine_stepTask ht (by simpa [Task.isDone] using hlive) stopFirst rfl
  rw [cluster, cluster, hmachine, hadd]
  refine quiet_stepAdd (hn.balanced honce).shares fun hdone => ?_
  have hactivity : (t.activity.step n.cluster (t.isCancelled n.cluster.now) stopFirst).2 =
      .done (.result (.ok ())) := by
    simp only [hadd, Activity.step, hdone]
    rfl
  rw [hactivity] at hmachine
  refine hresult { t with outcome := some (.result (.ok ())) } ?_ rfl
  rw [tasks, hmachine]
  exact List.getElem?_set_self (List.getElem?_eq_some_iff.mp ht).1

/-- Whatever happens, however the store fails: if no connection is registered twice, the records of
the store are those of the connections that are in a registry and of those that have been taken out
of one while the store has not heard of it; the counter is their number, no connection is
unregistered twice, and adding a connection changes nothing unless it ends well. -/
theorem records_accounted (hn : Reachable n) (honce : n.Once) :
    n.Accounted ∧ ∀ i t s h w stopFirst, n.tasks[i]? = some t → t.activity = .add s h w →
      (∀ t', (n.stepTask stopFirst i).tasks[i]? = some t' →
        t'.outcome ≠ some (.result (.ok ()))) →
      Quiet n.cluster (n.stepTask stopFirst i).cluster :=
  ⟨hn.accounted honce, fun _ _ _ _ _ stopFirst ht hadd => hn.quiet_add honce ht hadd stopFirst⟩

/-! Two servers with one connection each. The store refuses to unregister the first connection,
and a sweep has taken out the second one, which is dead. -/

def stepTasks (n : Fleet) (tasks : List Nat) : Fleet :=
  tasks.foldl (fun n i => n.stepTask true i) n

theorem Reachable.stepTasks (hn : Reachable n) (tasks : List Nat) :
    Reachable (n.stepTasks tasks) := by
  induction tasks generalizing n with
  | nil => exact hn
  | cons i tasks ih => exact ih (hn.step (.task n true i))

def opening : Cluster where
  stamp := .epoch
  ring := .ofCapacity 1
  connections :=
    [⟨⟨"x"⟩, "u", none, true, .recorder {}⟩,
      ⟨⟨"y"⟩, "v", some "7", false, .recorder {}⟩]
  servers := [{ id := ⟨"a"⟩, sharing := some ⟨60000, 20000⟩ },
    { id := ⟨"b"⟩, sharing := some ⟨60000, 20000⟩ }]

def joined : Fleet :=
  (((⟨⟨opening, []⟩, []⟩ : Fleet).spawn (.add 0 0 .fresh) none).spawn (.add 1 1 .fresh)
    none).stepTasks [0, 1]

def failing : Fleet :=
  joined.withCluster { joined.cluster with
    troubles := [⟨"unregister", none, ⟨.store .unavailable, none⟩⟩] }

def parting : Fleet :=
  ((failing.spawn (.removal 0 (.fresh ⟨"x"⟩)) none).spawn (.sweep 1 .fresh) none).stepTasks
    [2, 2, 3, 3, 3, 3]

theorem reachable_parting : Reachable parting := by
  have hstart : Start opening := by
    refine ⟨fun s server hserver => ?_, rfl⟩
    match s with
    | 0 | 1 =>
      cases hserver
      exact ⟨rfl, rfl⟩
    | _ + 2 => cases hserver
  have hjoined : Reachable joined :=
    (((Reachable.start opening hstart).step (.spawn _ _ none rfl)).step
      (.spawn _ _ none rfl)).stepTasks [0, 1]
  have hfailing : Reachable failing := hjoined.step (.outside _ _ (Quiet.of_eq rfl rfl rfl))
  exact ((hfailing.step (.spawn _ _ none rfl)).step (.spawn _ _ none rfl)).stepTasks _

theorem records_accounted_parting :
    parting.leaving = [none, none, none, some (1, ⟨"y"⟩)] ∧
    parting.Departing ⟨⟨"a"⟩, "u", ⟨"x"⟩, none⟩ ∧
      parting.Departing ⟨⟨"b"⟩, "v", ⟨"y"⟩, some "7"⟩ ∧
    parting.cluster.store.counter = 2 := by
  have honce : parting.Once := by
    unfold Once
    decide +kernel
  have hleaving : parting.leaving = [none, none, none, some (1, ⟨"y"⟩)] := by rfl
  have hrefused : parting.settled[2]? =
      some (.unregister ⟨"a"⟩ ⟨"x"⟩, .error ⟨.store .unavailable, none⟩) := by rfl
  have hfound : parting.cluster.store.records.find? ⟨"x"⟩ =
        some ⟨⟨"a"⟩, "u", ⟨"x"⟩, none⟩ ∧
      parting.cluster.store.records.find? ⟨"y"⟩ =
        some ⟨⟨"b"⟩, "v", ⟨"y"⟩, some "7"⟩ ∧
      parting.cluster.store.records.length = 2 := by decide +kernel
  obtain ⟨haccounted, _⟩ := records_accounted reachable_parting honce
  obtain ⟨hx, hy, hlength⟩ := hfound
  refine ⟨hleaving, ?_, ?_, by rw [haccounted.counter, hlength]; rfl⟩
  · obtain ⟨record, _, hid, hdeparting⟩ :=
      haccounted.refused _ _ _ (List.mem_of_getElem? hrefused)
    have hrecord := (haccounted.records _ record).mpr ⟨hid, Or.inr hdeparting⟩
    rw [hx, Option.some.injEq] at hrecord
    rwa [hrecord]
  · obtain ⟨record, hid, hdeparting⟩ := haccounted.left 1 ⟨"y"⟩ (by simp [hleaving])
    have hrecord := (haccounted.records _ record).mpr ⟨hid, Or.inr hdeparting⟩
    rw [hy, Option.some.injEq] at hrecord
    rwa [hrecord]

end EventHub.Fleet
