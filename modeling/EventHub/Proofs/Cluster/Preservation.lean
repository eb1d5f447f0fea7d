import EventHub.Proofs.Cluster.Invariant
/-!
# Every step keeps the invariant

First the steps without a task, then those of a publication, of a subscriber and of the tasks that
write nothing.
-/

namespace EventHub.Cluster.Network

open Relay (Message)

variable {u : Setup} {n n' : Network}

/-! ## The start -/

theorem good_start (u : Setup) (capacity now : Nat) (stamp : Time.Timestamp) :
    Good u (start u capacity now stamp).cluster where
  ids := by
    simp only [start, List.map_map]
    exact List.map_id _
  plain := by
    intro s server hserver
    simp only [server?, start, List.getElem?_map] at hserver
    obtain ⟨id, _, rfl⟩ := Option.map_eq_some_iff.mp hserver
    exact ⟨rfl, rfl, rfl, rfl⟩
  agrees := by
    intro s
    simp only [registry, server?, start, List.getElem?_map]
    cases u.ids[s]? <;> exact Registry.agrees_empty
  members := by
    intro s m hm
    simp only [registry, server?, start, List.getElem?_map] at hm
    cases hid : u.ids[s]? <;> simp [hid, Registry.members, Table.values] at hm
  sound := by
    intro h x hx
    simp [connection?, start] at hx

theorem getElem?_start {capacity now : Nat} {stamp : Time.Timestamp} {i : Nat} {t : Task} :
    (start u capacity now stamp).tasks[i]? = some t ↔
      i < u.ids.length ∧ t = ⟨.subscriber i .first, none, none⟩ := by
  change ((List.range u.ids.length).map _)[i]? = some t ↔ _
  rw [List.getElem?_map, Option.map_eq_some_iff]
  constructor
  · rintro ⟨s, hs, rfl⟩
    obtain ⟨hlt, hs⟩ := List.getElem?_eq_some_iff.mp hs
    rw [List.getElem_range] at hs
    exact ⟨by simpa using hlt, by rw [hs]⟩
  · rintro ⟨hlt, rfl⟩
    exact ⟨i, List.getElem?_range hlt, rfl⟩

theorem inv_start (u : Setup) (capacity now : Nat) {stamp : Time.Timestamp}
    (hstamp : StampOk stamp) : Inv u (start u capacity now stamp) where
  good := good_start u capacity now stamp
  stamp := hstamp
  tasks := by
    intro i t ht
    obtain ⟨hlt, rfl⟩ := getElem?_start.mp ht
    exact ⟨rfl, hlt, rfl, fun _ _ => rfl⟩
  subscribers := by
    intro s hs
    exact ⟨_, .first, getElem?_start.mpr ⟨hs, rfl⟩, rfl⟩
  ring :=
    { counted := Relay.Ring.counted_ofCapacity capacity
      sent := rfl
      messages := by
        intro position m hm
        simp [start, Relay.Ring.at?, Relay.Ring.ofCapacity] at hm
      nodup := List.nodup_nil
      ended := by simp [start] }
  marks := by simp [start]
  ordered := by simp [start, positions]

/-! ## Steps without a task -/

theorem Inv.publish (hinv : Inv u n) {s : Nat} {target : Option ClientId} {event : Event}
    (hserver : s < u.ids.length) (hvalid : event.payload.Valid)
    (hdepth : event.payload.depth < Json.maxDepth) :
    Kept u n (n.spawn (.publication s (.ofEvent target event)) none) fun _ => True := by
  refine hinv.spawn ⟨rfl, hserver, hvalid, hdepth, ⟨rfl, rfl⟩, fun h _ => ?_⟩
  exact hinv.framesOf_task (List.getElem?_eq_none (Nat.le_refl _)) h

theorem Inv.register (hinv : Inv u n) (h : Nat) (cancelAt : Option Nat) :
    Kept u n (n.spawn (.add (u.home h) h .fresh) cancelAt) fun _ => True := by
  apply hinv.spawn
  rw [TaskOk]

theorem Inv.remove (hinv : Inv u n) (s : Nat) (id : ConnectionId) (cancelAt : Option Nat) :
    Kept u n (n.spawn (.removal s (.fresh id)) cancelAt) fun _ => True := by
  apply hinv.spawn
  rw [TaskOk]
  trivial

theorem Inv.connect (hinv : Inv u n) {x : Connection} (hwriter : x.writer.Sound) :
    Kept u n (n.withCluster { n.cluster with connections := n.cluster.connections ++ [x] })
      fun _ => True := by
  have hfound : ∀ h y, n.cluster.connection? h = some y →
      (n.cluster.connections ++ [x])[h]? = some y := by
    intro h y hy
    rw [List.getElem?_append_left (List.getElem?_eq_some_iff.mp hy).1]
    exact hy
  refine hinv.withCluster ⟨hinv.good.ids, hinv.good.plain, hinv.good.agrees, ?_, ?_⟩ ?_
    hinv.stamp rfl
  · intro s m hm
    obtain ⟨hhome, y, hy, hnames⟩ := hinv.good.members s m hm
    exact ⟨hhome, y, hfound _ y hy, hnames⟩
  · intro h y hy
    simp only [connection?] at hy
    rcases Nat.lt_or_ge h n.cluster.connections.length with hlt | hge
    · rw [List.getElem?_append_left hlt] at hy
      exact hinv.good.sound h y hy
    · rw [List.getElem?_append_right hge] at hy
      obtain ⟨_, hy⟩ := List.getElem?_eq_some_iff.mp hy
      simp only [List.getElem_singleton] at hy
      exact hy ▸ hwriter
  · exact fun h y hy => ⟨y, hfound h y hy, Connection.Later.refl y⟩

theorem Inv.outside (hinv : Inv u n) {h : Nat} {x x' : Connection}
    (hx : n.cluster.connection? h = some x) (hx' : x.Outside x') :
    Kept u n (n.withCluster (n.cluster.setConnection h x')) fun _ => True := by
  obtain ⟨hsound, hlater⟩ := hx'.spec (hinv.good.sound h x hx)
  have hlater' := later_setConnection hx hlater
  refine hinv.withCluster ⟨hinv.good.ids, hinv.good.plain, hinv.good.agrees, ?_,
    hinv.good.sound.setConnection hx hsound⟩ hlater' hinv.stamp rfl
  intro s m hm
  obtain ⟨hhome, y, hy, hid, hclient⟩ := hinv.good.members s m hm
  obtain ⟨y', hy', hconnection⟩ := hlater' _ y hy
  exact ⟨hhome, y', hy', hconnection.id_eq.trans hid, hconnection.client_eq.trans hclient⟩

theorem Inv.wait (hinv : Inv u n) (now : Nat) {stamp : Time.Timestamp} (hstamp : StampOk stamp) :
    Kept u n (n.withCluster { n.cluster with now := now, stamp := stamp }) fun _ => True :=
  hinv.withCluster ⟨hinv.good.ids, hinv.good.plain, hinv.good.agrees, hinv.good.members,
    hinv.good.sound⟩ (Later.of_connections rfl) hstamp rfl

/-! ## What a task is -/

def after (t : Task) : Progress Activity Outcome → Task
  | .blocked => t
  | .moved a => { t with activity := a }
  | .done o => { t with outcome := some o }

theorem step_of_live (stopFirst : Bool) (hlive : t.outcome = none)
    {p : Cluster × Progress Activity Outcome}
    (hp : t.activity.step c (t.isCancelled c.now) stopFirst = p) :
    (t.step c stopFirst).1 = p.1 ∧ (t.step c stopFirst).2.1 = after t p.2 := by
  rw [Task.step, if_neg (by simp [Task.isDone, hlive]), hp]
  obtain ⟨c, _ | a | o⟩ := p <;> exact ⟨rfl, rfl⟩

theorem stepPublication_moved {c c' : Cluster} {cancelled : Bool} {s : Nat} {p p' : Publication}
    (hp : c.stepPublication cancelled s p = (c', .moved p')) :
    p'.target = p.target ∧ p'.event = p.event := by
  cases p with
  | publishing target event q =>
    rw [stepPublication] at hp
    generalize c.stepLocal cancelled s q = step at hp
    obtain ⟨c'', _ | q' | ⟨e | _⟩⟩ := step
    · cases hp
    · cases hp
      exact ⟨rfl, rfl⟩
    · cases hp
    · dsimp only at hp
      split at hp
      · cases hp
        exact ⟨rfl, rfl⟩
      · cases hp
  | relaying target event =>
    rw [stepPublication] at hp
    split at hp
    · cases hp
    · split at hp <;> cases hp

/-- A publication stays one of the same call, and a subscriber one of the same server. -/
structure SameKind (a a' : Activity) : Prop where
  call : callIn a' = callIn a
  subscriber : ∀ s st, a = .subscriber s st → ∃ st', a' = .subscriber s st'

theorem SameKind.refl (a : Activity) : SameKind a a := ⟨rfl, fun _ st h => ⟨st, h⟩⟩

theorem step_moved {c c' : Cluster} {cancelled stopFirst : Bool} {a a' : Activity}
    (ha : a.step c cancelled stopFirst = (c', .moved a')) : SameKind a a' := by
  have hmoved := congrArg Prod.snd ha
  cases a with
  | publication s p =>
    obtain ⟨p', hp, rfl⟩ := Progress.map_mapState_eq_moved.mp hmoved
    obtain ⟨htarget, hevent⟩ := stepPublication_moved (Prod.ext rfl hp)
    exact ⟨by rw [callIn, htarget, hevent, callIn], fun _ _ h => by cases h⟩
  | subscriber s st =>
    obtain ⟨st', _, rfl⟩ := Progress.map_mapState_eq_moved.mp hmoved
    exact ⟨rfl, fun s' st'' h => by cases h; exact ⟨st', rfl⟩⟩
  | sleep time =>
    dsimp only [Activity.step] at hmoved
    split at hmoved <;> cases hmoved
  | _ =>
    obtain ⟨x, _, rfl⟩ := Progress.map_mapState_eq_moved.mp hmoved
    exact ⟨rfl, fun _ _ h => by cases h⟩

theorem sameKind_step (t : Task) (c : Cluster) (stopFirst : Bool) :
    SameKind t.activity (t.step c stopFirst).2.1.activity := by
  rw [Task.step]
  split
  · exact SameKind.refl _
  · split
    · exact SameKind.refl _
    · next hstep => exact step_moved hstep
    · exact SameKind.refl _

/-! ## Steps of a task -/

/-- A step of a task that is under way, in terms of the activity. -/
theorem stepTask_machine {i : Nat} {t : Task} (ht : n.tasks[i]? = some t) (stopFirst : Bool) :
    (n.stepTask stopFirst i).machine =
      ⟨(t.step n.cluster stopFirst).1, n.tasks.set i (t.step n.cluster stopFirst).2.1⟩ := by
  simp only [stepTask, Machine.stepTask, ht]

/-- Either there is nothing left to be done at a place, or a task is going on there. -/
theorem ended_or_live (tasks : List Task) (i : Nat) :
    (∀ t, tasks[i]? = some t → t.isDone = true) ∨
      ∃ t, tasks[i]? = some t ∧ t.outcome = none := by
  by_cases hended : ∀ t, tasks[i]? = some t → t.isDone = true
  · exact .inl hended
  · push Not at hended
    obtain ⟨t, ht, hdone⟩ := hended
    exact .inr ⟨t, ht, by simpa [Task.isDone] using hdone⟩

/-- The step of a task that has ended, or that is not there, changes nothing. -/
theorem machine_stepTask_of_ended {m : Machine} {i : Nat}
    (hended : ∀ t, m.tasks[i]? = some t → t.isDone = true) (stopFirst : Bool) :
    m.stepTask stopFirst i = m := by
  unfold Machine.stepTask
  split
  · rfl
  · next t ht =>
    rw [Task.step, if_pos (hended t ht)]
    obtain ⟨hlt, rfl⟩ := List.getElem?_eq_some_iff.mp ht
    exact congrArg (Machine.mk m.cluster) (List.set_getElem_self hlt)

theorem stepTask_of_ended {i : Nat} (hended : ∀ t, n.tasks[i]? = some t → t.isDone = true)
    (stopFirst : Bool) : n.stepTask stopFirst i = n := by
  unfold stepTask
  rw [machine_stepTask_of_ended hended]
  simp [news_self]

theorem Inv.next (hinv : Inv u n) {i : Nat} {t t' : Task} (ht : n.tasks[i]? = some t)
    {c : Cluster} (hmachine : n'.machine = ⟨c, n.tasks.set i t'⟩) (hgood : Good u c)
    (hstamp : StampOk c.stamp) (hextends : Extends n n') (hring : RingOk u n')
    (hok : TaskOk u n' i t') (hothers : ∀ j, j ≠ i → Undisturbed u n n' j)
    (hkind : SameKind t.activity t'.activity)
    (hmarks : ∀ h, ∀ m ∈ n'.accepted h, m ∈ n.accepted h ∨ MarkOk u n' h m)
    (hordered : ∀ h, (n'.positions h).Pairwise (· < ·)) : Kept u n n' (· ≠ i) := by
  have hlt : i < n.tasks.length := (List.getElem?_eq_some_iff.mp ht).1
  have htasks : ∀ j, n'.tasks[j]? = if i = j then some t' else n.tasks[j]? := by
    intro j
    change n'.machine.tasks[j]? = _
    rw [hmachine, List.getElem?_set]
    split <;> rfl
  have hcluster : n'.cluster = c := congrArg Machine.cluster hmachine
  refine ⟨?_, hextends, hothers⟩
  exact {
    good := hcluster ▸ hgood
    stamp := hcluster ▸ hstamp
    tasks := by
      intro j x hx
      rw [htasks] at hx
      split at hx
      · next hj =>
        cases hx
        exact hj ▸ hok
      · next hj => exact (hinv.tasks j x hx).extends hextends (hothers j (Ne.symm hj))
    subscribers := by
      intro s hs
      obtain ⟨x, st, hx, hst⟩ := hinv.subscribers s hs
      rw [htasks]
      split
      · next hj =>
        subst hj
        rw [ht, Option.some.injEq] at hx
        obtain ⟨st', hst'⟩ := hkind.subscriber i st (hx ▸ hst)
        exact ⟨t', st', rfl, hst'⟩
      · exact ⟨x, st, hx, hst⟩
    ring := hring
    marks := fun h m hm => (hmarks h m hm).elim (fun hm => (hinv.marks h m hm).extends hextends) id
    ordered := hordered }

variable {i : Nat} {t t' : Task} {c : Cluster} {stopFirst : Bool}

theorem getElem?_stepTask (ht : n.tasks[i]? = some t) (stopFirst : Bool) (j : Nat) :
    (n.stepTask stopFirst i).tasks[j]? =
      if i = j then some (t.step n.cluster stopFirst).2.1 else n.tasks[j]? := by
  change (n.stepTask stopFirst i).machine.tasks[j]? = _
  have hlt : i < n.tasks.length := (List.getElem?_eq_some_iff.mp ht).1
  rw [stepTask_machine ht, List.getElem?_set]
  split <;> rfl

theorem cluster_stepTask (ht : n.tasks[i]? = some t) (stopFirst : Bool) :
    (n.stepTask stopFirst i).cluster = (t.step n.cluster stopFirst).1 :=
  congrArg Machine.cluster (stepTask_machine ht stopFirst)

theorem accepted_stepTask (ht : n.tasks[i]? = some t) (stopFirst : Bool) (h : Nat) :
    (n.stepTask stopFirst i).accepted h = n.accepted h ++
      (n.cluster.news (t.step n.cluster stopFirst).1 h).map
        fun frame => ⟨n.source i, frame⟩ := by
  rw [← cluster_stepTask ht]
  rfl

theorem relayed_stepTask (ht : n.tasks[i]? = some t) (stopFirst : Bool) :
    (n.stepTask stopFirst i).relayed =
      if n.cluster.ring.sent < (t.step n.cluster stopFirst).1.ring.sent then n.relayed ++ [i]
      else n.relayed := by
  rw [← cluster_stepTask ht]
  rfl

theorem extends_stepTask (ht : n.tasks[i]? = some t)
    (hlater : Later n.cluster (t.step n.cluster stopFirst).1)
    (hsent : n.cluster.ring.sent ≤ (t.step n.cluster stopFirst).1.ring.sent) :
    Extends n (n.stepTask stopFirst i) where
  later := cluster_stepTask ht stopFirst ▸ hlater
  sent := cluster_stepTask ht stopFirst ▸ hsent
  relayed := by
    rw [relayed_stepTask ht]
    split
    · exact List.prefix_append _ _
    · exact List.prefix_refl _
  calls := by
    intro j call hj
    rw [call?, getElem?_stepTask ht]
    split
    · next hi =>
      subst hi
      rw [call?, ht] at hj
      rw [Option.bind_some, (sameKind_step t n.cluster stopFirst).call]
      exact hj
    · exact hj

theorem ended_stepTask (ht : n.tasks[i]? = some t) (hlive : t.outcome = none) {j : Nat} {x : Task}
    (hx : n.tasks[j]? = some x) (hended : x.outcome.isSome = true) :
    (n.stepTask stopFirst i).tasks[j]? = some x := by
  rw [getElem?_stepTask ht]
  split
  · next hi =>
    subst hi
    rw [ht, Option.some.injEq] at hx
    rw [← hx, hlive] at hended
    cases hended
  · exact hx

theorem undisturbed_stepTask (ht : n.tasks[i]? = some t)
    (hsource : n.source i = .task i ∨ ∀ h, u.home h ≠ i →
      n.cluster.news (t.step n.cluster stopFirst).1 h = [])
    (hmessage : ∀ j, n.source i = .task j → j = i) {j : Nat} (hj : j ≠ i) :
    Undisturbed u n (n.stepTask stopFirst i) j := by
  have hframes := fun h => framesOf_append (accepted_stepTask ht stopFirst h)
  have hpositions := fun h => positions_append (accepted_stepTask ht stopFirst h)
  constructor
  · intro h
    rw [hframes, if_neg fun hsame => hj (hmessage j hsame), List.append_nil]
  · intro h hh
    rcases hsource with hsource | hsource
    · refine ⟨?_, fun position => ?_⟩
      · rw [hpositions, hsource]
        simp [Source.position?]
      · rw [hframes, if_neg (by simp [hsource]), List.append_nil]
    · have hnews := hsource h (hh ▸ hj)
      refine ⟨?_, fun position => ?_⟩
      · rw [hpositions, hnews]
        simp
      · rw [hframes, hnews]
        simp

/-- A step that writes nothing and puts nothing on the relay. -/
theorem Inv.silent (hinv : Inv u n) (ht : n.tasks[i]? = some t) (hlive : t.outcome = none)
    (hsilent : Silent u n.cluster (t.step n.cluster stopFirst).1)
    (hok : ∀ n', Extends n n' → n'.cluster = (t.step n.cluster stopFirst).1 →
      n'.accepted = n.accepted → n'.relayed = n.relayed →
      TaskOk u n' i (t.step n.cluster stopFirst).2.1) :
    Kept u n (n.stepTask stopFirst i) (· ≠ i) := by
  have hcluster := cluster_stepTask ht stopFirst
  have hextends := extends_stepTask ht hsilent.later
    (Nat.le_of_eq (congrArg _ hsilent.ring.symm))
  have haccepted : (n.stepTask stopFirst i).accepted = n.accepted := by
    funext h
    rw [accepted_stepTask ht, hsilent.news_eq, List.map_nil, List.append_nil]
  have hrelayed : (n.stepTask stopFirst i).relayed = n.relayed := by
    rw [relayed_stepTask ht, hsilent.ring, if_neg (Nat.lt_irrefl _)]
  refine hinv.next ht (stepTask_machine ht stopFirst) hsilent.good (hsilent.stamp ▸ hinv.stamp)
    hextends (hinv.ring.extends hextends (hcluster ▸ hsilent.ring) hrelayed
      fun j x hx hended => ended_stepTask ht hlive hx hended)
    (hok _ hextends hcluster haccepted hrelayed) (fun j _ => undisturbed_of_accepted haccepted j)
    (sameKind_step t n.cluster stopFirst) (fun h m hm => Or.inl (haccepted ▸ hm)) fun h => ?_
  rw [positions, haccepted]
  exact hinv.ordered h

/-! ## Registrations and removals -/

theorem Inv.stepRegistration (hinv : Inv u n) (ht : n.tasks[i]? = some t)
    (hlive : t.outcome = none) {s h : Nat} {w : StoreWait} (hactivity : t.activity = .add s h w) :
    Kept u n (n.stepTask stopFirst i) (· ≠ i) := by
  have hhome : u.home h = s := by
    have hok := hinv.tasks i t ht
    rwa [TaskOk, hactivity] at hok
  have hsilent := silent_stepAdd hinv.good (t.isCancelled n.cluster.now) hhome w
  obtain ⟨hfst, hsnd⟩ := step_of_live (c := n.cluster) stopFirst hlive rfl
  rw [hactivity] at hfst hsnd
  have hadd : ∃ w', (t.step n.cluster stopFirst).2.1.activity = .add s h w' := by
    rw [hsnd]
    simp only [Activity.step]
    cases (n.cluster.stepAdd (t.isCancelled n.cluster.now) s h w).2 with
    | moved w' => exact ⟨w', rfl⟩
    | _ => exact ⟨w, hactivity⟩
  obtain ⟨w', hw'⟩ := hadd
  apply hinv.silent ht hlive (hfst ▸ hsilent)
  intro n' _ _ _ _
  rw [TaskOk, hw']
  exact hhome

theorem Inv.stepRemoval (hinv : Inv u n) (ht : n.tasks[i]? = some t)
    (hlive : t.outcome = none) {s : Nat} {r : Removal} (hactivity : t.activity = .removal s r) :
    Kept u n (n.stepTask stopFirst i) (· ≠ i) := by
  have hsilent := silent_stepRemoval hinv.good s r
  obtain ⟨hfst, hsnd⟩ := step_of_live (c := n.cluster) stopFirst hlive rfl
  rw [hactivity] at hfst hsnd
  have hremoval : ∃ r', (t.step n.cluster stopFirst).2.1.activity = .removal s r' := by
    rw [hsnd]
    simp only [Activity.step]
    cases (n.cluster.stepRemoval s r).2 with
    | moved r' => exact ⟨r', rfl⟩
    | _ => exact ⟨r, hactivity⟩
  obtain ⟨r', hr'⟩ := hremoval
  apply hinv.silent ht hlive (hfst ▸ hsilent)
  intro n' _ _ _ _
  rw [TaskOk, hr']
  trivial

end EventHub.Cluster.Network
