import EventHub.Proofs.Cluster.Sweeps
/-!
# Removals that finish their job

A delivery removes the connections whose sends have failed, a sweep those that it has found dead,
and a server that shuts down all that it has. Each of them takes every name out of both tables
before the store is asked about it, so nothing that the store answers keeps the next name from its
turn.
-/

namespace EventHub

/-! ## Registries without a name -/

namespace Registry

variable {r : Registry} {id : ConnectionId}

def Absent (r : Registry) (id : ConnectionId) : Prop :=
  r.find? id = none ∧ ∀ client, id ∉ r.names client

theorem Agrees.absent (hagrees : r.Agrees) (hnone : r.find? id = none) : r.Absent id := by
  refine ⟨hnone, fun client hmem => ?_⟩
  obtain ⟨m, hm, _⟩ := (hagrees.mem_names client id).mp hmem
  rw [hnone] at hm
  cases hm

theorem Agrees.absent_take (hagrees : r.Agrees) (id : ConnectionId) : (r.take id).1.Absent id :=
  (hagrees.take id).absent ((find?_take id id).trans (if_pos rfl))

/-- A registry without connections has no clients either. -/
theorem Agrees.eq_empty (hagrees : r.Agrees) (hnone : ∀ id, r.find? id = none) : r = {} := by
  have hempty {κ ν : Type} [DecidableEq κ] {t : Table κ ν}
      (hnone : ∀ key, t.find? key = none) :
      t = [] := by
    cases t with
    | nil => rfl
    | cons p rest =>
      have hfirst := hnone p.1
      rw [Table.find?, if_pos rfl] at hfirst
      cases hfirst
  have hindex (client : ClientId) : r.index.find? client = none := by
    cases hnames : r.index.find? client with
    | none => rfl
    | some ids =>
      cases ids with
      | nil => exact absurd hnames (hagrees.index_ne_nil client)
      | cons id rest =>
        refine absurd ?_ ((hagrees.absent (hnone id)).2 client)
        rw [names, hnames]
        exact List.mem_cons_self
  cases r with
  | mk entries index =>
    obtain rfl : entries = [] := hempty hnone
    obtain rfl : index = [] := hempty hindex
    rfl

end Registry

namespace Cluster

variable {σ α : Type} {c : Cluster} {s : Nat} {server : Server} {ms : List Member}
  {ids : List ConnectionId} {cancelled : Bool} {removals? : σ → Option Removals}
  {verdicts : Bool → Cluster → σ → Nat → List Verdict}
  {act : Cluster → Bool → σ → Cluster × Progress σ α} {x : σ}

/-! ## The whole job -/

/-- What a call on the server `s` has done, made at `c`, that was to remove the connections with the
names. -/
structure RemovedAll (s : Nat) (sid : ServerId) (removals? : σ → Option Removals)
    (ids : List ConnectionId) (c : Cluster) (e : Errand Cluster σ α) : Prop where
  /-- Each name has had one turn. -/
  turns : turnsOf removals? e.strides = ids
  once : ids.Nodup
  /-- Its turn takes a name out of both tables. -/
  taken : ∀ t ∈ e.strides, ∀ id, (removals? t.state).bind Removals.turn? = some id →
    (t.after.registry s).Absent id
  /-- The names whose turn it is not are left alone. -/
  others : ∀ t ∈ e.strides, ∀ id, (removals? t.state).bind Removals.turn? ≠ some id →
    (t.after.registry s).find? id = (t.before.registry s).find? id
  /-- The store is asked once for each name that was still there at its turn, and for no other. -/
  asked : askedOf e.strides = (foundOf s removals? e.strides).map (.unregister sid)
  /-- Unless others have changed the registry, the names are what it has lost. -/
  removed : (∀ p ∈ e.meantime, p.2.registry s = p.1.registry s) →
    e.world.registry s = (c.registry s).without ids

theorem removedAll_of_cleared (horder : InOrder s server c)
    (hsharing : server.sharing.isSome = true)
    (hamid : ∀ c cancelled x, Amid s c (act c cancelled x).1) {e : Errand Cluster σ α}
    (hrun : Errand.Run act (Amid s) (Errand.call act c cancelled x) e)
    (hattends : ∀ t ∈ e.strides, Attends s ms removals? verdicts t)
    (hcleared : Cleared s server.id server.sharing.isSome removals? ids e.strides ⟨none, []⟩)
    (honce : ids.Nodup) : RemovedAll s server.id removals? ids c e := by
  have hturns : turnsOf removals? e.strides = ids := (List.append_nil _).symm.trans hcleared.turns
  have hasked : askedOf e.strides =
      unregisterAll server.id server.sharing.isSome (foundOf s removals? e.strides) :=
    (List.append_nil _).symm.trans hcleared.asked
  rw [hsharing] at hasked
  have hcontinues := (continues_throughout hamid horder hrun).2
  refine ⟨hturns, honce, fun t ht id hid => ?_, fun t ht id hid => ?_, hasked,
    fun hothers => ?_⟩
  · rw [(hattends t ht).registry, hid]
    exact (hcontinues t ht).1.agrees.absent_take id
  · rw [(hattends t ht).registry]
    exact find?_afterTurn hid
  · exact hturns ▸ registry_of_turns hrun (fun t ht => (hattends t ht).registry) hothers

/-! ## Pruning -/

theorem audience_subset (horder : InOrder s server c) {target : Option ClientId} :
    ∀ m ∈ c.audience s target, m ∈ (c.registry s).members := fun _ hm =>
  ((mem_targets_of_agrees horder.agrees).mp (List.mem_filter.mp hm).1).1

/-- The members that a call finds dead have names of their own. -/
theorem nodup_deadAmong (horder : InOrder s server c) (hnodup : ms.Nodup)
    (hms : ∀ m ∈ ms, m ∈ (c.registry s).members) (account : Nat → Account) :
    (deadAmong ms account).Nodup :=
  nodup_names horder.agrees (hnodup.filter _) fun m hm => hms m (List.mem_filter.mp hm).1

theorem delivery_removes_all (horder : InOrder s server c) (hsharing : server.sharing.isSome = true)
    {target : Option ClientId} {event : Event} {e : DeliveryErrand}
    (hrun : Errand.Run (deliver s) (Amid s)
      (Errand.call (deliver s) c cancelled (.fresh target event)) e)
    (hstage : e.stage = .inr (.ok ())) :
    RemovedAll s server.id Delivery.removals?
      (deadAmong (c.audience s target) (deliveryAccount e)) c e := by
  obtain ⟨hcourse, hattends⟩ := delivery_course horder hrun
  rw [hstage] at hcourse
  cases hcourse with
  | complete hanswered hcleared =>
    have hnodup : (c.audience s target).Nodup := .of_map (·.handle)
      ((nodup_targets_of_located horder.toLocated target).sublist (List.filter_sublist.map _))
    exact removedAll_of_cleared horder hsharing amid_deliver hrun hattends hcleared
      (nodup_deadAmong horder hnodup (audience_subset horder) _)

/-! ## Evicting -/

theorem sweep_removes_all (horder : InOrder s server c) (hsharing : server.sharing.isSome = true)
    {e : SweepErrand}
    (hrun : Errand.Run (sweep s) (Amid s) (Errand.call (sweep s) c cancelled .fresh) e) {n : Nat}
    (hstage : e.stage = .inr n) :
    n = (deadAmong (c.registry s).members (sweepAccount e)).length ∧
      RemovedAll s server.id Sweep.removals?
        (deadAmong (c.registry s).members (sweepAccount e)) c e := by
  obtain ⟨hcourse, hattends⟩ := sweep_course horder hrun
  rw [hstage] at hcourse
  cases hcourse with
  | complete hjudged hcleared =>
    exact ⟨rfl, removedAll_of_cleared horder hsharing amid_sweep hrun hattends hcleared
      (nodup_deadAmong horder horder.agrees.nodup_members (fun _ hm => hm) _)⟩

/-! ## Unregistering all -/

def clearOut (s : Nat) (c : Cluster) (_ : Bool) (r : Removals) :
    Cluster × Progress Removals Unit :=
  c.stepRemovals s r

abbrev ClearOutErrand := Errand Cluster Removals Unit

theorem clears_clearOut (s : Nat) : Clears s (clearOut s) id id := by
  intro c cancelled r
  show c.stepRemovals s r = _
  cases hp : c.stepRemovals s r with
  | mk c' p => cases p <;> rfl

theorem amid_clearOut (c : Cluster) (cancelled : Bool) (r : Removals) :
    Amid s c (clearOut s c cancelled r).1 :=
  ⟨(removes_stepRemovals c s r).steady, onward_stepRemovals r⟩

def ClearedSoFar (s : Nat) (server : Server) (ids : List ConnectionId) (e : ClearOutErrand) :
    Prop :=
  Cleared s server.id server.sharing.isSome some ids e.strides
    (match e.stage with
      | .inl r => r
      | .inr () => ⟨none, []⟩)

theorem clearOut_stride {c₀ : Cluster} {e : ClearOutErrand} {r : Removals}
    (hcontinues : Continues s server c₀ e.world)
    (hcleared : Cleared s server.id server.sharing.isSome some ids e.strides r) :
    ClearedSoFar s server ids (e.stride (clearOut s) r) ∧
      Attends s [] some (fun _ _ _ _ => []) (e.coming (clearOut s) r) := by
  have hremoving : Removing s server [] some (fun _ _ _ _ => []) (clearOut s) ids e r id id :=
    removing_stride (clears_clearOut s) rfl rfl hcontinues hcleared
  obtain ⟨_, _, hattends, p, hstage, hcleared'⟩ := hremoving
  refine ⟨?_, hattends⟩
  rw [ClearedSoFar, show (e.stride (clearOut s) r).stage = _ from hstage]
  cases p with
  | blocked => exact hcleared'
  | moved r' => exact hcleared'
  | done u => exact hcleared'

theorem clearOut_course (horder : InOrder s server c) {e : ClearOutErrand}
    (hrun : Errand.Run (clearOut s) (Amid s)
      (Errand.call (clearOut s) c cancelled ⟨none, ids⟩) e) :
    ClearedSoFar s server ids e ∧
      ∀ t ∈ e.strides, Attends s [] some (fun _ _ _ _ => []) t := by
  have hstart : Cleared (σ := Removals) (α := Unit) s server.id server.sharing.isSome some ids []
      ⟨none, ids⟩ := cleared_start ids fun t ht => absurd ht List.not_mem_nil
  have hcall :=
    clearOut_stride (e := ⟨c, .inl ⟨none, ids⟩, cancelled, [], []⟩) horder.continues
    hstart
  refine attends_throughout (ClearedSoFar s server ids) amid_clearOut horder hrun hcall
    (fun e e' hcleared _ hstrides hstage => ?_) fun e r hcleared hcontinues hstage => ?_
  · rwa [ClearedSoFar, hstrides, hstage]
  · rw [ClearedSoFar, hstage] at hcleared
    exact clearOut_stride hcontinues hcleared

theorem clearOut_removes_all (horder : InOrder s server c) (hsharing : server.sharing.isSome = true)
    (honce : ids.Nodup) {e : ClearOutErrand}
    (hrun : Errand.Run (clearOut s) (Amid s)
      (Errand.call (clearOut s) c cancelled ⟨none, ids⟩) e) (hstage : e.stage = .inr ()) :
    RemovedAll s server.id some ids c e := by
  obtain ⟨hcleared, hattends⟩ := clearOut_course horder hrun
  rw [ClearedSoFar, hstage] at hcleared
  exact removedAll_of_cleared horder hsharing amid_clearOut hrun hattends hcleared honce

theorem without_ids {r : Registry} (hagrees : r.Agrees) : r.without r.ids = {} := by
  refine (hagrees.without _).eq_empty fun id => ?_
  rw [Registry.find?_without]
  split
  · rfl
  · next hid =>
    rw [Registry.ids, ← Table.isSome_find?, Bool.not_eq_true, Option.isSome_eq_false_iff,
      Option.isNone_iff_eq_none] at hid
    exact hid

/-! ## Coming to the end -/

/-- The call can come to an end by itself, only the clock has to go on, and whatever happens it can
end with one result only. -/
structure Completes (s : Nat) (act : Cluster → Bool → σ → Cluster × Progress σ α)
    (e : Errand Cluster σ α) (a : α) : Prop where
  ends : ∃ e', Errand.Run act Tick e e' ∧ e'.stage = .inr a
  result : ∀ e' a', Errand.Run act (Amid s) e e' → e'.stage = .inr a' → a' = a

theorem Clears.completes {f : Removals → σ} {g : Unit → α} (hclears : Clears s act f g)
    {c₀ : Cluster} {e : Errand Cluster σ α} (hcontinues : Continues s server c₀ e.world)
    {r : Removals} (hstage : e.stage = .inl (f r)) : Completes s act e (g ()) := by
  obtain ⟨server', hserver', _⟩ := hcontinues.exists_server
  refine ⟨hclears.finishes (by rw [hserver', Option.isSome_some]) hstage, ?_⟩
  intro e' a' hrun hend
  have hresult := hclears.goesOn hrun hstage
  rw [hend] at hresult
  exact Sum.inr.inj (hresult.resolve_left fun h => (by cases h.choose_spec))

/-- Pruning, evicting and unregistering all finish their job on a server that shares a store,
whatever the store answers and whatever others do. Every name has its turn, which takes it out of
both tables; the store is asked once for each that was still there. A delivery that prunes comes
back with success, a sweep with the number of all that were to be evicted, and if nobody else
touches the registry while all connections are unregistered, it ends empty. -/
theorem removals_finish (horder : InOrder s server c) (hsharing : server.sharing.isSome = true) :
    (∀ target event cancelled e, Errand.Run (deliver s) (Amid s)
        (Errand.call (deliver s) c cancelled (.fresh target event)) e →
      (e.stage = .inr (.ok ()) → RemovedAll s server.id Delivery.removals?
        (deadAmong (c.audience s target) (deliveryAccount e)) c e) ∧
      ∀ r, e.stage = .inl (.pruning r) → Completes s (deliver s) e (.ok ())) ∧
    (∀ cancelled e, Errand.Run (sweep s) (Amid s) (Errand.call (sweep s) c cancelled .fresh) e →
      (∀ n, e.stage = .inr n →
        n = (deadAmong (c.registry s).members (sweepAccount e)).length ∧
        RemovedAll s server.id Sweep.removals?
          (deadAmong (c.registry s).members (sweepAccount e)) c e) ∧
      ∀ count r, e.stage = .inl (.evicting count r) → Completes s (sweep s) e count) ∧
    (∀ cancelled e, Errand.Run (clearOut s) (Amid s)
        (Errand.call (clearOut s) c cancelled ⟨none, (c.registry s).ids⟩) e →
      (e.stage = .inr () → RemovedAll s server.id some (c.registry s).ids c e ∧
        ((∀ p ∈ e.meantime, p.2.registry s = p.1.registry s) → e.world.registry s = {})) ∧
      Completes s (clearOut s) e ()) := by
  refine ⟨fun target event cancelled e hrun =>
    ⟨delivery_removes_all horder hsharing hrun, ?_⟩,
    fun cancelled e hrun => ⟨fun n => sweep_removes_all horder hsharing hrun, ?_⟩,
    fun cancelled e hrun => ⟨fun hstage => ?_, ?_⟩⟩
  · intro r hstage
    exact (clears_deliver s).completes (continues_throughout amid_deliver horder hrun).1 hstage
  · intro count r hstage
    exact (clears_sweep s count).completes (continues_throughout amid_sweep horder hrun).1 hstage
  · have hall := clearOut_removes_all horder hsharing horder.agrees.entries_nodup hrun hstage
    exact ⟨hall, fun hothers => (hall.removed hothers).trans (without_ids horder.agrees)⟩
  · have hcontinues := (continues_throughout amid_clearOut horder hrun).1
    cases hstage : e.stage with
    | inl r => exact (clears_clearOut s).completes hcontinues hstage
    | inr u => exact ⟨⟨e, .refl, hstage⟩, fun _ _ _ _ => rfl⟩

/-- A delivery to the client `x` of the crowd: the second connection fails and is pruned, although
the store refuses to unregister it. -/
def crowdPruned : DeliveryErrand :=
  Errand.call (deliver 0) crowded false (.fresh (some "x") ⟨"ping", .null, none⟩)
  |> Errand.go (deliver 0) 1
  |> goAt (deliver 0) 3 4
  |> goAt (deliver 0) 13 2

theorem run_crowdPruned : Errand.Run (deliver 0) (Amid 0)
    (Errand.call (deliver 0) crowded false (.fresh (some "x") ⟨"ping", .null, none⟩))
      crowdPruned :=
  (Errand.run_go 1 _).trans <|
    (run_goAt (amid_clock 0) 3 4 _).trans (run_goAt (amid_clock 0) 13 2 _)

/-- All of the crowd is unregistered, and the store refuses each time. -/
def crowdCleared : ClearOutErrand :=
  Errand.call (clearOut 0) crowded false ⟨none, crowdRegistry.ids⟩
  |> Errand.go (clearOut 0) 2
  |> goAt (clearOut 0) 10 4
  |> goAt (clearOut 0) 20 4
  |> goAt (clearOut 0) 30 4
  |> goAt (clearOut 0) 40 2

theorem run_crowdCleared : Errand.Run (clearOut 0) (Amid 0)
    (Errand.call (clearOut 0) crowded false ⟨none, crowdRegistry.ids⟩) crowdCleared :=
  (Errand.run_go 2 _).trans <| (run_goAt (amid_clock 0) 10 4 _).trans <|
    (run_goAt (amid_clock 0) 20 4 _).trans <| (run_goAt (amid_clock 0) 30 4 _).trans
      (run_goAt (amid_clock 0) 40 2 _)

theorem removals_finish_crowded :
    crowdPruned.stage = .inr (.ok ()) ∧
    RemovedAll 0 ⟨"s"⟩ Delivery.removals? [⟨"b"⟩] crowded crowdPruned ∧
    askedOf crowdPruned.strides = [.unregister ⟨"s"⟩ ⟨"b"⟩] ∧
    RemovedAll 0 ⟨"s"⟩ Sweep.removals? [⟨"b"⟩, ⟨"c"⟩] crowded crowdSwept ∧
    crowdCleared.stage = .inr () ∧ crowdCleared.world.registry 0 = {} ∧
    askedOf crowdCleared.strides = crowdRegistry.ids.map (.unregister ⟨"s"⟩) := by
  obtain ⟨hprunes, hevicts, hclears⟩ := removals_finish inOrder_crowded rfl
  have hpruned := (hprunes _ _ _ _ run_crowdPruned).1 rfl
  have hswept := ((hevicts _ _ run_crowdSwept).1 2 rfl).2
  have hempty := ((hclears _ _ run_crowdCleared).1 rfl).2
  rw [show deadAmong (crowded.audience 0 (some "x")) (deliveryAccount crowdPruned) = [⟨"b"⟩] by
    decide +kernel] at hpruned
  rw [show deadAmong (crowded.registry 0).members (sweepAccount crowdSwept) =
      [⟨"b"⟩, ⟨"c"⟩] by
    decide +kernel] at hswept
  exact ⟨rfl, hpruned, by decide +kernel, hswept, rfl, hempty (by decide +kernel),
    by decide +kernel⟩

end Cluster

end EventHub
