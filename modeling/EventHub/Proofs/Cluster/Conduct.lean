import EventHub.Proofs.Cluster.Clearances
/-!
# How a call conducts itself

What a call on a server may rely on and what it keeps to while it is under way among others. It
sends first and removes connections then, and each of its strides has to do with its own members
only.
-/

namespace EventHub.Cluster

variable {σ α : Type} {c₀ c c' : Cluster} {s : Nat} {server : Server} {ms : List Member}
  {ids : List ConnectionId} {removals? : σ → Option Removals}
  {verdicts : Bool → Cluster → σ → Nat → List Verdict} {t : Stride Cluster σ α}
  {act : Cluster → Bool → σ → Cluster × Progress σ α} {e : Errand Cluster σ α} {x : σ}

/-! ## Calls on a server -/

/-- A server whose tables agree, in a cluster whose writers hand out their turns properly. -/
structure InOrder (s : Nat) (server : Server) (c : Cluster) : Prop extends Located s c where
  server : c.server? s = some server
  tidy : c.Tidy

def goAt (act : Cluster → Bool → σ → Cluster × Progress σ α) (time n : Nat)
    (e : Errand Cluster σ α) : Errand Cluster σ α :=
  Errand.go act n (e.meanwhile { e.world with now := time })

theorem run_goAt {env : Cluster → Cluster → Prop}
    (henv : ∀ c time, env c { c with now := time })
    (time n : Nat) (e : Errand Cluster σ α) : Errand.Run act env e (goAt act time n e) :=
  .head (.others e { e.world with now := time } (henv e.world time)) (Errand.run_go n _)

/-- What stays of this while a call is under way that was made at `c₀`. -/
structure Continues (s : Nat) (server : Server) (c₀ c : Cluster) : Prop where
  agrees : (c.registry s).Agrees
  face : (c.server? s).map Server.face = some server.face
  tidy : c.Tidy
  later : Later c₀ c

theorem InOrder.continues (horder : InOrder s server c) : Continues s server c c :=
  ⟨horder.agrees, congrArg _ horder.server, horder.tidy, Later.refl c⟩

theorem Continues.amid (hcontinues : Continues s server c₀ c) (hamid : Amid s c c') :
    Continues s server c₀ c' :=
  ⟨hamid.agrees hcontinues.agrees, hamid.face.trans hcontinues.face,
    hamid.onward.tidy hcontinues.tidy, hcontinues.later.trans hamid.onward.later⟩

theorem Continues.exists_server (hcontinues : Continues s server c₀ c) :
    ∃ server', c.server? s = some server' ∧ server'.id = server.id ∧
      server'.sharing = server.sharing := by
  obtain ⟨server', hserver', hface⟩ := Option.map_eq_some_iff.mp hcontinues.face
  rw [Server.face, Server.face, Prod.mk.injEq] at hface
  exact ⟨server', hserver', hface⟩

theorem Continues.removalStep (hcontinues : Continues s server c₀ c) (r : Removals) :
    RemovalStep s server.id server.sharing.isSome c r (c.stepRemovals s r) := by
  obtain ⟨server', hserver', hid, hsharing⟩ := hcontinues.exists_server
  rw [← hid, ← hsharing]
  exact removalStep_stepRemovals hserver' r

theorem Continues.found (hcontinues : Continues s server c₀ c) {m : Member}
    (hm : c₀.member? m.handle = some m) :
    ∃ x, c.connection? m.handle = some x ∧ x.id = m.id := by
  obtain ⟨x, hx, hmember⟩ := Option.map_eq_some_iff.mp hm
  obtain ⟨x', hx', hlater⟩ := hcontinues.later _ x hx
  exact ⟨x', hx', hlater.id_eq.trans (congrArg Member.id hmember)⟩

/-- All that a call does while it is under way leaves the cluster in order. -/
theorem continues_throughout (hact : ∀ c cancelled x, Amid s c (act c cancelled x).1)
    (horder : InOrder s server c) {cancelled : Bool}
    (hrun : Errand.Run act (Amid s) (Errand.call act c cancelled x) e) :
    Continues s server c e.world ∧
      ∀ t ∈ e.strides, Continues s server c t.before ∧ Continues s server c t.after :=
  hrun.throughout (fun _ _ _ h => h.amid (hact _ _ _)) (fun _ _ henv h => h.amid henv)
    horder.continues

theorem nodup_names {r : Registry} (hagrees : r.Agrees) (hnodup : ms.Nodup)
    (hms : ∀ m ∈ ms, m ∈ r.members) : (ms.map (·.id)).Nodup := by
  refine hnodup.map_on fun m hm m' hm' hid => ?_
  have hfound := hagrees.mem_members.mp (hms m hm)
  rw [hid, hagrees.mem_members.mp (hms m' hm'), Option.some.injEq] at hfound
  exact hfound.symm

/-! ## Strides -/

/-- What a stride of a call does: it has to do with the connections of the members only, and of
them it closes those whose sends have failed; of the registry it takes the name whose turn it is. -/
structure Attends (s : Nat) (ms : List Member) (removals? : σ → Option Removals)
    (verdicts : Bool → Cluster → σ → Nat → List Verdict)
    (t : Stride Cluster σ α) : Prop where
  registry : t.after.registry s =
    afterTurn (t.before.registry s) ((removals? t.state).bind Removals.turn?)
  untouched : ∀ h, h ∉ ms.map (·.handle) → t.after.connection? h = t.before.connection? h
  foreign : ∀ h, h ∉ ms.map (·.handle) → verdicts t.cancelled t.before t.state h = []
  mortality : Mortality t.before t.after (verdicts t.cancelled t.before t.state)

theorem attends_of_connections (hconnections : t.after.connections = t.before.connections)
    (hverdicts : verdicts t.cancelled t.before t.state = fun _ => [])
    (hregistry : t.after.registry s =
      afterTurn (t.before.registry s) ((removals? t.state).bind Removals.turn?)) :
    Attends s ms removals? verdicts t := by
  have hsame (h : Nat) : t.after.connection? h = t.before.connection? h := by
    rw [connection?, connection?, hconnections]
  refine ⟨hregistry, fun h _ => hsame h, fun h _ => by rw [hverdicts], ?_⟩
  rw [hverdicts]
  exact .of_untouched fun h => isLive_congr (hsame h)

/-- A call takes its course if it sets out on it and each of its strides carries it on; what others
do, and that its token is cancelled, must not matter. -/
theorem attends_throughout (C : Errand Cluster σ α → Prop) {cancelled : Bool}
    (hact : ∀ c cancelled x, Amid s c (act c cancelled x).1) (horder : InOrder s server c)
    (hrun : Errand.Run act (Amid s) (Errand.call act c cancelled x) e)
    (hcall : C (Errand.call act c cancelled x) ∧ Attends s ms removals? verdicts
      ⟨c, x, cancelled, (act c cancelled x).1, (act c cancelled x).2⟩)
    (hothers : ∀ e e' : Errand Cluster σ α, C e → Onward e.world e'.world →
      e'.strides = e.strides → e'.stage = e.stage → C e')
    (hstride : ∀ e x, C e → Continues s server c e.world → e.stage = .inl x →
      C (e.stride act x) ∧ Attends s ms removals? verdicts (e.coming act x)) :
    C e ∧ ∀ t ∈ e.strides, Attends s ms removals? verdicts t := by
  induction hrun with
  | refl => exact ⟨hcall.1, fun t ht => Errand.mem_strides_call.mp ht ▸ hcall.2⟩
  | tail hrun hstep ih =>
    obtain ⟨hcourse, hattends⟩ := ih
    cases hstep with
    | others w henv => exact ⟨hothers _ _ hcourse henv.onward rfl rfl, hattends⟩
    | cancel => exact ⟨hothers _ _ hcourse (.refl _) rfl rfl, hattends⟩
    | stride x hstage =>
      have hcontinues := (continues_throughout hact horder hrun).1
      obtain ⟨hcourse', hlast⟩ := hstride _ x hcourse hcontinues hstage
      refine ⟨hcourse', fun t ht => ?_⟩
      rcases Errand.mem_strides_stride.mp ht with ht | rfl
      · exact hattends t ht
      · exact hlast

variable {strides : List (Stride Cluster σ α)} {h : Nat}

/-- A stride that leaves a connection alone and comes to no verdict on it is not on its account. -/
theorem accountOf_append_still
    (huntouched : t.after.connection? h = t.before.connection? h)
    (hverdicts : verdicts t.cancelled t.before t.state h = []) :
    accountOf verdicts (strides ++ [t]) h = accountOf verdicts strides h := by
  rw [accountOf_append, hverdicts, notes_of_untouched huntouched, Account.add_nothing]

/-- Nor is the first step of a call that does neither. -/
theorem accountOf_call {cancelled : Bool}
    (huntouched : (act c cancelled x).1.connection? h = c.connection? h)
    (hverdicts : verdicts cancelled c x h = []) :
    accountOf verdicts (Errand.call act c cancelled x).strides h = {} :=
  @accountOf_append_still σ α verdicts ⟨c, x, cancelled, _, _⟩ [] h huntouched hverdicts

/-- Nothing is on the account of a connection that a call has nothing to do with. -/
theorem accountOf_foreign (hattends : ∀ t ∈ strides, Attends s ms removals? verdicts t)
    (hh : h ∉ ms.map (·.handle)) : accountOf verdicts strides h = {} := by
  induction strides using List.reverseRecOn with
  | nil => rfl
  | append_singleton strides t ih =>
    have hlast := hattends t (List.mem_append_right _ List.mem_cons_self)
    rw [accountOf_append_still (hlast.untouched h hh) (hlast.foreign h hh)]
    exact ih fun t ht => hattends t (List.mem_append_left _ ht)

theorem mem_verdicts {v : Verdict} : v ∈ (accountOf verdicts strides h).verdicts ↔
    ∃ t ∈ strides, v ∈ verdicts t.cancelled t.before t.state h := List.mem_flatMap

/-- A connection lives on if no send to it has failed and nobody else closes it. -/
theorem isLive_of_unharmed {cancelled : Bool}
    (hrun : Errand.Run act (Amid s) (Errand.call act c cancelled x) e)
    (hattends : ∀ t ∈ e.strides, Attends s ms removals? verdicts t) (hlive : c.isLive h = true)
    (hunharmed : ∀ err, .answered (.error err) ∈ (accountOf verdicts e.strides h).verdicts →
      err.isCancelled = true)
    (hothers : ∀ p ∈ e.meantime, p.1.isLive h = true → p.2.isLive h = true) :
    e.world.isLive h = true := by
  refine hrun.carried (P := fun w => w.isLive h = true) (fun t ht hlive => ?_) hothers hlive
  refine ((hattends t ht).mortality.spared h hlive).resolve_right fun hfailed => ?_
  obtain ⟨err, hmem, hnot⟩ := hfailed
  rw [hunharmed err (mem_verdicts.mpr ⟨t, ht, hmem⟩)] at hnot
  cases hnot

theorem any_isDead {vs : List Verdict} : vs.any Verdict.isDead = true ↔
    .foundDead ∈ vs ∨ ∃ err, .answered (.error err) ∈ vs ∧ err.isCancelled = false := by
  rw [List.any_eq_true]
  constructor
  · rintro ⟨v, hv, hdead⟩
    cases v with
    | foundDead => exact .inl hv
    | answered r =>
      cases r with
      | ok u => cases hdead
      | error err => exact .inr ⟨err, hv, by simpa [Verdict.isDead, isFailure] using hdead⟩
  · rintro (hv | ⟨err, hv, hnot⟩)
    · exact ⟨_, hv, rfl⟩
    · exact ⟨_, hv, by simp [Verdict.isDead, isFailure, hnot]⟩

theorem mem_deadAmong {account : Nat → Account} {id : ConnectionId} :
    id ∈ deadAmong ms account ↔
    ∃ m ∈ ms, m.id = id ∧ (.foundDead ∈ (account m.handle).verdicts ∨
      ∃ err, .answered (.error err) ∈ (account m.handle).verdicts ∧
        err.isCancelled = false) := by
  rw [deadAmong, List.mem_map]
  refine exists_congr fun m => ?_
  rw [List.mem_filter, any_isDead]
  exact and_right_comm.trans and_assoc

/-! ## Strides that send -/

def SendsOnly (removals? : σ → Option Removals) (e : Errand Cluster σ α) : Prop :=
  ∀ t ∈ e.strides, removals? t.state = none ∧ ConnectionsOnly t.before t.after

theorem SendsOnly.stride (honly : SendsOnly removals? e) (hx : removals? x = none)
    (hworld : ConnectionsOnly e.world (act e.world e.cancelled x).1) :
    SendsOnly removals? (e.stride act x) := by
  intro t ht
  rcases Errand.mem_strides_stride.mp ht with ht | rfl
  · exact honly t ht
  · exact ⟨hx, hworld⟩

theorem SendsOnly.cleared (honly : SendsOnly removals? e) (ids : List ConnectionId) :
    Cleared s server.id server.sharing.isSome removals? ids e.strides ⟨none, ids⟩ :=
  cleared_start ids fun t ht => ⟨(honly t ht).1, (honly t ht).2.storeCalls_eq⟩

theorem registry_of_sends (honly : ConnectionsOnly t.before t.after)
    (hnone : removals? t.state = none) : t.after.registry s =
      afterTurn (t.before.registry s) ((removals? t.state).bind Removals.turn?) := by
  rw [hnone]
  exact honly.registry_eq s

/-! ## Strides that remove -/

structure Removing (s : Nat) (server : Server) (ms : List Member)
    (removals? : σ → Option Removals)
    (verdicts : Bool → Cluster → σ → Nat → List Verdict)
    (act : Cluster → Bool → σ → Cluster × Progress σ α) (ids : List ConnectionId)
    (e : Errand Cluster σ α) (r : Removals) (f : Removals → σ) (g : Unit → α) : Prop where
  connections : (e.stride act (f r)).world.connections = e.world.connections
  accounts : accountOf verdicts (e.stride act (f r)).strides = accountOf verdicts e.strides
  attends : Attends s ms removals? verdicts (e.coming act (f r))
  came : ∃ p, (e.stride act (f r)).stage = ((p.mapState f).map g).stage (f r) ∧
    Cleared s server.id server.sharing.isSome removals? ids (e.stride act (f r)).strides
      (r.following p)

theorem removing_stride {r : Removals} {f : Removals → σ} {g : Unit → α}
    (hclears : Clears s act f g) (hr : removals? (f r) = some r)
    (hverdicts : verdicts e.cancelled e.world (f r) = fun _ => [])
    (hcontinues : Continues s server c₀ e.world)
    (hcleared : Cleared s server.id server.sharing.isSome removals? ids e.strides r) :
    Removing s server ms removals? verdicts act ids e r f g := by
  have hstep := hcontinues.removalStep r
  have hact := hclears e.world e.cancelled r
  have hconnections : (act e.world e.cancelled (f r)).1.connections = e.world.connections := by
    rw [hact, connections_stepRemovals]
  refine ⟨hconnections, ?_, ?_, (e.world.stepRemovals s r).2, ?_, ?_⟩
  · funext h
    rw [Errand.strides_stride]
    exact accountOf_append_still (congrArg (·[h]?) hconnections) (congrFun hverdicts h)
  · refine attends_of_connections hconnections hverdicts ?_
    rw [Errand.coming_eq hact]
    exact hr ▸ hstep.registry_eq
  · rw [Errand.stage_stride, hact]
  · rw [Errand.strides_stride, Errand.coming_eq hact]
    exact hcleared.step hr hstep

/-- A registry that nobody else changes ends without the names that have had their turn. -/
theorem registry_of_turns {cancelled : Bool} {env : Cluster → Cluster → Prop}
    (hrun : Errand.Run act env (Errand.call act c cancelled x) e)
    (hstrides : ∀ t ∈ e.strides, t.after.registry s =
      afterTurn (t.before.registry s) ((removals? t.state).bind Removals.turn?))
    (hmeantime : ∀ p ∈ e.meantime, p.2.registry s = p.1.registry s) :
    e.world.registry s = (c.registry s).without (turnsOf removals? e.strides) := by
  -- One more stride takes at most one more name.
  have hlast {strides : List (Stride Cluster σ α)} {t : Stride Cluster σ α} {r : Registry}
      (ht : t.after.registry s =
        afterTurn (t.before.registry s) ((removals? t.state).bind Removals.turn?))
      (hr : t.before.registry s = r.without (turnsOf removals? strides)) :
      t.after.registry s = r.without (turnsOf removals? (strides ++ [t])) := by
    rw [turnsOf, List.filterMap_append, List.filterMap_cons, List.filterMap_nil, ht, hr]
    cases (removals? t.state).bind Removals.turn? with
    | none => rw [afterTurn, List.append_nil, turnsOf]
    | some id => rw [afterTurn, Registry.without_append, turnsOf]
  induction hrun with
  | refl => exact @hlast [] _ _ (hstrides _ (Errand.mem_strides_call.mpr rfl)) rfl
  | tail _ hstep ih =>
    cases hstep with
    | others w henv =>
      have hothers := hmeantime (_, w) (List.mem_append_right _ List.mem_cons_self)
      exact hothers.trans (ih hstrides fun p hp => hmeantime p (List.mem_append_left _ hp))
    | cancel => exact ih hstrides hmeantime
    | stride state hstage =>
      exact hlast (hstrides _ (Errand.mem_strides_stride.mpr (.inr rfl)))
        (ih (fun t ht => hstrides t (Errand.mem_strides_stride.mpr (.inl ht))) hmeantime)

end EventHub.Cluster
