import EventHub.Proofs.Cluster.Preservation
/-!
# Steps of a publication

A publication delivers its event on its own server, and once that is over puts its message on the
relay and ends.
-/

namespace EventHub.Cluster.Network

open Relay (Message)

variable {u : Setup} {n : Network} {i s : Nat} {t : Task} {target : Option ClientId} {e : Event}
  {stopFirst : Bool}

theorem accounts_stepTask (ht : n.tasks[i]? = some t) {stage stage' : Stage}
    (hadvances : Stage.Advances u s target e n.cluster stage (t.step n.cluster stopFirst).1 stage')
    {h : Nat} (haccounts : stage.Accounts e.frame h (n.framesOf (n.source i) h)) :
    stage'.Accounts e.frame h ((n.stepTask stopFirst i).framesOf (n.source i) h) := by
  rw [framesOf_append (accepted_stepTask ht stopFirst h), if_pos rfl]
  exact hadvances.accounts h _ haccounts

theorem Inv.carryOn (hinv : Inv u n) (ht : n.tasks[i]? = some t) (hlive : t.outcome = none)
    {stage stage' : Stage}
    (hadvances : Stage.Advances u s target e n.cluster stage (t.step n.cluster stopFirst).1 stage')
    (haccounts : ∀ h, u.home h = s → stage.Accounts e.frame h (n.framesOf (n.source i) h))
    (hsource : n.source i = .task i ∨ s = i ∧ ∃ position, n.source i = .message position)
    (hok : Extends n (n.stepTask stopFirst i) →
      TaskOk u (n.stepTask stopFirst i) i (t.step n.cluster stopFirst).2.1)
    (hmark : Extends n (n.stepTask stopFirst i) → ∀ h, u.home h = s →
      MarkOk u (n.stepTask stopFirst i) h ⟨n.source i, e.frame⟩)
    (hordered : ∀ h, ((n.stepTask stopFirst i).positions h).Pairwise (· < ·)) :
    Kept u n (n.stepTask stopFirst i) (· ≠ i) := by
  have hring := hadvances.effect.ring
  have hextends := extends_stepTask ht hadvances.effect.later
    (Nat.le_of_eq (congrArg _ hring.symm))
  have hrelayed : (n.stepTask stopFirst i).relayed = n.relayed := by
    rw [relayed_stepTask ht, hring, if_neg (Nat.lt_irrefl _)]
  have hringOk := hinv.ring.extends hextends (cluster_stepTask ht stopFirst ▸ hring) hrelayed
    fun j x hx hended => ended_stepTask ht hlive hx hended
  have hothers : ∀ j, j ≠ i → Undisturbed u n (n.stepTask stopFirst i) j := by
    intro j hj
    refine undisturbed_stepTask ht (hsource.imp_right fun h => ?_) (fun k hk => ?_) hj
    · exact h.1 ▸ hadvances.elsewhere
    · rcases hsource with hsource | ⟨_, position, hsource⟩ <;> rw [hsource] at hk <;> cases hk
      rfl
  refine hinv.next ht (stepTask_machine ht stopFirst) hadvances.effect.good
    (hadvances.effect.stamp ▸ hinv.stamp) hextends hringOk (hok hextends) hothers
    (sameKind_step t n.cluster stopFirst) (fun h m hm => ?_) hordered
  rw [accepted_stepTask ht, List.mem_append] at hm
  refine hm.imp_right fun hm => ?_
  obtain ⟨frame, hframe, rfl⟩ := List.mem_map.mp hm
  obtain ⟨hhome, rfl⟩ := hadvances.mem_news haccounts hframe
  exact hmark hextends h hhome

theorem source_of_publication (ht : n.tasks[i]? = some t) {p : Publication}
    (hactivity : t.activity = .publication s p) : n.source i = .task i := by
  simp only [source, ht, Option.map_some, hactivity]

theorem taskOk_publication (hinv : Inv u n) (ht : n.tasks[i]? = some t) {p : Publication}
    (hactivity : t.activity = .publication s p) : PublicationOk u n i t s p := by
  have hok := hinv.tasks i t ht
  rwa [TaskOk, hactivity] at hok

theorem isCancelled_of_none (hcancelAt : t.cancelAt = none) (now : Nat) :
    t.isCancelled now = false := by
  rw [Task.isCancelled, hcancelAt]
  rfl

/-- The task of a publication that is being delivered after a step, and its stage then. -/
theorem step_publishing (stopFirst : Bool) (hlive : t.outcome = none)
    (hcancelAt : t.cancelAt = none) (c : Cluster) {p : LocalPublish}
    (hactivity : t.activity = .publication s (.publishing target e p)) :
    (t.step c stopFirst).1 = (c.stepLocal false s p).1 ∧
      ∃ p', (t.step c stopFirst).2.1.activity = .publication s p' ∧ p'.target = target ∧
        p'.event = e ∧ (t.step c stopFirst).2.1.cancelAt = none ∧
        publicationStage (t.step c stopFirst).2.1 p' =
          stageAfter LocalPublish.stage p (c.stepLocal false s p).2 := by
  have hstep := step_of_live (c := c) stopFirst hlive rfl
  rw [isCancelled_of_none hcancelAt, hactivity] at hstep
  simp only [Activity.step, stepPublication] at hstep
  generalize c.stepLocal false s p = q at hstep
  obtain ⟨c', _ | p' | ⟨r | _⟩⟩ := q
  · obtain ⟨hfst, hsnd⟩ := hstep
    refine ⟨hfst, .publishing target e p, ?_⟩
    simp [hsnd, after, Progress.mapState, Progress.map, hactivity, hcancelAt, Publication.target,
      Publication.event, publicationStage, hlive, stageAfter]
  · obtain ⟨hfst, hsnd⟩ := hstep
    refine ⟨hfst, .publishing target e p', ?_⟩
    simp [hsnd, after, Progress.mapState, Progress.map, hcancelAt, Publication.target,
      Publication.event, publicationStage, hlive, stageAfter]
  · obtain ⟨hfst, hsnd⟩ := hstep
    refine ⟨hfst, .publishing target e p, ?_⟩
    simp [hsnd, after, Progress.mapState, Progress.map, hactivity, hcancelAt, Publication.target,
      Publication.event, publicationStage, stageAfter]
  · dsimp only at hstep
    split at hstep
    · obtain ⟨hfst, hsnd⟩ := hstep
      refine ⟨hfst, .relaying target e, ?_⟩
      simp [hsnd, after, Progress.mapState, Progress.map, hcancelAt, Publication.target,
        Publication.event, publicationStage, stageAfter]
    · obtain ⟨hfst, hsnd⟩ := hstep
      refine ⟨hfst, .publishing target e p, ?_⟩
      simp [hsnd, after, Progress.mapState, Progress.map, hactivity, hcancelAt, Publication.target,
        Publication.event, publicationStage, stageAfter]

theorem Inv.stepPublishing (hinv : Inv u n) (ht : n.tasks[i]? = some t)
    (hlive : t.outcome = none) {p : LocalPublish}
    (hactivity : t.activity = .publication s (.publishing target e p)) :
    Kept u n (n.stepTask stopFirst i) (· ≠ i) := by
  obtain ⟨hcancelAt, hserver, hvalid, hdepth, hstage, haccounts⟩ :=
    taskOk_publication hinv ht hactivity
  obtain ⟨hfst, p', hactivity', htarget, hevent, hcancelAt', hstage'⟩ :=
    step_publishing stopFirst hlive hcancelAt n.cluster hactivity
  have hsource := source_of_publication ht hactivity
  simp only [publicationStage, hlive, Option.isSome_none, Bool.false_eq_true, if_false,
    Publication.target, Publication.event] at hstage haccounts hvalid hdepth
  have hadvances := stepLocal_advances hinv.good hstage
  rw [← hfst, ← hstage'] at hadvances
  rw [← hsource] at haccounts
  have hown : n.call? i = some ⟨s, target, e⟩ := by
    rw [call?, ht, Option.bind_some, hactivity]
    rfl
  apply hinv.carryOn ht hlive hadvances haccounts (Or.inl hsource)
  · intro _
    rw [TaskOk, hactivity']
    refine ⟨hcancelAt', hserver, hevent ▸ hvalid, hevent ▸ hdepth, ?_, fun h hh => ?_⟩
    · rw [cluster_stepTask ht, htarget, hevent]
      exact hadvances.ok
    · rw [hevent, ← hsource]
      exact accounts_stepTask ht hadvances (haccounts h hh)
  · intro hextends h hh
    rw [hsource]
    exact ⟨_, hextends.calls i _ hown, hh.symm, rfl⟩
  · intro h
    rw [positions_append (accepted_stepTask ht stopFirst h), hsource]
    simpa [Source.position?] using hinv.ordered h

/-! ## The relay -/

theorem server?_of_lt (hgood : Good u n.cluster) (hserver : s < u.ids.length) :
    ∃ server, n.cluster.server? s = some server ∧ u.ids[s]? = some server.id := by
  have hids := congrArg (·[s]?) hgood.ids
  simp only [List.getElem?_map] at hids
  rw [List.getElem?_eq_getElem hserver] at hids
  obtain ⟨server, hfound, hid⟩ := Option.map_eq_some_iff.mp hids
  exact ⟨server, hfound, by rw [List.getElem?_eq_getElem hserver, hid]⟩

/-- The publication puts its message on the relay and ends. -/
theorem step_relaying (stopFirst : Bool) (hgood : Good u n.cluster)
    (hstamp : StampOk n.cluster.stamp) (hserver : s < u.ids.length)
    (hlive : t.outcome = none) (hcancelAt : t.cancelAt = none)
    (hactivity : t.activity = .publication s (.relaying target e)) :
    ∃ raw, Carries u ⟨s, target, e⟩ raw ∧
      (t.step n.cluster stopFirst).1 =
        { n.cluster with ring := n.cluster.ring.send u.channels.broadcast raw } ∧
      (t.step n.cluster stopFirst).2.1 = { t with outcome := some (.result (.ok ())) } := by
  obtain ⟨server, hfound, hid⟩ := server?_of_lt hgood hserver
  obtain ⟨_, _, hlink, hchannels⟩ := hgood.plain s server hfound
  have hstep := step_of_live (c := n.cluster) stopFirst hlive rfl
  rw [isCancelled_of_none hcancelAt, hactivity] at hstep
  simp only [Activity.step, stepPublication, hfound, relay, Option.map_some, hlink, hchannels,
    Bool.false_eq_true, if_false] at hstep
  exact ⟨_, ⟨server.id, n.cluster.stamp, hid, hstamp, rfl⟩, hstep.1, hstep.2⟩

theorem Inv.stepRelaying (hinv : Inv u n) (ht : n.tasks[i]? = some t)
    (hlive : t.outcome = none)
    (hactivity : t.activity = .publication s (.relaying target e)) :
    Kept u n (n.stepTask stopFirst i) (· ≠ i) := by
  obtain ⟨hcancelAt, hserver, hvalid, hdepth, hstage, haccounts⟩ :=
    taskOk_publication hinv ht hactivity
  obtain ⟨raw, hraw, hfst, hsnd⟩ :=
    step_relaying stopFirst hinv.good hinv.stamp hserver hlive hcancelAt hactivity
  have hcluster := cluster_stepTask ht stopFirst
  have hlater : Later n.cluster (t.step n.cluster stopFirst).1 :=
    Later.of_connections (by rw [hfst])
  have hsent : (t.step n.cluster stopFirst).1.ring.sent = n.cluster.ring.sent + 1 := by
    rw [hfst]
    rfl
  have hextends := extends_stepTask ht hlater (by omega)
  have hnews : ∀ h, n.cluster.news (t.step n.cluster stopFirst).1 h = [] :=
    fun h => news_of_untouched (by rw [hfst]; rfl)
  have haccepted : (n.stepTask stopFirst i).accepted = n.accepted := by
    funext h
    rw [accepted_stepTask ht, hnews, List.map_nil, List.append_nil]
  have hrelayed : (n.stepTask stopFirst i).relayed = n.relayed ++ [i] := by
    rw [relayed_stepTask ht, if_pos (by omega)]
  have hfound : (n.stepTask stopFirst i).tasks[i]? =
      some { t with outcome := some (.result (.ok ())) } := by
    rw [getElem?_stepTask ht, if_pos rfl, hsnd]
  have hcall : (n.stepTask stopFirst i).call? i = some ⟨s, target, e⟩ := by
    rw [call?, hfound, Option.bind_some, hactivity]
    rfl
  have hring : RingOk u (n.stepTask stopFirst i) := by
    apply hinv.ring.send hextends hcall hraw _ hrelayed
    · intro x hx
      rw [ht, Option.some.injEq] at hx
      exact hx ▸ hlive
    · exact ⟨_, hfound, rfl⟩
    · exact fun j x hx hended => ended_stepTask ht hlive hx hended
    · rw [hcluster, hfst]
  refine hinv.next ht (stepTask_machine ht stopFirst) ?_ (by rw [hfst]; exact hinv.stamp)
    hextends hring ?_ (fun j _ => undisturbed_of_accepted haccepted j)
    (sameKind_step t n.cluster stopFirst) (fun h m hm => Or.inl (haccepted ▸ hm)) fun h => ?_
  · rw [hfst]
    exact ⟨hinv.good.ids, hinv.good.plain, hinv.good.agrees, hinv.good.members, hinv.good.sound⟩
  · rw [hsnd, TaskOk, hactivity]
    refine ⟨hcancelAt, hserver, hvalid, hdepth, trivial, fun h hh => ?_⟩
    rw [framesOf, haccepted]
    exact haccounts h hh
  · rw [positions, haccepted]
    exact hinv.ordered h

end EventHub.Cluster.Network
