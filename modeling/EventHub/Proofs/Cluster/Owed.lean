import EventHub.Proofs.Cluster.Subscriptions
/-!
# What a connection is owed

A connection that stays in place is owed the frame of a publication until it has it: by its own
server from the moment at which the publication begins, and by another one from the moment at which
the message is on the relay.
-/

namespace EventHub.Cluster.Network

variable {u : Setup} {n n' : Network} {i h position : Nat} {target : Option ClientId}

/-! ## The other steps -/

structure Still (n n' : Network) : Prop where
  accepted : n'.accepted = n.accepted
  kept : ∀ (i : Nat) (t : Task), n.tasks[i]? = some t → n'.tasks[i]? = some t
  begun : ∀ (i : Nat) (t : Task), n'.tasks[i]? = some t → n.tasks[i]? = some t ∨
    ∀ s p, t.activity = .publication s p → publicationStage t p = .waiting p.target p.event

theorem still_withCluster (n : Network) (c : Cluster) : Still n (n.withCluster c) :=
  ⟨rfl, fun _ _ ht => ht, fun _ _ ht => Or.inl ht⟩

theorem still_spawn (n : Network) {activity : Activity} (cancelAt : Option Nat)
    (hbegun : ∀ s p, activity = .publication s p →
      publicationStage ⟨activity, cancelAt, none⟩ p = .waiting p.target p.event) :
    Still n (n.spawn activity cancelAt) := by
  refine ⟨rfl, fun _ _ ht => getElem?_spawn_of_some ht, fun i t ht => ?_⟩
  rw [getElem?_spawn] at ht
  split at ht
  · cases ht
    exact Or.inr hbegun
  · exact Or.inl ht

theorem Step.cases_task (hstep : Step u n n') :
    (∃ stopFirst i, n' = n.stepTask stopFirst i) ∨ Still n n' := by
  cases hstep with
  | task stopFirst i => exact Or.inl ⟨stopFirst, i, rfl⟩
  | publish s target event =>
    refine Or.inr (still_spawn n _ fun s' p hp => ?_)
    cases hp
    rfl
  | register => exact Or.inr (still_spawn n _ nofun)
  | remove => exact Or.inr (still_spawn n _ nofun)
  | connect => exact Or.inr (still_withCluster n _)
  | outside => exact Or.inr (still_withCluster n _)
  | wait => exact Or.inr (still_withCluster n _)

theorem Step.framesOf_grown (hstep : Step u n n') (source : Source) (h : Nat) :
    n.framesOf source h <+: n'.framesOf source h := by
  have haccepted : n.accepted h <+: n'.accepted h := by
    rcases hstep.cases_task with ⟨stopFirst, i, rfl⟩ | hstill
    · exact List.prefix_append _ _
    · rw [hstill.accepted]
  exact (haccepted.filter _).map _

/-! ## On the own server -/

def OwedDirectly (u : Setup) (i h : Nat) (target : Option ClientId) (n : Network) : Prop :=
  ∀ t p, n.tasks[i]? = some t → t.activity = .publication (u.home h) p → p.target = target →
    (publicationStage t p).Owes p.event.frame h (n.framesOf (.task i) h)

theorem owedDirectly_of_none (hi : n.tasks.length ≤ i) : OwedDirectly u i h target n := by
  intro t p ht
  rw [List.getElem?_eq_none hi] at ht
  cases ht

theorem OwedDirectly.stepOwn (hinv : Inv u n) (howed : OwedDirectly u i h target n)
    {stopFirst : Bool} (hpresent : Present u n.cluster target h)
    (hpresent' : Present u (n.stepTask stopFirst i).cluster target h) :
    OwedDirectly u i h target (n.stepTask stopFirst i) := by
  rcases ended_or_live n.tasks i with hended | ⟨t, ht, hlive⟩
  · rwa [stepTask_of_ended hended]
  intro t' p' ht' hactivity' htarget'
  rw [getElem?_stepTask ht, if_pos rfl, Option.some.injEq] at ht'
  subst ht'
  have hcall := (sameKind_step t n.cluster stopFirst).call
  rw [hactivity', callIn] at hcall
  cases hactivity : t.activity with
  | publication s p =>
    rw [hactivity, callIn, Option.some.injEq, Call.mk.injEq] at hcall
    obtain ⟨rfl, htarget, hevent⟩ := hcall
    have hframes := framesOf_append (accepted_stepTask ht stopFirst h) (.task i)
    rw [source_of_publication ht hactivity, if_pos rfl] at hframes
    have hok := taskOk_publication hinv ht hactivity
    have howes := howed t p ht hactivity (htarget ▸ htarget')
    have haccounts := hok.accounts h rfl
    rw [cluster_stepTask ht] at hpresent'
    rw [hframes, hevent]
    cases p with
    | publishing target₀ e q =>
      obtain ⟨hfst, p'', hactivity'', _, _, _, hstage⟩ :=
        step_publishing stopFirst hlive hok.cancelAt n.cluster hactivity
      rw [hactivity', Activity.publication.injEq] at hactivity''
      obtain ⟨_, rfl⟩ := hactivity''
      have hok := hok.stage
      simp only [publicationStage, hlive, Option.isSome_none, Bool.false_eq_true, if_false]
        at hok haccounts howes
      rw [hfst] at hpresent' ⊢
      rw [hstage]
      have htarget₀ : target₀ = target := htarget.symm.trans htarget'
      subst htarget₀
      exact (stepLocal_advances hinv.good hok).owes h _ rfl hpresent hpresent' haccounts howes
    | relaying target₀ e =>
      obtain ⟨raw, _, hfst, hsnd⟩ := step_relaying stopFirst hinv.good hinv.stamp
        hok.server hlive hok.cancelAt hactivity
      rw [hsnd, hactivity, Activity.publication.injEq] at hactivity'
      obtain ⟨_, rfl⟩ := hactivity'
      have hnews : n.cluster.news (t.step n.cluster stopFirst).1 h = [] :=
        news_of_untouched (by rw [hfst]; rfl)
      rw [hnews, List.append_nil]
      exact howes
  | _ =>
    rw [hactivity] at hcall
    cases hcall

theorem getElem?_stepTask_of_ne (n : Network) (stopFirst : Bool) {i j : Nat} (hij : i ≠ j) :
    (n.stepTask stopFirst i).tasks[j]? = n.tasks[j]? := by
  cases ht : n.tasks[i]? with
  | none => rw [stepTask_of_ended fun t ht' => by simp [ht] at ht']
  | some t => rw [getElem?_stepTask ht, if_neg hij]

theorem OwedDirectly.step (hinv : Inv u n) (howed : OwedDirectly u i h target n)
    (hstep : Step u n n') (hpresent : Present u n.cluster target h)
    (hpresent' : Present u n'.cluster target h) : OwedDirectly u i h target n' := by
  rcases hstep.cases_task with ⟨stopFirst, j, rfl⟩ | hstill
  · by_cases hij : j = i
    · subst hij
      exact howed.stepOwn hinv hpresent hpresent'
    · have hsame := (hinv.stepTask stopFirst j).undisturbed i (Ne.symm hij)
      intro t p ht
      rw [getElem?_stepTask_of_ne n stopFirst hij] at ht
      rw [hsame.1 h]
      exact howed t p ht
  · intro t p ht hactivity htarget
    rcases hstill.begun i t ht with ht | hbegun
    · rw [framesOf, hstill.accepted]
      exact howed t p ht hactivity htarget
    · rw [hbegun _ p hactivity]
      trivial

/-! ## By the relay -/

theorem IsCallAt.unique {call call' : Call} (hcall : n.IsCallAt position call)
    (hcall' : n.IsCallAt position call') : call' = call := by
  obtain ⟨i, hi, hcall⟩ := hcall
  obtain ⟨j, hj, hcall'⟩ := hcall'
  rw [hi, Option.some.injEq] at hj
  rw [← hj, hcall, Option.some.injEq] at hcall'
  exact hcall'.symm

theorem Inv.length_framesOf_message (hinv : Inv u n) (position h : Nat) :
    (n.framesOf (.message position) h).length ≤ 1 := by
  have hnodup : (n.positions h).Nodup := (hinv.ordered h).imp Nat.ne_of_lt
  have hcount : (n.framesOf (.message position) h).length =
      (n.positions h).count position := by
    rw [framesOf, List.length_map, positions, List.count_filterMap, List.countP_eq_length_filter]
    congr 2
    funext m
    cases m.source <;> simp [Source.position?, beq_eq_decide]
  rw [hcount]
  exact List.nodup_iff_count_le_one.mp hnodup position

def Settled (u : Setup) (position h : Nat) (target : Option ClientId) (n : Network) : Prop :=
  ∃ call, n.IsCallAt position call ∧ (call.server ≠ u.home h → call.target = target →
    n.framesOf (.message position) h = [call.event.carried.frame])

theorem Settled.step (hinv : Inv u n) (hsettled : Settled u position h target n)
    (hstep : Step u n n') : Settled u position h target n' := by
  obtain ⟨call, hcall, hframes⟩ := hsettled
  refine ⟨call, hcall.extends (hinv.extends hstep), fun hforeign htarget => ?_⟩
  -- What has been accepted stays, and there is no room for the frame a second time.
  have hgrown := hstep.framesOf_grown (.message position) h
  rw [hframes hforeign htarget] at hgrown
  exact (hgrown.eq_of_length_le ((hinv.step hstep).length_framesOf_message position h)).symm

/-- The server of the connection owes it the frame of the message at a position until it has come
past it. -/
inductive OwedByRelay (u : Setup) (position h : Nat) (target : Option ClientId) (n : Network) :
    Prop where
  | coming (reader : Relay.Ring.Reader) (hreader : n.reader? (u.home h) = some reader)
      (hle : reader.position ≤ position)
  | handling (t : Task) (reader : Relay.Ring.Reader) (hd : Handling)
      (ht : n.tasks[u.home h]? = some t)
      (hactivity : t.activity = .subscriber (u.home h) (.handling (.ring reader) hd))
      (hposition : reader.position = position + 1)
      (howes : t.outcome = none → ∃ call, n.IsCallAt position call ∧
        (call.server ≠ u.home h → call.target = target → (handlingStage call hd).Owes
          call.event.carried.frame h (n.framesOf (.message position) h)))
  | settled (hsettled : Settled u position h target n)

theorem reader?_eq_some {s : Nat} {reader : Relay.Ring.Reader} :
    n.reader? s = some reader ↔ ∃ t s', n.tasks[s]? = some t ∧
      (t.activity = .subscriber s' (.listening (.ring reader)) ∨
        ∃ hd, t.activity = .subscriber s' (.handling (.ring reader) hd)) := by
  unfold reader?
  cases n.tasks[s]? with
  | none => simp
  | some t =>
    simp only [Option.map_some, Option.some.injEq]
    constructor
    · intro h
      split at h
      · next s' reader' hactivity =>
        cases h
        exact ⟨t, s', rfl, Or.inl (Option.some.inj hactivity)⟩
      · next s' reader' hd hactivity =>
        cases h
        exact ⟨t, s', rfl, Or.inr ⟨hd, Option.some.inj hactivity⟩⟩
      · cases h
    · rintro ⟨t', s', rfl, hactivity | ⟨hd, hactivity⟩⟩ <;> rw [hactivity]

/-- A step that leaves the subscriber of the server and its account as they are. -/
theorem OwedByRelay.of_same (howed : OwedByRelay u position h target n) (hextends : Extends n n')
    (htask : ∀ t, n.tasks[u.home h]? = some t → n'.tasks[u.home h]? = some t)
    (hframes : n'.framesOf (.message position) h = n.framesOf (.message position) h) :
    OwedByRelay u position h target n' := by
  cases howed with
  | coming reader hreader hle =>
    obtain ⟨t, s, ht, hactivity⟩ := reader?_eq_some.mp hreader
    exact .coming reader (reader?_eq_some.mpr ⟨t, s, htask t ht, hactivity⟩) hle
  | handling t reader hd ht hactivity hposition howes =>
    refine .handling t reader hd (htask t ht) hactivity hposition fun hlive => ?_
    obtain ⟨call, hcall, howes⟩ := howes hlive
    exact ⟨call, hcall.extends hextends, hframes ▸ howes⟩
  | settled hsettled =>
    obtain ⟨call, hcall, hsettled⟩ := hsettled
    exact .settled ⟨call, hcall.extends hextends, hframes ▸ hsettled⟩

theorem OwedByRelay.stepComing (hinv : Inv u n) {stopFirst : Bool} {t : Task}
    (ht : n.tasks[u.home h]? = some t) (hlive : t.outcome = none) {st : Subscriber}
    (hactivity : t.activity = .subscriber (u.home h) st) {reader : Relay.Ring.Reader}
    (hst : st = .listening (.ring reader) ∨ ∃ hd, st = .handling (.ring reader) hd)
    (hle : reader.position ≤ position) (hlags : ¬ n.Lags (u.home h) position) :
    OwedByRelay u position h target (n.stepTask stopFirst (u.home h)) := by
  obtain ⟨_, hserver, hcancelAt, hok⟩ := taskOk_subscriber hinv ht hactivity
  have hfound : (n.stepTask stopFirst (u.home h)).tasks[u.home h]? =
      some (t.step n.cluster stopFirst).2.1 := by
    rw [getElem?_stepTask ht, if_pos rfl]
  have hcoming : ∀ reader' st', (t.step n.cluster stopFirst).2.1.activity =
      .subscriber (u.home h) st' → st' = .listening (.ring reader') ∨
        (∃ hd, st' = .handling (.ring reader') hd) → reader'.position ≤ position →
      OwedByRelay u position h target (n.stepTask stopFirst (u.home h)) := by
    intro reader' st' hactivity' hst' hle'
    refine .coming reader' (reader?_eq_some.mpr ⟨_, u.home h, hfound, ?_⟩) hle'
    rcases hst' with rfl | ⟨hd, rfl⟩
    · exact Or.inl hactivity'
    · exact Or.inr ⟨hd, hactivity'⟩
  rcases hst with rfl | ⟨hd, rfl⟩
  · obtain ⟨_, hfeed, hreader⟩ := hok
    cases hfeed
    obtain ⟨_, ⟨hlow, hsnd⟩ | ⟨channel, text, hmessage, hsnd⟩ | hsnd⟩ :=
      step_listening stopFirst hinv hlive hcancelAt hreader hactivity
    · apply hcoming _ _ (by rw [hsnd]) (Or.inl rfl)
      by_contra hlost
      exact hlags ⟨reader, reader?_eq_some.mpr ⟨t, _, ht, Or.inl hactivity⟩, hle,
        Nat.not_le.mp hlost⟩
    · -- The message that is heard is an earlier one, or the one that is owed.
      rcases Nat.lt_or_eq_of_le hle with hlt | rfl
      · exact hcoming ⟨reader.channels, reader.position + 1⟩ _ (by rw [hsnd])
          (Or.inr ⟨_, rfl⟩) hlt
      · obtain ⟨_, call, hcall, _⟩ := hinv.ring.messages _ _ hmessage
        refine .handling _ ⟨reader.channels, reader.position + 1⟩ (.fresh text) hfound
          (by rw [hsnd]) rfl fun _ => ?_
        exact ⟨call, hcall.extends (hinv.stepTask stopFirst _).lasting, fun _ _ => trivial⟩
    · exact hcoming reader _ (by rw [hsnd]; exact hactivity) (Or.inl rfl) hle
  · obtain ⟨_, position', hfeed, _, _, hhandling⟩ := hok
    cases hfeed
    cases hd with
    | fresh raw =>
      obtain ⟨call, hcall, hcarries, _⟩ := hhandling hlive
      obtain ⟨_, ⟨_, hsnd⟩ | ⟨_, hsnd⟩⟩ := step_received stopFirst hinv hserver hlive
        hcancelAt hcall (hcarries raw rfl) hactivity
      · exact hcoming reader _ (by rw [hsnd]) (Or.inl rfl) hle
      · exact hcoming reader _ (by rw [hsnd]) (Or.inr ⟨_, rfl⟩) hle
    | publishing p =>
      obtain ⟨_, _, ⟨hactivity', _⟩ | ⟨p', hactivity', _⟩⟩ :=
        step_handling stopFirst hlive hcancelAt n.cluster hactivity
      · exact hcoming reader _ hactivity' (Or.inl rfl) hle
      · exact hcoming reader _ hactivity' (Or.inr ⟨_, rfl⟩) hle

theorem OwedByRelay.stepHandling (hinv : Inv u n) {stopFirst : Bool} {t : Task}
    (ht : n.tasks[u.home h]? = some t) (hlive : t.outcome = none) {reader : Relay.Ring.Reader}
    {hd : Handling}
    (hactivity : t.activity = .subscriber (u.home h) (.handling (.ring reader) hd))
    (hposition : reader.position = position + 1) {call : Call} (hcall : n.IsCallAt position call)
    (howes : call.server ≠ u.home h → call.target = target → (handlingStage call hd).Owes
      call.event.carried.frame h (n.framesOf (.message position) h))
    (hpresent : Present u n.cluster target h)
    (hpresent' : Present u (n.stepTask stopFirst (u.home h)).cluster target h) :
    OwedByRelay u position h target (n.stepTask stopFirst (u.home h)) := by
  obtain ⟨_, hserver, hcancelAt, _, _, hfeed, _, hposition', hhandling⟩ :=
    taskOk_subscriber hinv ht hactivity
  cases hfeed
  have hsame : position = _ := Nat.succ.inj (hposition.symm.trans hposition')
  subst hsame
  obtain ⟨call', hcall', hcarries, _, hstage, haccounts⟩ := hhandling hlive
  obtain rfl := hcall.unique hcall'
  have hfound : (n.stepTask stopFirst (u.home h)).tasks[u.home h]? =
      some (t.step n.cluster stopFirst).2.1 := by
    rw [getElem?_stepTask ht, if_pos rfl]
  have hcall' := hcall.extends (hinv.stepTask stopFirst (u.home h)).lasting
  cases hd with
  | fresh raw =>
    obtain ⟨_, ⟨hown, _⟩ | ⟨_, hsnd⟩⟩ := step_received stopFirst hinv hserver hlive
      hcancelAt hcall (hcarries raw rfl) hactivity
    · exact .settled ⟨call', hcall', fun hforeign => absurd hown hforeign⟩
    · exact .handling _ reader (.publishing (.fresh call'.target call'.event.carried)) hfound
        (by rw [hsnd]) hposition fun _ => ⟨call', hcall', fun _ _ => trivial⟩
  | publishing p =>
    have hframes := framesOf_append (accepted_stepTask ht stopFirst h) (.message position)
    rw [source_of_handling ht hposition hactivity, if_pos rfl] at hframes
    obtain ⟨hfst, _, hresult⟩ :=
      step_handling stopFirst hlive hcancelAt n.cluster hactivity
    have howes' : call'.server ≠ u.home h → call'.target = target →
        (stageAfter LocalPublish.stage p (n.cluster.stepLocal false (u.home h) p).2).Owes
          call'.event.carried.frame h
          ((n.stepTask stopFirst (u.home h)).framesOf (.message position) h) := by
      intro hforeign htarget
      subst htarget
      rw [cluster_stepTask ht, hfst] at hpresent'
      rw [hframes, hfst]
      exact (stepLocal_advances hinv.good hstage).owes h _ rfl hpresent hpresent'
        (haccounts h rfl) (howes hforeign rfl)
    rcases hresult with ⟨_, hover⟩ | ⟨p', hactivity', hstage'⟩
    · rw [hover] at howes'
      exact .settled ⟨call', hcall', howes'⟩
    · refine .handling _ reader _ hfound hactivity' hposition fun hlive' => ⟨call', hcall', ?_⟩
      rw [← hstage' hlive'] at howes'
      exact howes'

theorem OwedByRelay.step (hinv : Inv u n) (howed : OwedByRelay u position h target n)
    (hstep : Step u n n') (hlags : ¬ n.Lags (u.home h) position)
    (hpresent : Present u n.cluster target h) (hpresent' : Present u n'.cluster target h) :
    OwedByRelay u position h target n' := by
  rcases hstep.cases_task with ⟨stopFirst, j, rfl⟩ | hstill
  · by_cases hj : j = u.home h
    · subst hj
      rcases ended_or_live n.tasks (u.home h) with hended | ⟨t, ht, hlive⟩
      · rwa [stepTask_of_ended hended]
      cases howed with
      | coming reader hreader hle =>
        obtain ⟨t', s, ht', hactivity⟩ := reader?_eq_some.mp hreader
        rw [ht, Option.some.injEq] at ht'
        subst ht'
        rcases hactivity with hactivity | ⟨hd, hactivity⟩
        · obtain rfl := (taskOk_subscriber hinv ht hactivity).1
          exact OwedByRelay.stepComing hinv ht hlive hactivity (Or.inl rfl) hle hlags
        · obtain rfl := (taskOk_subscriber hinv ht hactivity).1
          exact OwedByRelay.stepComing hinv ht hlive hactivity (Or.inr ⟨hd, rfl⟩) hle hlags
      | handling t' reader hd ht' hactivity hposition howes =>
        rw [ht, Option.some.injEq] at ht'
        subst ht'
        obtain ⟨call, hcall, howes⟩ := howes hlive
        exact OwedByRelay.stepHandling hinv ht hlive hactivity hposition hcall howes hpresent
          hpresent'
      | settled hsettled => exact .settled (hsettled.step hinv hstep)
    · have hsame := (hinv.stepTask stopFirst j).undisturbed (u.home h) (Ne.symm hj)
      refine howed.of_same (hinv.extends hstep) (fun t ht => ?_) ((hsame.2 h rfl).2 position)
      rwa [getElem?_stepTask_of_ne n stopFirst hj]
  · apply howed.of_same (hinv.extends hstep) (hstill.kept _)
    rw [framesOf, framesOf, hstill.accepted]

end EventHub.Cluster.Network
