import EventHub.Proofs.Cluster.Publications
/-!
# Steps of a subscriber

A subscriber reads the messages in order. Those of its own server it passes over; the others it
delivers to the connections of its server, one after another.
-/

namespace EventHub

namespace Cluster.Network

open Relay (Message Ring)

variable {u : Setup} {n : Network} {s : Nat} {t : Task} {stopFirst : Bool}

theorem Inv.call_valid (hinv : Inv u n) {i : Nat} {call : Call} (hcall : n.call? i = some call) :
    call.server < u.ids.length ∧ call.event.payload.Valid ∧
      call.event.payload.depth < Json.maxDepth := by
  obtain ⟨t, ht, hcall⟩ := Option.bind_eq_some_iff.mp hcall
  cases hactivity : t.activity with
  | publication s p =>
    rw [hactivity] at hcall
    cases hcall
    have hok := taskOk_publication hinv ht hactivity
    exact ⟨hok.server, hok.valid, hok.depth⟩
  | _ => simp [hactivity, callIn] at hcall

/-- What a server makes of a message on the relay: nothing of its own. -/
theorem received_of_carries {call : Call} (hvalid : call.event.payload.Valid)
    (hdepth : call.event.payload.depth < Json.maxDepth) {raw : String}
    (hcarries : Carries u call raw) {id : ServerId} (hid : u.ids[s]? = some id) :
    received id raw =
      .ok (if call.server = s then none else some (.fresh call.target call.event.carried)) := by
  obtain ⟨source, stamp, hsource, ⟨hlow, hhigh⟩, rfl⟩ := hcarries
  rw [received_encode id hlow hhigh (Message.event_ofEvent source call.target stamp hvalid hdepth)]
  have hsame : source = id ↔ call.server = s := by
    constructor
    · rintro rfl
      have hlt := (List.getElem?_eq_some_iff.mp hsource).1
      exact (List.getElem?_inj hlt u.nodup).mp (hsource.trans hid.symm)
    · intro h
      rw [h, hid, Option.some.injEq] at hsource
      exact hsource.symm
  simp only [Message.ofEvent, hsame]

theorem taskOk_subscriber (hinv : Inv u n) {i : Nat} (ht : n.tasks[i]? = some t) {st : Subscriber}
    (hactivity : t.activity = .subscriber s st) :
    s = i ∧ s < u.ids.length ∧ t.cancelAt = none ∧ SubscriberOk u n s t st := by
  have hok := hinv.tasks i t ht
  rwa [TaskOk, hactivity] at hok

abbrev inState (t : Task) (s : Nat) (st : Subscriber) : Task :=
  { t with activity := .subscriber s st }

theorem step_subscriber (stopFirst : Bool) (hlive : t.outcome = none)
    (hcancelAt : t.cancelAt = none) (c : Cluster) {st : Subscriber}
    (hactivity : t.activity = .subscriber s st) :
    (t.step c stopFirst).1 = (c.stepSubscriber false stopFirst s st).1 ∧
      (t.step c stopFirst).2.1 =
        match (c.stepSubscriber false stopFirst s st).2 with
        | .blocked => t
        | .moved st' => inState t s st'
        | .done () => { t with outcome := some (.result (.ok ())) } := by
  have hstep := step_of_live (c := c) stopFirst hlive rfl
  rw [isCancelled_of_none hcancelAt, hactivity] at hstep
  simp only [Activity.step] at hstep
  generalize c.stepSubscriber false stopFirst s st = q at hstep ⊢
  obtain ⟨c', _ | st' | _⟩ := q <;> exact hstep

/-- A step of a subscriber that changes nothing but its own state. -/
theorem Inv.stepQuiet (hinv : Inv u n) {i : Nat} (ht : n.tasks[i]? = some t)
    (hlive : t.outcome = none) {st st' : Subscriber} (hactivity : t.activity = .subscriber s st)
    (hfst : (t.step n.cluster stopFirst).1 = n.cluster)
    (hsnd : (t.step n.cluster stopFirst).2.1 = inState t s st')
    (hok : ∀ n', Extends n n' → n'.cluster = n.cluster → n'.accepted = n.accepted →
      SubscriberOk u n' s (inState t s st') st') :
    Kept u n (n.stepTask stopFirst i) (· ≠ i) := by
  obtain ⟨hs, hserver, hcancelAt, _⟩ := taskOk_subscriber hinv ht hactivity
  apply hinv.silent ht hlive (by rw [hfst]; exact Silent.refl hinv.good)
  intro n' hextends hcluster haccepted _
  rw [hsnd, TaskOk]
  exact ⟨hs, hserver, hcancelAt, hok n' hextends (hcluster.trans hfst) haccepted⟩

/-! ## Subscribing and listening -/

theorem Inv.stepSubscribing (hinv : Inv u n) {i : Nat} (ht : n.tasks[i]? = some t)
    (hlive : t.outcome = none) {pause : Nat}
    (hactivity : t.activity = .subscriber s (.subscribing pause)) :
    Kept u n (n.stepTask stopFirst i) (· ≠ i) := by
  obtain ⟨_, hserver, hcancelAt, hnone⟩ := taskOk_subscriber hinv ht hactivity
  obtain ⟨server, hfound, hid⟩ := server?_of_lt hinv.good hserver
  obtain ⟨_, _, hlink, hchannels⟩ := hinv.good.plain s server hfound
  obtain ⟨hfst, hsnd⟩ :=
    step_subscriber stopFirst hlive hcancelAt n.cluster hactivity
  simp only [stepSubscriber, Bool.false_and, Bool.false_eq_true, if_false, subscribe, hfound,
    hlink] at hfst hsnd
  apply hinv.stepQuiet ht hlive hactivity hfst hsnd
  intro n' _ hcluster haccepted
  refine ⟨_, rfl, ?_, ?_, fun h hh position hposition => ?_⟩
  · simp [Ring.subscribe, Settings.Channels.heardBy, hchannels]
  · rw [hcluster]
    exact Nat.le_refl _
  · rw [positions, haccepted] at hposition
    rw [show (n.accepted h).filterMap _ = [] from hnone h hh] at hposition
    cases hposition

/-- A subscriber that listens has lost messages, hears the next one, or goes on waiting. -/
theorem step_listening (stopFirst : Bool) (hinv : Inv u n) (hlive : t.outcome = none)
    (hcancelAt : t.cancelAt = none) {reader : Ring.Reader} (hreader : ReaderOk u n s reader)
    (hactivity : t.activity = .subscriber s (.listening (.ring reader))) :
    (t.step n.cluster stopFirst).1 = n.cluster ∧
      (reader.position < n.cluster.ring.oldest ∧ (t.step n.cluster stopFirst).2.1 =
          inState t s (.listening (.ring ⟨reader.channels, n.cluster.ring.oldest⟩)) ∨
        (∃ channel text, n.cluster.ring.at? reader.position = some (channel, text) ∧
          (t.step n.cluster stopFirst).2.1 = inState t s
            (.handling (.ring ⟨reader.channels, reader.position + 1⟩) (.fresh text))) ∨
        (t.step n.cluster stopFirst).2.1 = t) := by
  obtain ⟨hfst, hsnd⟩ :=
    step_subscriber stopFirst hlive hcancelAt n.cluster hactivity
  have hnext : Ring.Next n.cluster.ring reader (n.cluster.ring.next reader) :=
    Ring.next_spec fun position m hm => (hinv.ring.messages position m hm).1 ▸ hreader.channels
  simp only [stepSubscriber, Bool.false_and, Bool.false_eq_true, if_false, Feed.next] at hfst hsnd
  generalize n.cluster.ring.next reader = q at hnext hfst hsnd
  cases hnext with
  | lost hlow => exact ⟨hfst, Or.inl ⟨hlow, hsnd⟩⟩
  | message channel text hmessage =>
    exact ⟨hfst, Or.inr (Or.inl ⟨channel, text, hmessage, hsnd⟩)⟩
  | nothing =>
    simp only [if_true] at hfst hsnd
    exact ⟨hfst, Or.inr (Or.inr hsnd)⟩

theorem Inv.stepListening (hinv : Inv u n) {i : Nat} (ht : n.tasks[i]? = some t)
    (hlive : t.outcome = none) {feed : Feed}
    (hactivity : t.activity = .subscriber s (.listening feed)) :
    Kept u n (n.stepTask stopFirst i) (· ≠ i) := by
  obtain ⟨_, hserver, hcancelAt, reader, rfl, hreader⟩ := taskOk_subscriber hinv ht hactivity
  obtain ⟨hfst, hlost | ⟨channel, text, hmessage, hsnd⟩ | hsnd⟩ :=
    step_listening stopFirst hinv hlive hcancelAt hreader hactivity
  · obtain ⟨hlow, hsnd⟩ := hlost
    apply hinv.stepQuiet ht hlive hactivity hfst hsnd
    intro n' _ hcluster haccepted
    refine ⟨_, rfl, hreader.channels, ?_, fun h hh position hposition => ?_⟩
    · rw [hcluster]
      exact Ring.oldest_le_sent _
    · rw [positions, haccepted] at hposition
      exact Nat.lt_trans (hreader.bound h hh position hposition) hlow
  · obtain ⟨_, call, hcall, hcarries⟩ := hinv.ring.messages _ _ hmessage
    apply hinv.stepQuiet ht hlive hactivity hfst hsnd
    intro n' hextends hcluster haccepted
    refine ⟨_, reader.position, rfl,
      ⟨hreader.channels, ?_, fun h hh position hposition => ?_⟩, rfl,
      fun _ => ⟨call, hcall.extends hextends, ?_, fun _ h => (by cases h), ⟨rfl, rfl⟩,
        fun h hh => ?_⟩⟩
    · rw [hcluster]
      exact (Ring.lt_sent_of_at? hinv.ring.counted hmessage).2
    · rw [positions, haccepted] at hposition
      exact Nat.lt_succ_of_lt (hreader.bound h hh position hposition)
    · rintro raw ⟨⟩
      exact hcarries
    -- The reader has not been here before, so nothing of this message is there yet.
    · apply framesOf_eq_nil
      intro hmem
      rw [positions, haccepted] at hmem
      exact Nat.lt_irrefl _ (hreader.bound h hh _ hmem)
  · have hsame : (t.step n.cluster stopFirst).2.1 =
        inState t s (.listening (.ring reader)) := by
      rw [hsnd, inState, ← hactivity]
    exact hinv.stepQuiet ht hlive hactivity hfst hsame fun n' hextends _ haccepted =>
      ⟨reader, rfl, hreader.extends hextends (undisturbed_of_accepted haccepted s)⟩

/-! ## Handling a message -/

/-- The message is one of the server's own, or its delivery begins. -/
theorem step_received (stopFirst : Bool) (hinv : Inv u n) (hserver : s < u.ids.length)
    (hlive : t.outcome = none) (hcancelAt : t.cancelAt = none) {position : Nat} {call : Call}
    (hcall : n.IsCallAt position call) {feed : Feed} {raw : String} (hraw : Carries u call raw)
    (hactivity : t.activity = .subscriber s (.handling feed (.fresh raw))) :
    (t.step n.cluster stopFirst).1 = n.cluster ∧
      (call.server = s ∧ (t.step n.cluster stopFirst).2.1 =
          inState t s (.listening feed) ∨
        call.server ≠ s ∧ (t.step n.cluster stopFirst).2.1 = inState t s
          (.handling feed (.publishing (.fresh call.target call.event.carried)))) := by
  obtain ⟨server, hfound, hid⟩ := server?_of_lt hinv.good hserver
  obtain ⟨j, _, hj⟩ := hcall
  obtain ⟨_, hvalid, hdepth⟩ := hinv.call_valid hj
  obtain ⟨hfst, hsnd⟩ :=
    step_subscriber stopFirst hlive hcancelAt n.cluster hactivity
  simp only [stepSubscriber, stepHandling, hfound,
    received_of_carries hvalid hdepth hraw hid] at hfst hsnd
  by_cases hown : call.server = s
  · simp only [hown, if_true] at hfst hsnd
    exact ⟨hfst, Or.inl ⟨hown, hsnd⟩⟩
  · simp only [hown, if_false] at hfst hsnd
    exact ⟨hfst, Or.inr ⟨hown, hsnd⟩⟩

theorem Inv.stepReceived (hinv : Inv u n) {i : Nat} (ht : n.tasks[i]? = some t)
    (hlive : t.outcome = none) {feed : Feed} {raw : String}
    (hactivity : t.activity = .subscriber s (.handling feed (.fresh raw))) :
    Kept u n (n.stepTask stopFirst i) (· ≠ i) := by
  obtain ⟨_, hserver, hcancelAt, reader, position, rfl, hreader, hposition, hhandling⟩ :=
    taskOk_subscriber hinv ht hactivity
  obtain ⟨call, hcall, hcarries, _, _, haccounts⟩ := hhandling hlive
  obtain ⟨hfst, ⟨_, hsnd⟩ | ⟨hforeign, hsnd⟩⟩ := step_received stopFirst hinv hserver
    hlive hcancelAt hcall (hcarries raw rfl) hactivity
  · exact hinv.stepQuiet ht hlive hactivity hfst hsnd fun n' hextends _ haccepted =>
      ⟨reader, rfl, hreader.extends hextends (undisturbed_of_accepted haccepted s)⟩
  · refine hinv.stepQuiet ht hlive hactivity hfst hsnd fun n' hextends _ haccepted =>
      ⟨reader, position, rfl, hreader.extends hextends (undisturbed_of_accepted haccepted s),
        hposition, fun _ =>
          ⟨call, hcall.extends hextends, nofun, fun _ _ => hforeign, ⟨rfl, rfl⟩,
          fun h hh => ?_⟩⟩
    rw [framesOf, haccepted]
    exact haccounts h hh

/-- The task of a subscriber that delivers a message after a step, and the stage of the delivery
then. -/
theorem step_handling (stopFirst : Bool) (hlive : t.outcome = none)
    (hcancelAt : t.cancelAt = none) (c : Cluster) {feed : Feed} {p : LocalPublish}
    (hactivity : t.activity = .subscriber s (.handling feed (.publishing p))) :
    (t.step c stopFirst).1 = (c.stepLocal false s p).1 ∧
      (t.step c stopFirst).2.1.cancelAt = none ∧
      ((t.step c stopFirst).2.1.activity = .subscriber s (.listening feed) ∧
          stageAfter LocalPublish.stage p (c.stepLocal false s p).2 = .ended ∨
        ∃ p', (t.step c stopFirst).2.1.activity =
            .subscriber s (.handling feed (.publishing p')) ∧
          ((t.step c stopFirst).2.1.outcome = none →
            p'.stage = stageAfter LocalPublish.stage p (c.stepLocal false s p).2)) := by
  obtain ⟨hfst, hsnd⟩ := step_subscriber stopFirst hlive hcancelAt c hactivity
  simp only [stepSubscriber, stepHandling] at hfst hsnd
  generalize c.stepLocal false s p = q at hfst hsnd ⊢
  obtain ⟨c', _ | p' | ⟨e | _⟩⟩ := q
  · exact ⟨hfst, by rw [hsnd]; exact hcancelAt, Or.inr ⟨p, by rw [hsnd]; exact hactivity,
      fun _ => rfl⟩⟩
  · exact ⟨hfst, by rw [hsnd]; exact hcancelAt,
      Or.inr ⟨p', by rw [hsnd]; rfl, fun _ => rfl⟩⟩
  · simp only [Progress.mapState] at hfst hsnd
    cases hcancelled : e.isCancelled <;> rw [hcancelled] at hfst hsnd
    · exact ⟨hfst, by rw [hsnd]; exact hcancelAt, Or.inl ⟨by rw [hsnd]; rfl, rfl⟩⟩
    · exact ⟨hfst, by rw [hsnd]; exact hcancelAt, Or.inr ⟨p, by rw [hsnd]; exact hactivity,
        fun h => by rw [hsnd] at h; cases h⟩⟩
  · exact ⟨hfst, by rw [hsnd]; exact hcancelAt, Or.inl ⟨by rw [hsnd]; rfl, rfl⟩⟩

theorem source_of_handling {i : Nat} (ht : n.tasks[i]? = some t) {reader : Ring.Reader}
    {position : Nat} (hposition : reader.position = position + 1) {hd : Handling}
    (hactivity : t.activity = .subscriber s (.handling (.ring reader) hd)) :
    n.source i = .message position := by
  simp only [source, ht, Option.map_some, hactivity, hposition, Nat.add_sub_cancel]

theorem Inv.stepDelivering (hinv : Inv u n) {i : Nat} (ht : n.tasks[i]? = some t)
    (hlive : t.outcome = none) {feed : Feed} {p : LocalPublish}
    (hactivity : t.activity = .subscriber s (.handling feed (.publishing p))) :
    Kept u n (n.stepTask stopFirst i) (· ≠ i) := by
  obtain ⟨rfl, hserver, hcancelAt, reader, position, rfl, hreader, hposition, hhandling⟩ :=
    taskOk_subscriber hinv ht hactivity
  obtain ⟨call, hcall, _, hforeign, hstage, haccounts⟩ := hhandling hlive
  have hforeign := hforeign p rfl
  obtain ⟨hfst, hcancelAt', hresult⟩ :=
    step_handling stopFirst hlive hcancelAt n.cluster hactivity
  have hsource := source_of_handling ht hposition hactivity
  have hadvances := stepLocal_advances hinv.good hstage
  rw [← hfst] at hadvances
  have hpositions := fun h => positions_append (accepted_stepTask ht stopFirst h)
  apply hinv.carryOn ht hlive hadvances (hsource ▸ haccounts)
    (Or.inr ⟨rfl, position, hsource⟩)
  · intro hextends
    have hreader' : ReaderOk u (n.stepTask stopFirst s) s reader := by
      refine ⟨hreader.channels, Nat.le_trans hreader.position_le hextends.sent, ?_⟩
      intro h hh q hq
      rw [hpositions, hsource, List.mem_append] at hq
      rcases hq with hq | hq
      · exact hreader.bound h hh q hq
      · simp only [Source.position?, List.mem_filterMap, Option.some.injEq] at hq
        omega
    rcases hresult with ⟨hactivity', _⟩ | ⟨p', hactivity', hstage'⟩
    · rw [TaskOk, hactivity']
      exact ⟨rfl, hserver, hcancelAt', reader, rfl, hreader'⟩
    · rw [TaskOk, hactivity']
      refine ⟨rfl, hserver, hcancelAt', reader, position, rfl, hreader', hposition,
        fun hlive' => ?_⟩
      rw [← hstage' hlive'] at hadvances
      refine ⟨call, hcall.extends hextends, fun _ h => (by cases h), fun _ _ => hforeign, ?_,
        fun h hh => ?_⟩
      · rw [cluster_stepTask ht]
        exact hadvances.ok
      · rw [← hsource]
        exact accounts_stepTask ht hadvances (hsource ▸ haccounts h hh)
  · intro hextends h hh
    rw [hsource]
    exact ⟨call, hcall.extends hextends, hh ▸ hforeign, rfl⟩
  · intro h
    rw [hpositions, hsource]
    by_cases hhome : u.home h = s
    · rcases hadvances.news_cases (haccounts h hhome) with hnil | ⟨hframes, hone⟩
      · rw [hnil]
        simpa using hinv.ordered h
      · -- The position is new to the connection, so it comes behind all that it has.
        rw [hone]
        refine List.pairwise_append.mpr ⟨hinv.ordered h, List.pairwise_singleton _ _, ?_⟩
        intro a ha b hb
        have hb : b = position := by simpa [Source.position?] using hb
        have hbound := hreader.bound h hhome a ha
        have hne : a ≠ position := fun hsame => not_mem_positions hframes (hsame ▸ ha)
        omega
    · rw [hadvances.elsewhere h hhome]
      simpa using hinv.ordered h

/-! ## All steps -/

theorem Inv.stepTask (hinv : Inv u n) (stopFirst : Bool) (i : Nat) :
    Kept u n (n.stepTask stopFirst i) (· ≠ i) := by
  rcases ended_or_live n.tasks i with hended | ⟨t, ht, hlive⟩
  · rw [stepTask_of_ended hended]
    exact ⟨hinv, Extends.refl n, fun j _ => undisturbed_of_accepted rfl j⟩
  · have hok := hinv.tasks i t ht
    unfold TaskOk at hok
    split at hok
    · next s p hactivity =>
      cases p with
      | publishing target e p => exact hinv.stepPublishing ht hlive hactivity
      | relaying target e => exact hinv.stepRelaying ht hlive hactivity
    · next s st hactivity =>
      cases st with
      | subscribing pause => exact hinv.stepSubscribing ht hlive hactivity
      | resting time pause => exact hok.2.2.2.elim
      | listening feed => exact hinv.stepListening ht hlive hactivity
      | handling feed hd =>
        cases hd with
        | fresh raw => exact hinv.stepReceived ht hlive hactivity
        | publishing p => exact hinv.stepDelivering ht hlive hactivity
    · next hactivity => exact hinv.stepRegistration ht hlive hactivity
    · next hactivity => exact hinv.stepRemoval ht hlive hactivity
    · exact hok.elim

theorem Inv.kept {n' : Network} (hinv : Inv u n) (hstep : Step u n n') :
    ∃ others, Kept u n n' others := by
  cases hstep with
  | task stopFirst i => exact ⟨_, hinv.stepTask stopFirst i⟩
  | publish s target event hserver hvalid hdepth =>
    exact ⟨_, hinv.publish hserver hvalid hdepth⟩
  | register h cancelAt => exact ⟨_, hinv.register h cancelAt⟩
  | remove s id cancelAt => exact ⟨_, hinv.remove s id cancelAt⟩
  | connect x hwriter => exact ⟨_, hinv.connect hwriter⟩
  | outside h x x' hx hx' => exact ⟨_, hinv.outside hx hx'⟩
  | wait now stamp hnow hstamp => exact ⟨_, hinv.wait now hstamp⟩

theorem Inv.step {n' : Network} (hinv : Inv u n) (hstep : Step u n n') : Inv u n' :=
  (hinv.kept hstep).elim fun _ hkept => hkept.inv

theorem Inv.extends {n' : Network} (hinv : Inv u n) (hstep : Step u n n') : Extends n n' :=
  (hinv.kept hstep).elim fun _ hkept => hkept.lasting

theorem Reachable.inv (hn : Reachable u n) : Inv u n := by
  induction hn with
  | start capacity now stamp hstamp => exact inv_start u capacity now hstamp
  | step hn hstep ih => exact ih.step hstep

end Cluster.Network

end EventHub
