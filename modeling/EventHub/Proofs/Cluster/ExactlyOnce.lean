import EventHub.Proofs.Cluster.Owed
/-!
# Events reach each connection once

Whatever the order of the steps, no connection gets the event of a publication twice, one that
stays in place gets it once, and what comes by the relay comes in the order of the relay.
-/

namespace EventHub.Cluster.Network

variable {u : Setup} {n n' : Network} {i h position : Nat} {call : Call}

/-! ## Where receipts come from -/

theorem Inv.mark_of_task (hinv : Inv u n) {m : Mark} (hm : m ∈ n.accepted h)
    (hsource : m.source = .task i) :
    ∃ call, n.call? i = some call ∧ call.server = u.home h ∧ m.frame = call.event.frame := by
  have hmark := hinv.marks h m hm
  rwa [MarkOk, hsource] at hmark

theorem Inv.mark_of_message (hinv : Inv u n) {m : Mark} (hm : m ∈ n.accepted h)
    (hsource : m.source = .message position) :
    ∃ call, n.IsCallAt position call ∧ call.server ≠ u.home h ∧
      m.frame = call.event.carried.frame := by
  have hmark := hinv.marks h m hm
  rwa [MarkOk, hsource] at hmark

theorem IsCallAt.call?_eq (hcall : n.IsCallAt position call)
    (hposition : n.relayed[position]? = some i) : n.call? i = some call := by
  obtain ⟨j, hj, hcall⟩ := hcall
  rw [hposition, Option.some.injEq] at hj
  rwa [hj]

/-- The receipts on the server of a call come from the publication itself. -/
theorem Inv.receipts_of_home (hinv : Inv u n) (hcall : n.call? i = some call)
    (hhome : call.server = u.home h) : n.receipts i h = n.framesOf (.task i) h := by
  unfold receipts framesOf
  refine congrArg _ (List.filter_congr fun m hm => decide_eq_decide.mpr ?_)
  constructor
  · intro hof
    cases hsource : m.source with
    | task j =>
      rw [hsource, callOf, Option.some.injEq] at hof
      rw [hof]
    | message position =>
      rw [hsource, callOf] at hof
      obtain ⟨call', hcall', hforeign, _⟩ := hinv.mark_of_message hm hsource
      have hsame := hcall.symm.trans (hcall'.call?_eq hof)
      rw [Option.some.injEq] at hsame
      exact absurd (hsame ▸ hhome) hforeign
  · intro hsource
    rw [hsource, callOf]

theorem Inv.receipts_of_relayed (hinv : Inv u n) (hcall : n.call? i = some call)
    (hforeign : call.server ≠ u.home h) (hposition : n.relayed[position]? = some i) :
    n.receipts i h = n.framesOf (.message position) h := by
  unfold receipts framesOf
  refine congrArg _ (List.filter_congr fun m hm => decide_eq_decide.mpr ?_)
  constructor
  · intro hof
    cases hsource : m.source with
    | task j =>
      rw [hsource, callOf, Option.some.injEq] at hof
      obtain ⟨call', hcall', hhome, _⟩ := hinv.mark_of_task hm hsource
      rw [hof, hcall, Option.some.injEq] at hcall'
      exact absurd (hcall' ▸ hhome) hforeign
    | message position' =>
      rw [hsource, callOf, ← hposition] at hof
      have hlt := (List.getElem?_eq_some_iff.mp hposition).1
      rw [← (List.getElem?_inj hlt hinv.ring.nodup).mp hof.symm]
  · intro hsource
    rw [hsource, callOf, hposition]

theorem Inv.length_framesOf_task (hinv : Inv u n) (hcall : n.call? i = some call)
    (hhome : call.server = u.home h) : (n.framesOf (.task i) h).length ≤ 1 := by
  obtain ⟨t, ht, hcall⟩ := Option.bind_eq_some_iff.mp hcall
  cases hactivity : t.activity with
  | publication s p =>
    rw [hactivity] at hcall
    cases hcall
    have hok := taskOk_publication hinv ht hactivity
    rcases (hok.accounts h hhome.symm).length_le hok.stage with hframes | hframes <;>
      simp [hframes]
  | _ => simp [hactivity, callIn] at hcall

theorem Inv.length_receipts (hinv : Inv u n) (i h : Nat) : (n.receipts i h).length ≤ 1 := by
  by_cases hnone : ∀ m ∈ n.accepted h, n.callOf m.source ≠ some i
  · rw [receipts, List.filter_eq_nil_iff.mpr fun m hm => by simpa using hnone m hm]
    simp
  push Not at hnone
  obtain ⟨m, hm, hof⟩ := hnone
  -- One receipt tells on which side of the relay the connection is, and so where all come from.
  cases hsource : m.source with
  | task j =>
    rw [hsource, callOf, Option.some.injEq] at hof
    obtain ⟨call, hcall, hhome, _⟩ := hinv.mark_of_task hm (hof ▸ hsource)
    rw [hinv.receipts_of_home hcall hhome]
    exact hinv.length_framesOf_task hcall hhome
  | message position =>
    rw [hsource, callOf] at hof
    obtain ⟨call, hcall, hforeign, _⟩ := hinv.mark_of_message hm hsource
    rw [hinv.receipts_of_relayed (hcall.call?_eq hof) hforeign hof]
    exact hinv.length_framesOf_message position h

/-! ## Runs -/

theorem During.keeps {P Q : Network → Prop} (hrun : During u P n n') (hinv : Inv u n)
    (hstart : Q n) (hkeeps : ∀ m m', Inv u m → P m → Step u m m' → P m' → Q m → Q m') :
    Inv u n' ∧ P n' ∧ Q n' := by
  induction hrun with
  | refl hn => exact ⟨hinv, hn, hstart⟩
  | step hrun hstep hn ih =>
    obtain ⟨hinv, hm, hq⟩ := ih
    exact ⟨hinv.step hstep, hn, hkeeps _ _ hinv hm hstep hn hq⟩

/-- A connection that is in place from before the call until the delivery has its event. -/
theorem Inv.receipts_of_delivered (hinv : Inv u n) (hbefore : n.tasks.length ≤ i)
    (hrun : During u (fun m => Present u m.cluster call.target h) n n')
    (hcall : n'.call? i = some call) (hhome : call.server = u.home h)
    (hdelivered : n'.Delivered i) : n'.receipts i h = [call.event.frame] := by
  obtain ⟨hinv', _, howed⟩ := hrun.keeps hinv (owedDirectly_of_none hbefore)
    fun m m' hinv hpresent hstep hpresent' howed => howed.step hinv hstep hpresent hpresent'
  rw [hinv'.receipts_of_home hcall hhome]
  obtain ⟨t, ht, hend⟩ := hdelivered
  rw [call?, ht, Option.bind_some] at hcall
  cases hactivity : t.activity with
  | publication s p =>
    rw [hactivity] at hcall
    cases hcall
    have howes := howed t p ht (by rw [hactivity, show s = u.home h from hhome]) rfl
    have hover : publicationStage t p = .ended := by
      rcases hend with hend | ⟨_, _, _, hrelaying⟩
      · cases p with
        | publishing => rw [publicationStage, if_pos hend]
        | relaying => rfl
      · rw [hactivity, Activity.publication.injEq] at hrelaying
        rw [hrelaying.2, publicationStage]
    rw [hover] at howes
    exact howes
  | _ => simp [hactivity, callIn] at hcall

/-- A connection of a server that hears the message and that is in place from before the message
is relayed until the server has handled it has the event. -/
theorem Inv.receipts_of_handled (hinv : Inv u n) (hbefore : n.relayed.length ≤ position)
    (hopen : (n.reader? (u.home h)).isSome = true)
    (hrun : During u (fun m => Present u m.cluster call.target h ∧ ¬ m.Lags (u.home h) position)
      n n')
    (hposition : n'.relayed[position]? = some i) (hcall : n'.call? i = some call)
    (hforeign : call.server ≠ u.home h) (hhandled : n'.Handled (u.home h) position) :
    n'.receipts i h = [call.event.carried.frame] := by
  have hstart : OwedByRelay u position h call.target n := by
    obtain ⟨reader, hreader⟩ := Option.isSome_iff_exists.mp hopen
    refine .coming reader hreader (Nat.le_trans ?_ (hinv.ring.sent ▸ hbefore))
    obtain ⟨t, s, ht, hactivity | ⟨hd, hactivity⟩⟩ := reader?_eq_some.mp hreader
    · obtain ⟨_, _, _, _, hfeed, hok⟩ := taskOk_subscriber hinv ht hactivity
      cases hfeed
      exact hok.position_le
    · obtain ⟨_, _, _, _, _, hfeed, hok, _⟩ := taskOk_subscriber hinv ht hactivity
      cases hfeed
      exact hok.position_le
  obtain ⟨hinv', _, howed⟩ := hrun.keeps hinv hstart
    fun m m' hinv hm hstep hm' howed => howed.step hinv hstep hm.2 hm.1 hm'.1
  obtain ⟨⟨reader, hreader, hpast⟩, hidle⟩ := hhandled
  rw [hinv'.receipts_of_relayed hcall hforeign hposition]
  cases howed with
  | coming reader' hreader' hle =>
    rw [hreader, Option.some.injEq] at hreader'
    rw [← hreader'] at hle
    exact absurd hpast (Nat.not_lt.mpr hle)
  | handling t reader' hd ht hactivity hposition' howes =>
    exact absurd (source_of_handling ht hposition' hactivity) hidle
  | settled hsettled =>
    obtain ⟨call', hcall', hframes⟩ := hsettled
    have hsame := hcall.symm.trans (hcall'.call?_eq hposition)
    rw [Option.some.injEq] at hsame
    subst hsame
    exact hframes hforeign rfl

/-! ## All together -/

/-- No connection has the event of a call twice. One that stays in place on the server of the call
has it when that server has delivered it, and one on another server that hears the message when that
server has handled it. What comes by the relay comes in the order of the relay. -/
theorem events_reach_once (hn : Reachable u n) :
    (∀ i h, (n.receipts i h).length ≤ 1) ∧
      (∀ i h call n', n.tasks.length ≤ i →
        During u (fun m => Present u m.cluster call.target h) n n' →
        n'.call? i = some call → call.server = u.home h → n'.Delivered i →
        n'.receipts i h = [call.event.frame]) ∧
      (∀ i h position call n', n.relayed.length ≤ position →
        (n.reader? (u.home h)).isSome = true →
        During u (fun m => Present u m.cluster call.target h ∧
          ¬ m.Lags (u.home h) position) n n' →
        n'.relayed[position]? = some i → n'.call? i = some call → call.server ≠ u.home h →
        n'.Handled (u.home h) position → n'.receipts i h = [call.event.carried.frame]) ∧
      (∀ i call, n.call? i = some call → call.event.payload.Exact →
        call.event.carried = call.event) ∧
      ∀ h, (n.positions h).Pairwise (· < ·) ∧
        ∀ m ∈ n.accepted h, ∀ position, m.source = .message position →
          ∃ call, n.IsCallAt position call ∧ call.server ≠ u.home h ∧
            m.frame = call.event.carried.frame := by
  have hinv := hn.inv
  refine ⟨hinv.length_receipts, ?_, ?_, ?_, ?_⟩
  · intro i h call n' hbefore hrun hcall hhome hdelivered
    exact hinv.receipts_of_delivered hbefore hrun hcall hhome hdelivered
  · intro i h position call n' hbefore hopen hrun hposition hcall hforeign hhandled
    exact hinv.receipts_of_handled hbefore hopen hrun hposition hcall hforeign hhandled
  · intro i call hcall hexact
    obtain ⟨_, hvalid, hdepth⟩ := hinv.call_valid hcall
    exact Event.carried_eq hvalid hdepth hexact
  · intro h
    exact ⟨hinv.ordered h, fun m hm position hsource => hinv.mark_of_message hm hsource⟩

/-! Two servers with one connection each; the first one publishes an event to all. -/

def stepTasks (n : Network) (tasks : List Nat) : Network :=
  tasks.foldl (fun n i => n.stepTask true i) n

theorem Reachable.stepTasks (hn : Reachable u n) (tasks : List Nat) :
    Reachable u (n.stepTasks tasks) := by
  induction tasks generalizing n with
  | nil => exact hn
  | cons i tasks ih => exact ih (hn.step (.task n true i))

theorem During.head {P : Network → Prop} {n'' : Network} (hn : P n) (hstep : Step u n n')
    (hrun : During u P n' n'') : During u P n n'' := by
  induction hrun with
  | refl hn' => exact .step (.refl hn) hstep hn'
  | step _ hlast hn'' ih => exact ih.step hlast hn''

theorem during_stepTasks {P : Network → Prop} (tasks : List Nat)
    (hP : ∀ k < tasks.length + 1, P (n.stepTasks (tasks.take k))) :
    During u P n (n.stepTasks tasks) := by
  induction tasks generalizing n with
  | nil => exact .refl (hP 0 (by simp))
  | cons i tasks ih =>
    refine During.head (hP 0 (by simp)) (.task n true i) (ih fun k hk => ?_)
    exact hP (k + 1) (Nat.succ_lt_succ hk)

def pair : Setup where
  ids := [⟨"a"⟩, ⟨"b"⟩]
  nodup := by decide
  channels := {}
  home := id

def listener (name : String) : Connection where
  id := ⟨name⟩
  client := name
  writer := .recorder {}

def opened : Network :=
  let n := start pair 4 0 .epoch
  let n := n.withCluster { n.cluster with connections := n.cluster.connections ++ [listener "x"] }
  n.withCluster { n.cluster with connections := n.cluster.connections ++ [listener "y"] }

/-- Both connections are registered, and both servers listen. -/
def joined : Network :=
  ((opened.spawn (.add 0 0 .fresh) none).spawn (.add 1 1 .fresh) none).stepTasks [2, 3, 0, 1]

def greeting : Event := { name := "greeting", payload := .null }

def greeted : Network := joined.spawn (.publication 0 (.ofEvent none greeting)) none

theorem reachable_joined : Reachable pair joined := by
  have hstart : Reachable pair (start pair 4 0 .epoch) :=
    .start 4 0 .epoch ⟨by decide, by decide⟩
  have hopened := (hstart.step (.connect _ (listener "x") nofun)).step
    (.connect _ (listener "y") nofun)
  exact ((hopened.step (.register _ 0 none)).step (.register _ 1 none)).stepTasks [2, 3, 0, 1]

/-- The publication comes to its end, and then the other server handles the message. -/
def turns : List Nat := [4, 4, 4, 4, 4, 1, 1, 1, 1, 1, 1]

def shared : Network := greeted.stepTasks turns

theorem during_shared {P : Network → Prop} (hjoined : P joined)
    (hP : ∀ k < 12, P (greeted.stepTasks (turns.take k))) : During pair P joined shared := by
  have hpublish : Step pair joined greeted :=
    .publish joined 0 none greeting (by decide) trivial (by decide)
  exact During.head hjoined hpublish (during_stepTasks turns hP)

theorem events_reach_once_pair : Reachable pair joined ∧
    During pair (fun _ => True) joined shared ∧
    shared.receipts 4 0 = ["event: greeting\ndata: null\n\n"] ∧
    shared.receipts 4 1 = ["event: greeting\ndata: null\n\n"] := by
  obtain ⟨_, hdirect, hrelayed, _, _⟩ := events_reach_once reachable_joined
  have hjoined : joined.tasks.length = 4 ∧ joined.relayed.length = 0 ∧
      (joined.reader? 1).isSome = true ∧ Present pair joined.cluster none 0 ∧
      Present pair joined.cluster none 1 ∧ ¬ joined.Lags 1 0 := by decide +kernel
  have hturns : ∀ k < 12, Present pair (greeted.stepTasks (turns.take k)).cluster none 0 ∧
      Present pair (greeted.stepTasks (turns.take k)).cluster none 1 ∧
      ¬ (greeted.stepTasks (turns.take k)).Lags 1 0 := by decide +kernel
  have hshared : shared.relayed[0]? = some 4 ∧
      shared.reader? 1 = some ⟨pair.channels.heardBy ⟨"b"⟩, 1⟩ ∧
      shared.source 1 ≠ .message 0 := by decide +kernel
  have hcall : shared.call? 4 = some ⟨0, none, greeting⟩ := by rfl
  have hframe : greeting.frame = "event: greeting\ndata: null\n\n" ∧
      greeting.carried.frame = "event: greeting\ndata: null\n\n" := by decide +kernel
  obtain ⟨htasks, hnone, hopen, hfirst, hsecond⟩ := hjoined
  obtain ⟨hposition, hreader, hidle⟩ := hshared
  refine ⟨reachable_joined, during_shared trivial fun _ _ => trivial, ?_, ?_⟩
  · rw [← hframe.1]
    refine hdirect 4 0 ⟨0, none, greeting⟩ shared (Nat.le_of_eq htasks) ?_ hcall rfl ?_
    · exact during_shared hfirst fun k hk => (hturns k hk).1
    · exact ⟨_, rfl, Or.inl rfl⟩
  · rw [← hframe.2]
    refine hrelayed 4 1 0 ⟨0, none, greeting⟩ shared (Nat.le_of_eq hnone) hopen ?_
      hposition hcall
      (by decide) ⟨⟨_, hreader, Nat.one_pos⟩, hidle⟩
    exact during_shared hsecond fun k hk => (hturns k hk).2

end EventHub.Cluster.Network
