import EventHub.Proofs.Web.Visits
/-!
# The first frame of a body

The hint when to reconnect waits in the queue of a stream before the stream is open. When the body
is first asked for a frame, the hint is one of the things that can happen to it. If the server has
shut down by then, or the outbox has been disposed, the end is another, and nothing says which of
them it will be: such a body may end without a frame.
-/

namespace EventHub.Web

open Cluster
open Connection (Traffic)

namespace EventStream

variable {c : Cluster} {e : EventStream} {x : Connection} {o : Outbox} {shutdown : Bool}

def ready (c : Cluster) (shutdown : Bool) (e : EventStream) : List Branch :=
  [Branch.shutdown, .terminated, .frame].filter (e.isReady c shutdown)

theorem mem_ready {b : Branch} : b ∈ e.ready c shutdown ↔ e.isReady c shutdown b = true := by
  cases b <;> simp [ready]

theorem frame_mem_ready (hx : c.connection? e.handle = some x) (ho : x.writer = .outbox o)
    {f : String} {rest : List String} (hqueue : o.queue = f :: rest) :
    .frame ∈ e.ready c shutdown := by
  rw [mem_ready, isReady, outbox?_eq hx ho, Option.any_some, Outbox.receive, hqueue]
  rfl

theorem poll_eq_take (hopen : e.gone = false) {choice : List Branch → Option Branch} {b : Branch}
    (hb : choice (e.ready c shutdown) = some b) : e.poll choice shutdown c = e.take c b := by
  rw [ready] at hb
  rw [poll, if_neg (by simp [hopen]), hb]

theorem take_frame (hx : c.connection? e.handle = some x) (ho : x.writer = .outbox o)
    {f : String} {rest : List String} (hqueue : o.queue = f :: rest) :
    (e.take c .frame).2.2.1 = .frame f := by
  rw [take, outbox?_eq hx ho, Option.map_some, Outbox.receive, hqueue]

end EventStream

namespace Visit

open Server (place streamOf Picks)

variable {h n capacity : Nat} {id : ConnectionId} {v v' : Visit} {x : Connection}

def read (v : Visit) (n : Nat) (choice : List EventStream.Branch → Option EventStream.Branch) :
    Visit :=
  { v with
    server := (v.server.readStream choice n).1
    answers := v.answers ++ [(v.server.readStream choice n).2]
    started := v.started ++ begun v.server (v.server.readStream choice n).1 }

/-- All that can happen, but that a body that is asked for a frame takes a branch that is ready
whenever one is. -/
inductive FairStep (h : Nat) : Visit → Visit → Prop where
  | reads (v : Visit) {n : Nat} (hn : v.number = some n)
      {choice : List EventStream.Branch → Option EventStream.Branch} (hchoice : Picks choice) :
      FairStep h v (v.read n choice)
  | other {v v' : Visit} (hstep : Step h v v') (hanswers : v'.answers = v.answers) :
      FairStep h v v'

def FairRun (h : Nat) : Visit → Visit → Prop := Relation.ReflTransGen (FairStep h)

theorem FairStep.step (hstep : FairStep h v v') : Step h v v' := by
  cases hstep with
  | reads hn _ => exact .reads v hn _
  | other hstep _ => exact hstep

theorem FairRun.run (hrun : FairRun h v v') : Run h v v' := by
  induction hrun with
  | refl => exact .refl
  | tail _ hstep ih => exact ih.tail hstep.step

/-! ## Answers stay -/

theorem Step.answers_prefix (hstep : Step h v v') : v.answers <+: v'.answers := by
  cases hstep with
  | reads => exact List.prefix_append _ _
  | writes | opens | drops | shutDown | outside => exact List.prefix_rfl

theorem Run.answers_prefix (hrun : Run h v v') : v.answers <+: v'.answers := by
  induction hrun with
  | refl => exact List.prefix_rfl
  | tail _ hstep ih => exact ih.trans hstep.answers_prefix

theorem Run.yielded_prefix (hrun : Run h v v') : v.yielded <+: v'.yielded := by
  obtain ⟨more, hmore⟩ := hrun.answers_prefix
  rw [yielded, yielded, ← hmore, List.filterMap_append]
  exact List.prefix_append _ _

/-! ## The first time -/

/-- Before the body has been asked for a frame it goes on, and all accepted frames wait. -/
theorem Inv.waits (hinv : v.Inv h id capacity x) (hunread : v.answers = [])
    (hheld : v.dropped = false) : v.GoesOn h x ∧ x.outbox.queue = v.accepted := by
  have hgoes : v.GoesOn h x := by
    refine hinv.stands.resolve_right fun hleft => ?_
    rcases hleft.finished with hended | hdropped
    · rw [hunread] at hended
      cases hended
    · rw [hheld] at hdropped
      cases hdropped
  have hreceiver := hgoes.receiver
  rw [hinv.outbox] at hreceiver
  have hdelivered : v.yielded ++ x.outbox.queue = v.accepted := hinv.orderly.delivered hreceiver
  rw [yielded, hunread] at hdelivered
  exact ⟨hgoes, hdelivered⟩

theorem Inv.answer_first (hinv : v.Inv h id capacity x) (hunread : v.answers = [])
    (hheld : v.dropped = false) (hn : v.number = some n) {hint : String}
    (hhint : [hint] <+: v.accepted)
    {choice : List EventStream.Branch → Option EventStream.Branch} {b : EventStream.Branch}
    (hb : choice ((streamOf h).ready v.server.cluster v.server.shutdown) = some b) :
    (v.read n choice).answers = [if b = .frame then .frame hint else .ended] := by
  obtain ⟨hgoes, hwaits⟩ := hinv.waits hunread hheld
  obtain ⟨rest, hrest⟩ := hhint
  rw [← hwaits] at hrest
  have hconnection : v.server.cluster.connection? (streamOf h).handle = some x := hinv.connection
  have hanswer : (v.server.readStream choice n).2 =
      ((streamOf h).take v.server.cluster b).2.2.1 := by
    rw [Server.readStream, hgoes.stream n hn, ← EventStream.poll_eq_take rfl hb]
  rw [read, hanswer, hunread]
  cases b with
  | shutdown | terminated => rfl
  | frame =>
    rw [EventStream.take_frame hconnection hinv.outbox hrest.symm]
    rfl

/-- The server has shut down, or the outbox has been disposed. -/
def Interrupted (h : Nat) (v : Visit) : Prop :=
  v.server.shutdown = true ∨ (streamOf h).Terminated v.server.cluster

/-- Exactly an interruption makes a branch ready with which the body ends. -/
theorem interrupted_iff : v.Interrupted h ↔
    ∃ b ∈ (streamOf h).ready v.server.cluster v.server.shutdown, b ≠ .frame := by
  constructor
  · rintro (hshutdown | hterminated)
    · exact ⟨.shutdown, EventStream.mem_ready.mpr hshutdown, by decide⟩
    · exact ⟨.terminated,
        EventStream.mem_ready.mpr (EventStream.isReady_terminated.mpr hterminated), by decide⟩
  · rintro ⟨b, hb, hframe⟩
    rw [EventStream.mem_ready] at hb
    cases b with
    | shutdown => exact .inl hb
    | terminated => exact .inr (EventStream.isReady_terminated.mp hb)
    | frame => exact absurd rfl hframe

variable {s : Server} {client : ClientId} {lastEventId : Option String}

/-- A body starts with the hint when to reconnect, whichever branches are taken and whatever happens
later, exactly if neither shutdown nor disposal has come to pass by the time when it is first asked
for a frame. If one of them has, it may end without a frame. -/
theorem begins_with_hint_iff
    (hrun : FairRun s.cluster.connections.length (ofClient s id client lastEventId) v)
    (hn : v.number = some n) (hunread : v.answers = []) (hheld : v.dropped = false) :
    (∀ choice, Picks choice →
      ∀ v', FairRun s.cluster.connections.length (v.read n choice) v' →
        .ended ∈ v'.answers →
        [Event.retry s.settings.retryInterval] <+: v'.yielded) ↔
      ¬ v.Interrupted s.cluster.connections.length := by
  have hbegins := inv_ofClient s id client lastEventId
  obtain ⟨x, hinv⟩ := hrun.run.inv hbegins
  have hhint : [Event.retry s.settings.retryInterval] <+: v.accepted :=
    hrun.run.accepted hbegins
  have hanswer {choice : List EventStream.Branch → Option EventStream.Branch}
      {b : EventStream.Branch} (hb : choice ((streamOf _).ready _ _) = some b) :=
    hinv.answer_first hunread hheld hn hhint hb
  constructor
  · intro hbegin hinterrupted
    obtain ⟨b, hb, hframe⟩ := interrupted_iff.mp hinterrupted
    -- Takes the branch whenever it is ready.
    let choice (branches : List EventStream.Branch) : Option EventStream.Branch :=
      if b ∈ branches then some b else branches.head?
    have hpicks : Picks choice := by
      intro branches hne
      by_cases hmem : b ∈ branches
      · exact ⟨b, hmem, if_pos hmem⟩
      · exact ⟨branches.head hne, List.head_mem hne,
          (if_neg hmem).trans (List.head?_eq_some_head hne)⟩
    have hended : (v.read n choice).answers = [.ended] := by
      rw [hanswer (if_pos hb), if_neg hframe]
    have hnothing : (v.read n choice).yielded = [] := by
      rw [yielded, hended]
      rfl
    have hprefix := hbegin choice hpicks _ .refl (by simp [hended])
    rw [hnothing] at hprefix
    simp at hprefix
  · intro hquiet choice hpicks v' hrun' _
    obtain ⟨hgoes, hwaits⟩ := hinv.waits hunread hheld
    obtain ⟨rest, hrest⟩ := hhint
    rw [← hwaits] at hrest
    have hframe : .frame ∈ (streamOf _).ready v.server.cluster v.server.shutdown :=
      EventStream.frame_mem_ready hinv.connection hinv.outbox hrest.symm
    obtain ⟨b, hb, hpicked⟩ := hpicks _ (List.ne_nil_of_mem hframe)
    have hb' : b = .frame := by
      by_contra hne
      exact hquiet (interrupted_iff.mpr ⟨b, hb, hne⟩)
    have hfirst := hanswer hpicked
    rw [if_pos hb'] at hfirst
    have hyielded : (v.read n choice).yielded = [Event.retry s.settings.retryInterval] := by
      rw [yielded, hfirst]
      rfl
    rw [← hyielded]
    exact hrun'.run.yielded_prefix

def opened : Visit :=
  let v := ofClient Server.lone ⟨"a"⟩ "x" none
  { v with server := { v.server with streams := [streamOf 0] }, number := some 0 }

theorem run_opened : FairRun 0 (ofClient Server.lone ⟨"a"⟩ "x" none) opened :=
  .single (.other (.opens _ rfl) rfl)

theorem picks_head : Picks List.head? :=
  fun branches hne => ⟨branches.head hne, List.head_mem hne, List.head?_eq_some_head hne⟩

/-- Without an interruption the hint comes first, and a shutdown right behind it ends the body. -/
theorem begins_with_hint_iff_opened :
    ∃ v, FairRun 0 (ofClient Server.lone ⟨"a"⟩ "x" none) v ∧
      v.answers = [.frame (Event.retry (.ofSeconds 3)), .ended] ∧
      [Event.retry (.ofSeconds 3)] <+: v.yielded := by
  have hquiet : ¬ opened.Interrupted 0 := by
    rintro (hshutdown | hterminated)
    · cases hshutdown
    · have hready : (streamOf 0).isReady opened.server.cluster false .terminated = true :=
        EventStream.isReady_terminated.mpr hterminated
      exact absurd hready (by decide +kernel)
  have hbegins :=
    (begins_with_hint_iff (s := Server.lone) (n := 0) run_opened rfl rfl rfl).mpr hquiet
  have hshut : FairRun 0 (opened.read 0 List.head?) _ := .single (.other (.shutDown _) rfl)
  have hended := hshut.tail (.reads _ (n := 0) rfl picks_head)
  refine ⟨_, (run_opened.tail (.reads _ rfl picks_head)).trans hended, rfl, ?_⟩
  exact hbegins _ picks_head _ hended (List.mem_append_right _ (List.mem_singleton.mpr rfl))

/-- A server shuts down, or a connection is closed, before the body is first asked for a frame, and
the body ends with nothing. -/
theorem ends_without_hint :
    ¬ (∀ v, FairRun 0 (ofClient Server.lone ⟨"a"⟩ "x" none) v →
      v.server.shutdown = true →
      .ended ∈ v.answers → [Event.retry Server.lone.settings.retryInterval] <+: v.yielded) ∧
    ¬ (∀ v, FairRun 0 (ofClient Server.lone ⟨"a"⟩ "x" none) v →
      v.server.shutdown = false →
      .ended ∈ v.answers → [Event.retry Server.lone.settings.retryInterval] <+: v.yielded) := by
  constructor
  · intro hclaim
    have hshut := run_opened.tail (.other (.shutDown _) rfl)
    have hended := hshut.tail (.reads _ (n := 0) rfl picks_head)
    have hprefix := hclaim _ hended rfl (List.mem_singleton.mpr rfl)
    exact absurd hprefix.length_le (by decide +kernel)
  · intro hclaim
    have hclosed := run_opened.tail (.other (.writes _ rfl (.dispose _ true)) rfl)
    have hended := hclosed.tail (.reads _ (n := 0) rfl picks_head)
    have hprefix := hclaim _ hended rfl (List.mem_singleton.mpr rfl)
    exact absurd hprefix.length_le (by decide +kernel)

end Visit

end EventHub.Web
