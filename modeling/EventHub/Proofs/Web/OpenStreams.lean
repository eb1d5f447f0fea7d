import EventHub.Proofs.Web.ServerRuns
/-!
# Open streams and registered connections

The streams that a server has open and the connections in its registry are two views of the same
clients, which publications, sweeps and the streams themselves change on their own. In every state
of a server, a registered connection has an open stream or its removal is about to begin, and an
open stream whose connection is not registered has been told to end.
-/

namespace EventHub.Web

open Cluster

/-! ## Streams that end -/

namespace EventStream

variable {c : Cluster} {b : EventStream}

theorem fades_leaving (x : Connection) : x.Fades (onOutbox Outbox.dropReceiver x.close) := by
  refine (Connection.fades_close x).trans ?_
  unfold onOutbox
  split
  · next o ho =>
    refine Connection.fades_writer ?_
    rw [ho]
    exact Outbox.fades_dropReceiver o
  · exact Connection.Fades.refl _

/-- What a stream has done to its connection: nothing that counts, or it has gone away and begins
the removal of its connection, which is dead. -/
structure Turned (c : Cluster) (b : EventStream) (c' : Cluster) (b' : EventStream)
    (tasks : List Task) : Prop where
  fades : Fades c c'
  servers : c'.servers = c.servers
  server : b'.server = b.server
  handle : b'.handle = b.handle
  left : (b'.gone = b.gone ∧ tasks = []) ∨ b.gone = false ∧ b'.gone = true ∧
    ∃ x, c.connection? b.handle = some x ∧ Dead c' x.id ∧
      tasks = [{ activity := .removal b.server (.fresh x.id) }]

theorem turned_refl (c : Cluster) (b : EventStream) : Turned c b c b [] :=
  ⟨Fades.refl c, rfl, rfl, rfl, Or.inl ⟨rfl, rfl⟩⟩

theorem leave_turned (htaken : Taken c b.handle) :
    Turned c b (b.leave c).1 (b.leave c).2.1 (b.leave c).2.2 := by
  obtain ⟨x, hx⟩ := htaken
  cases hgone : b.gone with
  | true =>
    simp only [leave, hgone, if_true]
    exact turned_refl c b
  | false =>
    have hfades := fades_leaving x
    have hdead : (onOutbox Outbox.dropReceiver x.close).live = false := by
      unfold onOutbox
      split <;> rfl
    have hown := connection?_setConnection hx (onOutbox Outbox.dropReceiver x.close) b.handle
    simp only [leave, hgone, hx, Bool.false_eq_true, if_false]
    exact ⟨fades_setConnection hx hfades, rfl, rfl, rfl, Or.inr ⟨hgone, rfl, x, hx,
      ⟨b.handle, _, hown.trans (if_pos rfl), hfades.id_eq, hdead⟩, rfl⟩⟩

theorem leave_gone (htaken : Taken c b.handle) : (b.leave c).2.1.gone = true := by
  obtain ⟨x, hx⟩ := htaken
  cases hgone : b.gone with
  | true => simp only [leave, hgone, if_true]
  | false => simp only [leave, hgone, hx, Bool.false_eq_true, if_false]

theorem outbox?_eq_some {o : Outbox} (ho : b.outbox? c = some o) :
    ∃ x, c.connection? b.handle = some x ∧ x.writer = .outbox o := by
  obtain ⟨x, hx, ho⟩ := Option.bind_eq_some_iff.mp ho
  refine ⟨x, hx, ?_⟩
  split at ho <;> cases ho
  assumption

theorem outbox?_modifyConnection {o : Outbox} (ho : b.outbox? c = some o) (o' : Outbox) :
    b.outbox? (c.modifyConnection b.handle (onOutbox fun _ => o')) = some o' := by
  obtain ⟨x, hx, hwriter⟩ := outbox?_eq_some ho
  rw [modifyConnection_of_some hx]
  refine outbox?_eq ((connection?_setConnection hx _ b.handle).trans (if_pos rfl)) ?_
  rw [onOutbox, hwriter]

theorem fades_takeFrame {o : Outbox} (ho : b.outbox? c = some o) :
    Fades c (c.modifyConnection b.handle (onOutbox fun _ => o.receive.1)) := by
  obtain ⟨x, hx, hwriter⟩ := outbox?_eq_some ho
  rw [modifyConnection_of_some hx]
  refine fades_setConnection hx ?_
  rw [onOutbox, hwriter]
  refine Connection.fades_writer ?_
  rw [hwriter]
  exact Outbox.fades_receive o

theorem take_turned (htaken : Taken c b.handle) (branch : Branch) :
    Turned c b (b.take c branch).1 (b.take c branch).2.1 (b.take c branch).2.2.2 := by
  have hleave := leave_turned htaken
  cases branch with
  | shutdown => exact hleave
  | terminated => exact hleave
  | frame =>
    simp only [take]
    cases ho : b.outbox? c with
    | none => exact hleave
    | some o =>
      have hfades := fades_takeFrame ho
      rw [Option.map_some]
      generalize o.receive = p at hfades
      obtain ⟨o', text | _ | _⟩ := p
      · exact ⟨hfades, rfl, rfl, rfl, Or.inl ⟨rfl, rfl⟩⟩
      · exact turned_refl c b
      · exact hleave

theorem poll_turned (htaken : Taken c b.handle) (choice : List Branch → Option Branch)
    (shutdown : Bool) : Turned c b (b.poll choice shutdown c).1 (b.poll choice shutdown c).2.1
      (b.poll choice shutdown c).2.2.2 := by
  unfold poll
  split
  · exact turned_refl c b
  · split
    · exact turned_refl c b
    · exact take_turned htaken _

/-- A stream that is told to end and asked for its next frame ends or gives one that was to come,
whichever of the branches that are ready is picked. -/
theorem poll_terminated {choice : List Branch → Option Branch}
    (hchoice : ∀ branches, branches ≠ [] →
      ∃ branch ∈ branches, choice branches = some branch)
    (hopen : b.gone = false) (hterminated : b.Terminated c) (shutdown : Bool) :
    ((b.poll choice shutdown c).2.2.1 = .ended ∧ (b.poll choice shutdown c).2.1.gone = true) ∨
      ∃ text, (b.poll choice shutdown c).2.2.1 = .frame text ∧
        (b.poll choice shutdown c).2.1 = b ∧
        b.backlog (b.poll choice shutdown c).1 < b.backlog c := by
  obtain ⟨x, o, hx, ho, hdisposed⟩ := id hterminated
  have hready : Branch.terminated ∈
      [Branch.shutdown, .terminated, .frame].filter (b.isReady c shutdown) :=
    List.mem_filter.mpr ⟨by simp, isReady_terminated.mpr hterminated⟩
  obtain ⟨branch, hbranch, hpicked⟩ := hchoice _ (List.ne_nil_of_mem hready)
  have hends : (b.leave c).2.1.gone = true := leave_gone ⟨x, hx⟩
  simp only [poll, hopen, Bool.false_eq_true, if_false, hpicked]
  cases branch with
  | shutdown => exact Or.inl ⟨rfl, hends⟩
  | terminated => exact Or.inl ⟨rfl, hends⟩
  | frame =>
    have hframe := (List.mem_filter.mp hbranch).2
    have houtbox := outbox?_eq hx ho
    simp only [isReady, houtbox, Option.any_some, ne_eq, decide_not, Bool.not_eq_true',
      decide_eq_false_iff_not] at hframe
    have hbacklog : ∀ text, o.receive.2 = .frame text → o.receive.1.backlog < o.backlog :=
      fun _ => Outbox.backlog_receive
    simp only [take, houtbox, Option.map_some]
    generalize o.receive = p at hframe hbacklog
    obtain ⟨o', text | _ | _⟩ := p
    · refine Or.inr ⟨text, rfl, rfl, ?_⟩
      rw [backlog, backlog, houtbox, outbox?_modifyConnection houtbox]
      exact hbacklog text rfl
    · exact absurd rfl hframe
    · exact Or.inl ⟨rfl, hends⟩

end EventStream

namespace Server

variable {s s' : Server}

/-! ## Steps of the streams -/

/-- A stream has turned to its connection, because it was asked for a frame or dropped. -/
theorem Inv.turned (hinv : Inv s) {number : Nat} {b b' : EventStream} {c : Cluster}
    {tasks : List Task} (hb : s.streams[number]? = some b)
    (hturned : EventStream.Turned s.cluster b c b' tasks) :
    Keeps s ({ s with streams := s.streams.set number b' }.withTasks c tasks) := by
  obtain ⟨hfades, hservers, hserver, hhandle, hleft⟩ := hturned
  have hregistry : c.registry place = s.registry := by
    rw [Cluster.registry, server?, hservers]
    rfl
  have hunregisters : Unregisters place s.cluster c :=
    ⟨by rw [server?, hservers, server?], Or.inl hregistry⟩
  have hbody := List.mem_of_getElem? hb
  have hlt := (List.getElem?_eq_some_iff.mp hb).1
  refine ⟨?_, hfades.toGrows, fun i x hx => ?_⟩
  · refine hinv.next hfades hunregisters (fun x hx => ?_) (fun m hm hheld => ?_)
      fun t ht hlive => ?_
    · rcases List.mem_or_eq_of_mem_set hx with hx | rfl
      · exact ⟨x, hx, rfl, rfl, fun h => h⟩
      · refine ⟨b, hbody, hserver, hhandle, fun hopen => ?_⟩
        rcases hleft with ⟨hgone, _⟩ | ⟨_, hgone, _⟩
        · rwa [← hgone]
        · rw [hgone] at hopen
          cases hopen
    · rcases hheld with ⟨x, hx, hopen, hmember⟩ | ⟨t, ht, hremoval⟩
      · obtain ⟨i, hi⟩ := List.mem_iff_getElem?.mp hx
        by_cases hnumber : number = i
        · subst hnumber
          rw [hb, Option.some.injEq] at hi
          subst hi
          rcases hleft with ⟨hgone, rfl⟩ | ⟨_, _, y, hy, _, rfl⟩
          · exact Or.inl ⟨b', List.mem_of_getElem? (List.getElem?_set_self hlt),
              hgone.trans hopen,
              hhandle.trans hmember⟩
          · -- The stream was the one of the member, so that the removal is the member's.
            have hmember' : m ∈ s.registry.members := hregistry ▸ hm
            have hlocated := hinv.located.member m hmember'
            rw [← hmember, member?, hy, Option.map_some, Option.some.injEq] at hlocated
            refine Or.inr ⟨_, List.mem_append_right _ (List.mem_singleton.mpr rfl), rfl, ?_⟩
            rw [(hinv.bodies b hbody).1, ← congrArg Member.id hlocated]
        · refine Or.inl ⟨x, List.mem_of_getElem? (i := i) ?_, hopen, hmember⟩
          exact (List.getElem?_set_ne hnumber).trans hi
      · exact Or.inr ⟨t, List.mem_append_left _ ht, hremoval⟩
    · rcases List.mem_append.mp ht with ht | ht
      · exact (hinv.tasks t ht hlive).grows hfades.toGrows
      · rcases hleft with ⟨_, rfl⟩ | ⟨_, _, x, hx, hdead, rfl⟩
        · cases ht
        · rw [List.mem_singleton.mp ht]
          refine ⟨(hinv.bodies b hbody).1, fun id hid => ?_⟩
          rw [List.mem_singleton.mp hid]
          exact hdead
  · by_cases hnumber : number = i
    · subst hnumber
      rw [hb, Option.some.injEq] at hx
      refine ⟨b', List.getElem?_set_self hlt, hx ▸ hhandle, fun hgone => ?_⟩
      rcases hleft with ⟨hsame, _⟩ | ⟨_, hgone', _⟩
      · rw [hsame, hx, hgone]
      · exact hgone'
    · exact ⟨x, (List.getElem?_set_ne hnumber).trans hx, rfl, fun hgone => hgone⟩

theorem Inv.readStream (hinv : Inv s)
    (choice : List EventStream.Branch → Option EventStream.Branch) (number : Nat) :
    Keeps s (s.readStream choice number).1 := by
  unfold Server.readStream
  cases hb : s.streams[number]? with
  | none => exact hinv.keeps_self
  | some b =>
    have htaken := (hinv.bodies b (List.mem_of_getElem? hb)).2
    exact hinv.turned hb (EventStream.poll_turned htaken choice s.shutdown)

theorem Inv.dropStream (hinv : Inv s) (number : Nat) : Keeps s (s.dropStream number) := by
  unfold Server.dropStream
  cases hb : s.streams[number]? with
  | none => exact hinv.keeps_self
  | some b =>
    have htaken := (hinv.bodies b (List.mem_of_getElem? hb)).2
    exact hinv.turned hb (EventStream.leave_turned htaken)

theorem cancelTask_activity (now : Nat) (t : Task) :
    (cancelTask now t).activity = t.activity := by
  rw [cancelTask]
  split <;> rfl

theorem cancelTask_outcome (now : Nat) (t : Task) : (cancelTask now t).outcome = t.outcome := by
  rw [cancelTask]
  split <;> rfl

theorem Inv.shutDown (hinv : Inv s) : Keeps s s.shutDown := by
  refine Inv.keeps ?_ (Fades.refl _).toGrows [] (List.append_nil _).symm
  -- A task is cancelled at most: neither what it does nor its outcome becomes another.
  refine hinv.next (Fades.refl _) (unregisters_refl _)
    (fun b hb => ⟨b, hb, rfl, rfl, fun h => h⟩)
    (fun m _ hheld => ?_) fun t ht hlive => ?_
  · rcases hheld with hopen | ⟨t, ht, hlive, hremoves⟩
    · exact Or.inl hopen
    · refine Or.inr ⟨_, List.mem_map_of_mem ht, ?_, ?_⟩
      · rw [cancelTask_outcome, hlive]
      · rw [cancelTask_activity, hremoves]
  · obtain ⟨t', ht', rfl⟩ := List.mem_map.mp ht
    rw [cancelTask_outcome] at hlive
    rw [cancelTask_activity]
    exact hinv.tasks t' ht' hlive

theorem Inv.outside (hinv : Inv s) {c : Cluster}
    (hconnections : c.connections = s.machine.cluster.connections)
    (hserver : c.server? place = s.machine.cluster.server? place) : Keeps s (s.withTasks c []) := by
  have hfades : Fades s.cluster c := Fades.of_connections hconnections
  have hunregisters : Unregisters place s.cluster c :=
    ⟨by rw [hserver], Or.inl (by rw [Cluster.registry, hserver]; rfl)⟩
  refine Inv.keeps ?_ hfades.toGrows [] (List.append_nil _).symm
  refine hinv.next hfades hunregisters (fun b hb => ⟨b, hb, rfl, rfl, fun h => h⟩)
    (fun m _ hheld => hheld.append rfl rfl) fun t ht hlive => ?_
  rw [show (s.withTasks c []).machine.tasks = s.machine.tasks from List.append_nil _] at ht
  exact (hinv.tasks t ht hlive).grows hfades.toGrows

theorem Inv.named (hinv : Inv s) : Keeps s s.freshName.1 := by
  refine Inv.keeps ?_ (Fades.refl _).toGrows [] (List.append_nil _).symm
  exact hinv.next (Fades.refl _) (unregisters_refl _)
    (fun b hb => ⟨b, hb, rfl, rfl, fun h => h⟩)
    (fun _ _ hheld => hheld) hinv.tasks

theorem Step.keeps (hstep : Step s s') (hinv : Inv s) : Keeps s s' := by
  cases hstep with
  | task stopFirst i => exact hinv.stepTask stopFirst i
  | connect id client lastEventId hid => exact hinv.connect hid client lastEventId
  | spawn t ht => exact hinv.spawn ht
  | forget tasks hmem hkept => exact hinv.forget hmem hkept
  | name => exact hinv.named
  | read choice number => exact hinv.readStream choice number
  | drop number => exact hinv.dropStream number
  | shutDown => exact hinv.shutDown
  | outside c hconnections hserver => exact hinv.outside hconnections hserver

theorem Starts.inv (hstarts : Starts s) : Inv s := by
  obtain ⟨⟨x, hx, hempty⟩, hconnections, htasks, hstreams⟩ := hstarts
  have hregistry : s.registry = {} := by rw [registry, Cluster.registry, hx]; exact hempty
  have hmembers : s.registry.members = [] := by rw [hregistry]; rfl
  have hnone : ∀ h x, s.cluster.connection? h ≠ some x := by
    intro h x
    rw [connection?, hconnections]
    simp
  constructor
  case server => rw [hx]; rfl
  case located =>
    constructor
    · rw [show s.cluster.registry place = {} from hregistry]
      exact Registry.agrees_empty
    · rw [show (s.cluster.registry place).members = [] from hmembers]
      simp
  case distinct => exact fun h _ x _ hx => absurd hx (hnone h x)
  case streams => exact fun h x hx => absurd hx (hnone h x)
  case bodies => simp [hstreams]
  case held => simp [hmembers]
  case opened => simp [hstreams]
  case tasks => simp [htasks]

theorem Run.inv (hrun : Run s s') (hinv : Inv s) : Inv s' := by
  induction hrun with
  | refl => exact hinv
  | tail _ hstep ih => exact (hstep.keeps ih).inv

/-! ## Streams that are asked for frames -/

def Picks (choice : List EventStream.Branch → Option EventStream.Branch) : Prop :=
  ∀ branches, branches ≠ [] → ∃ branch ∈ branches, choice branches = some branch

/-- A run in which a stream is asked for a frame as often as said, and whatever else may happen. -/
inductive Asks (number : Nat) : Nat → Server → Server → Prop where
  | start (s : Server) : Asks number 0 s s
  | step {n : Nat} {s s' s'' : Server} (hasks : Asks number n s s') (hstep : Step s' s'') :
      Asks number n s s''
  | ask {n : Nat} {s s' : Server} (hasks : Asks number n s s')
      {choice : List EventStream.Branch → Option EventStream.Branch} (hchoice : Picks choice) :
      Asks number (n + 1) s (s'.readStream choice number).1

/-- The stream is gone, or it is told to end and `n` frames fewer are to come than `limit`. -/
def Dwindles (s : Server) (number limit n : Nat) : Prop :=
  ∃ b, s.streams[number]? = some b ∧
    (b.gone = true ∨ b.Terminated s.cluster ∧ b.backlog s.cluster + n ≤ limit)

theorem Dwindles.keeps {number limit n : Nat} (hdwindles : Dwindles s number limit n)
    (hkeeps : Keeps s s') : Dwindles s' number limit n := by
  obtain ⟨b, hb, hstate⟩ := hdwindles
  obtain ⟨b', hb', hhandle, hgone⟩ := hkeeps.numbers number b hb
  refine ⟨b', hb', hstate.imp hgone fun ⟨hterminated, hle⟩ => ?_⟩
  obtain ⟨hterminated', hle'⟩ := hterminated.grows hkeeps.grows
  rw [EventStream.Terminated, EventStream.backlog, EventStream.outbox?, hhandle]
  exact ⟨hterminated', Nat.le_trans (Nat.add_le_add_right hle' n) hle⟩

/-- Asked for a frame, the stream gives one of those that were to come, or ends. -/
theorem Dwindles.ask (hinv : Inv s) {number limit n : Nat} (hdwindles : Dwindles s number limit n)
    {choice : List EventStream.Branch → Option EventStream.Branch} (hchoice : Picks choice) :
    Dwindles (s.readStream choice number).1 number limit (n + 1) := by
  obtain ⟨b, hb, hstate⟩ := hdwindles
  have hkeeps := hinv.readStream choice number
  obtain ⟨b', hb', _, hgone'⟩ := hkeeps.numbers number b hb
  cases hopen : b.gone with
  | true => exact ⟨b', hb', Or.inl (hgone' hopen)⟩
  | false =>
    obtain ⟨hterminated, hle⟩ := hstate.resolve_left (by simp [hopen])
    have hterminated' := (hterminated.grows hkeeps.grows).1
    have hpolled : (s.readStream choice number).1.streams[number]? =
        some (b.poll choice s.shutdown s.cluster).2.1 := by
      simp only [Server.readStream, hb]
      exact List.getElem?_set_self (List.getElem?_eq_some_iff.mp hb).1
    have hcluster : (s.readStream choice number).1.cluster =
        (b.poll choice s.shutdown s.cluster).1 := by
      simp only [Server.readStream, hb]
      rfl
    refine ⟨_, hpolled, ?_⟩
    rcases EventStream.poll_terminated hchoice hopen hterminated s.shutdown with
      ⟨_, hgone⟩ | ⟨text, _, hsame, hbacklog⟩
    · exact Or.inl hgone
    · rw [← hcluster] at hbacklog
      rw [hsame]
      exact Or.inr ⟨hterminated', by omega⟩

theorem Asks.dwindles {number limit n : Nat} (hasks : Asks number n s s') (hinv : Inv s)
    (hdwindles : Dwindles s number limit 0) : Inv s' ∧ Dwindles s' number limit n := by
  induction hasks with
  | start => exact ⟨hinv, hdwindles⟩
  | step _ hstep ih =>
    obtain ⟨hinv', hdwindles'⟩ := ih hinv hdwindles
    exact ⟨(hstep.keeps hinv').inv, hdwindles'.keeps (hstep.keeps hinv')⟩
  | ask _ hchoice ih =>
    obtain ⟨hinv', hdwindles'⟩ := ih hinv hdwindles
    exact ⟨(hinv'.readStream _ number).inv, hdwindles'.ask hinv' hchoice⟩

/-! ## The two views -/

/-- The stream goes on until it ends: it is told to end, and whatever else happens, it is gone once
it has been asked for more frames than are to come. -/
structure Ending (s : Server) (number : Nat) (b : EventStream) : Prop where
  terminated : b.isReady s.cluster s.shutdown .terminated = true
  ends : ∀ n s', Asks number n s s' → b.backlog s.cluster < n →
    ∃ b', s'.streams[number]? = some b' ∧ b'.gone = true

theorem Inv.ending (hinv : Inv s) {number : Nat} {b : EventStream}
    (hb : s.streams[number]? = some b) (hopen : b.gone = false)
    (hunregistered : ¬s.Registered b) : Ending s number b := by
  have hterminated :=
    (hinv.opened b (List.mem_of_getElem? hb) hopen).resolve_left hunregistered
  refine ⟨EventStream.isReady_terminated.mpr hterminated, fun n s' hasks hlt => ?_⟩
  have hdwindles : Dwindles s number (b.backlog s.cluster) 0 :=
    ⟨b, hb, Or.inr ⟨hterminated, Nat.le_refl _⟩⟩
  obtain ⟨_, b', hb', hgone | ⟨_, hle⟩⟩ := hasks.dwindles hinv hdwindles
  · exact ⟨b', hb', hgone⟩
  · omega

/-- In every state of a server a registered connection has an open stream or its removal is about to
begin, so that no connection is left once the streams are gone and their removals have begun; and an
open stream whose connection is not registered is about to end. -/
theorem streams_match_registry {s₀ : Server} (hstarts : Starts s₀) (hrun : Run s₀ s) :
    (∀ m ∈ s.registry.members, s.Held m) ∧
    ((∀ b ∈ s.streams, b.gone = true) →
      (∀ t ∈ s.machine.tasks, t.outcome = none →
        ∀ id, t.activity ≠ .removal place (.fresh id)) →
      s.registry.members = []) ∧
    ∀ number b, s.streams[number]? = some b → b.gone = false → ¬s.Registered b →
      Ending s number b := by
  have hinv := Run.inv hrun hstarts.inv
  refine ⟨hinv.held, fun hgone hremovals => ?_, fun number b hb hopen hunregistered =>
    hinv.ending hb hopen hunregistered⟩
  refine List.eq_nil_iff_forall_not_mem.mpr fun m hm => ?_
  rcases hinv.held m hm with ⟨b, hb, hopen, _⟩ | ⟨t, ht, hlive, hactivity⟩
  · rw [hgone b hb] at hopen
    cases hopen
  · exact hremovals t ht hlive m.id hactivity

def lone : Server where
  machine := ⟨{ stamp := .epoch, servers := [{ id := ⟨"s"⟩ }], ring := .ofCapacity 4 }, []⟩
  settings := { buffer := 1, writeTimeout := .ofMillis 5 }

/-- The hint when to reconnect waits for a client that has come. -/
def visited : Server :=
  let (s, t) := lone.connect ⟨"a"⟩ "x" none
  (s.begin t).stepTask true 0

def waiting : Server :=
  let ping : Cluster.Publication := .ofEvent none ⟨"ping", .null, none⟩
  (fun s => s.stepTask true 1)^[4] (visited.begin { activity := .publication place ping })

def evicted : Server :=
  (fun s => s.stepTask true 1)^[7] (waiting.withTasks { waiting.machine.cluster with now := 5 } [])

theorem run_stepTask (s : Server) (stopFirst : Bool) (i n : Nat) :
    Run s ((fun s => s.stepTask stopFirst i)^[n] s) := by
  induction n with
  | zero => exact .refl
  | succ n ih =>
    rw [Function.iterate_succ_apply']
    exact ih.tail (.task _ stopFirst i)

theorem run_evicted : Run lone evicted := by
  have hvisited : Run lone visited :=
    (Relation.ReflTransGen.single (.connect lone ⟨"a"⟩ "x" none (by simp [lone]))).tail
      (.task _ true 0)
  have hping : Ordinary (.publication place (.ofEvent none ⟨"ping", .null, none⟩)) :=
    .publication none _
  have hwaiting : Run lone waiting :=
    (hvisited.tail (.spawn _ { activity := _ } hping)).trans (run_stepTask _ true 1 4)
  have hlater : Run waiting (waiting.withTasks { waiting.machine.cluster with now := 5 } []) :=
    .single (.outside waiting _ rfl rfl)
  exact (hwaiting.trans hlater).trans (run_stepTask _ true 1 7)

/-- The client loses its place in the registry, and its stream ends. -/
theorem streams_match_registry_evicted : visited.registry.members = [⟨⟨"a"⟩, "x", 0⟩] ∧
    evicted.registry.members = [] ∧ Ending evicted 0 (streamOf 0) := by
  have hstarts : Starts lone := ⟨⟨_, rfl, rfl⟩, rfl, rfl, rfl⟩
  have hmembers : evicted.registry.members = [] := by decide +kernel
  refine ⟨by decide +kernel, hmembers, ?_⟩
  refine (streams_match_registry hstarts run_evicted).2.2 0 _ (by decide +kernel) rfl ?_
  rw [Registered, hmembers]
  simp

end Server

end EventHub.Web
