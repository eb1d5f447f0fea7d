import EventHub.Proofs.Cluster.Preservation
import EventHub.Proofs.Cluster.Registrations
import EventHub.Web.Server
/-!
# Runs of a server

A server with everything that can happen to it: clients that connect, the tasks that run on it and
the streams that it has open, in any order. `Inv` is what is true of it in every state; here it is
kept by the steps of the tasks and by the clients that come.
-/

namespace EventHub.Web

open Cluster

/-! ## Runs of a server -/

/-- What runs on a server besides the connections that come and go. -/
inductive Ordinary : Activity → Prop where
  | publication (target : Option ClientId) (e : Event) :
      Ordinary (.publication Server.place (.ofEvent target e))
  | handling (raw : String) : Ordinary (.handling Server.place (.fresh raw))
  | sweep : Ordinary (.sweep Server.place .fresh)
  | heartbeat (period : Nat) : Ordinary (.heartbeat Server.place (.starting period))
  | subscriber : Ordinary (.subscriber Server.place .first)
  | count : Ordinary (.count Server.place .fresh)
  | refreshing (period : Nat) : Ordinary (.refreshing Server.place (.starting period))
  | sleep (time : Nat) : Ordinary (.sleep time)

/-- The stream that an activity opens, once it has registered its connection. -/
def opening? : Activity → Option EventStream
  | .add _ h _ => some (Server.streamOf h)
  | _ => none

def opened? (before after : Task) : Option EventStream :=
  match before.outcome, after.outcome with
  | none, some (.result (.ok ())) => opening? before.activity
  | _, _ => none

namespace Server

/-- One step of a task. The answer to a client whose connection is registered begins at once. -/
def stepTask (s : Server) (stopFirst : Bool) (i : Nat) : Server :=
  match s.machine.tasks[i]? with
  | none => s
  | some t =>
    { s with
      machine := s.machine.stepTask stopFirst i
      streams := s.streams ++ (opened? t (t.step s.machine.cluster stopFirst).2.1).toList }

def begin (s : Server) (t : Task) : Server := s.withTasks s.machine.cluster [t]

/-- What can happen next. A client comes with a name of its own. Whatever has ended is forgotten,
and so is the registration of a client that gives up. The clock, the store and the other servers do
as they like. -/
inductive Step : Server → Server → Prop where
  | task (s : Server) (stopFirst : Bool) (i : Nat) : Step s (s.stepTask stopFirst i)
  | connect (s : Server) (id : ConnectionId) (client : ClientId) (lastEventId : Option String)
      (hid : ∀ x ∈ s.machine.cluster.connections, x.id ≠ id) :
      Step s ((s.connect id client lastEventId).1.begin (s.connect id client lastEventId).2)
  | spawn (s : Server) (t : Task) (ht : Ordinary t.activity) : Step s (s.begin t)
  | forget (s : Server) (tasks : List Task) (hmem : ∀ t ∈ tasks, t ∈ s.machine.tasks)
      (hkept : ∀ t ∈ s.machine.tasks, t.outcome = none →
        (∃ h w, t.activity = .add place h w) ∨ t ∈ tasks) :
      Step s { s with machine := { s.machine with tasks := tasks } }
  | name (s : Server) : Step s s.freshName.1
  | read (s : Server) (choice : List EventStream.Branch → Option EventStream.Branch)
      (number : Nat) : Step s (s.readStream choice number).1
  | drop (s : Server) (number : Nat) : Step s (s.dropStream number)
  | shutDown (s : Server) : Step s s.shutDown
  | outside (s : Server) (c : Cluster)
      (hconnections : c.connections = s.machine.cluster.connections)
      (hserver : c.server? place = s.machine.cluster.server? place) : Step s (s.withTasks c [])

def Run : Server → Server → Prop := Relation.ReflTransGen Step

/-- A server that nobody has connected to. -/
structure Starts (s : Server) : Prop where
  server : ∃ x, s.machine.cluster.server? place = some x ∧ x.registry = {}
  connections : s.machine.cluster.connections = []
  tasks : s.machine.tasks = []
  streams : s.streams = []

end Server

/-! ## Streams that are told to end -/

namespace EventStream

variable {c c' : Cluster} {b : EventStream}

def Terminated (c : Cluster) (b : EventStream) : Prop :=
  ∃ x o, c.connection? b.handle = some x ∧ x.writer = .outbox o ∧ o.disposed = true

/-- The frames that the stream may still get once it is told to end. -/
def backlog (c : Cluster) (b : EventStream) : Nat := ((b.outbox? c).map Outbox.backlog).getD 0

theorem outbox?_eq {x : Connection} {o : Outbox} (hx : c.connection? b.handle = some x)
    (ho : x.writer = .outbox o) : b.outbox? c = some o := by
  rw [outbox?, hx, Option.bind_some, ho]

theorem isReady_terminated {shutdown : Bool} :
    b.isReady c shutdown .terminated = true ↔ b.Terminated c := by
  constructor
  · intro hready
    simp only [isReady, outbox?] at hready
    cases hx : c.connection? b.handle with
    | none =>
      rw [hx] at hready
      cases hready
    | some x =>
      rw [hx, Option.bind_some] at hready
      cases ho : x.writer with
      | recorder r =>
        rw [ho] at hready
        cases hready
      | outbox o =>
        rw [ho] at hready
        exact ⟨x, o, hx, ho, hready⟩
  · rintro ⟨x, o, hx, ho, hdisposed⟩
    rw [isReady, outbox?_eq hx ho, Option.any_some, hdisposed]

/-- Once told to end, the stream stays so, and its backlog does not grow. -/
theorem Terminated.grows (hterminated : b.Terminated c) (hgrows : Grows c c') :
    b.Terminated c' ∧ b.backlog c' ≤ b.backlog c := by
  obtain ⟨x, o, hx, ho, hdisposed⟩ := hterminated
  obtain ⟨x', hx', hfaded⟩ := hgrows.each _ x hx
  have hwriter := hfaded.writer
  rw [ho] at hwriter
  cases ho' : x'.writer with
  | recorder r =>
    rw [ho'] at hwriter
    exact hwriter.elim
  | outbox o' =>
    rw [ho'] at hwriter
    obtain ⟨hdisposed', hle⟩ := hwriter hdisposed
    refine ⟨⟨x', o', hx', ho', hdisposed'⟩, ?_⟩
    simpa [backlog, outbox?_eq hx ho, outbox?_eq hx' ho'] using hle

theorem terminated_of_dead {x : Connection} (hx : c.connection? b.handle = some x)
    (hstreams : x.Streams) (hdead : x.live = false) : b.Terminated c := by
  obtain ⟨o, ho, hdisposed⟩ := hstreams
  exact ⟨x, o, hx, ho, hdisposed hdead⟩

end EventStream

namespace Server

variable {s s' : Server} {m : Member}

abbrev cluster (s : Server) : Cluster := s.machine.cluster

abbrev registry (s : Server) : Registry := s.cluster.registry place

/-- The member has an open stream, or its removal is about to begin. -/
def Held (s : Server) (m : Member) : Prop :=
  (∃ b ∈ s.streams, b.gone = false ∧ b.handle = m.handle) ∨
    ∃ t ∈ s.machine.tasks, t.outcome = none ∧ t.activity = .removal place (.fresh m.id)

def Registered (s : Server) (b : EventStream) : Prop :=
  ∃ m ∈ s.registry.members, m.handle = b.handle

structure Inv (s : Server) : Prop where
  server : (s.cluster.server? place).isSome = true
  located : Located place s.cluster
  distinct : ∀ h h' x x', s.cluster.connection? h = some x →
    s.cluster.connection? h' = some x' →
    x.id = x'.id → h = h'
  streams : ∀ h x, s.cluster.connection? h = some x → x.Streams
  bodies : ∀ b ∈ s.streams, b.server = place ∧ Taken s.cluster b.handle
  held : ∀ m ∈ s.registry.members, s.Held m
  opened : ∀ b ∈ s.streams, b.gone = false → s.Registered b ∨ b.Terminated s.cluster
  tasks : ∀ t ∈ s.machine.tasks, t.outcome = none → t.activity.Spares place s.cluster

/-- What a step keeps: the invariant, what the connections may become, and the numbers of the
streams, which do not open again. -/
structure Keeps (s s' : Server) : Prop where
  inv : Inv s'
  grows : Grows s.cluster s'.cluster
  numbers : ∀ (number : Nat) (b : EventStream), s.streams[number]? = some b →
    ∃ b' : EventStream, s'.streams[number]? = some b' ∧ b'.handle = b.handle ∧
      (b.gone = true → b'.gone = true)

theorem Inv.keeps_self (hinv : Inv s) : Keeps s s :=
  ⟨hinv, (Fades.refl _).toGrows, fun _ b hb => ⟨b, hb, rfl, fun h => h⟩⟩

theorem Inv.keeps (hinv : Inv s') (hgrows : Grows s.cluster s'.cluster)
    (new : List EventStream) (hstreams : s'.streams = s.streams ++ new) : Keeps s s' := by
  refine ⟨hinv, hgrows, fun number b hb => ⟨b, ?_, rfl, fun h => h⟩⟩
  rw [hstreams, List.getElem?_append_left (List.getElem?_eq_some_iff.mp hb).1, hb]

theorem Inv.dead_of_member (hinv : Inv s) (hm : m ∈ s.registry.members)
    (hdead : Dead s.cluster m.id) :
    ∃ x, s.cluster.connection? m.handle = some x ∧ x.live = false := by
  obtain ⟨h, x, hx, hid, hlive⟩ := hdead
  obtain ⟨y, hy, hmember⟩ := Option.map_eq_some_iff.mp (hinv.located.member m hm)
  have hsame := hinv.distinct h m.handle x y hx hy (hid.trans (congrArg Member.id hmember).symm)
  exact ⟨x, hsame ▸ hx, hlive⟩

/-- The members that a step leaves, which takes out dead connections only. -/
theorem mem_of_unregisters (hinv : Inv s) (hunregisters : Unregisters place s.cluster s'.cluster) :
    s'.registry.Agrees ∧ (∀ m ∈ s'.registry.members, m ∈ s.registry.members) ∧
      ∀ m ∈ s.registry.members, m ∉ s'.registry.members → Dead s.cluster m.id := by
  rcases hunregisters.registry with hregistry | ⟨id, hdead, hregistry⟩
  · have hsame : s'.registry = s.registry := hregistry
    rw [hsame]
    exact ⟨hinv.located.agrees, fun _ h => h, fun _ h hnot => absurd h hnot⟩
  · have htaken : s'.registry = (s.registry.take id).1 := hregistry
    have hmem (m : Member) :
        m ∈ s'.registry.members ↔ m.id ≠ id ∧ m ∈ s.registry.members := by
      rw [htaken, hinv.located.agrees.mem_members_take]
    refine ⟨htaken ▸ hinv.located.agrees.take id, fun m hm => ((hmem m).mp hm).2,
      fun m hm hnot => ?_⟩
    rw [hmem, not_and] at hnot
    by_cases hid : m.id = id
    · exact hid ▸ hdead
    · exact absurd hm (hnot hid)

/-- A step that adds no connection and registers none. -/
theorem Inv.next (hinv : Inv s) (hfades : Fades s.cluster s'.cluster)
    (hunregisters : Unregisters place s.cluster s'.cluster)
    (hstreams : ∀ b' ∈ s'.streams, ∃ b ∈ s.streams,
      b'.server = b.server ∧ b'.handle = b.handle ∧
      (b'.gone = false → b.gone = false))
    (hheld : ∀ m ∈ s'.registry.members, s.Held m → s'.Held m)
    (htasks : ∀ t ∈ s'.machine.tasks, t.outcome = none → t.activity.Spares place s'.cluster) :
    Inv s' := by
  obtain ⟨hagrees, hsubset, hgone⟩ := mem_of_unregisters hinv hunregisters
  constructor
  case server => exact hunregisters.server.trans hinv.server
  case located =>
    exact ⟨hagrees, fun m hm => hfades.member? (hinv.located.member m (hsubset m hm))⟩
  case distinct =>
    intro h h' x x' hx hx' hid
    obtain ⟨y, hy, hfaded⟩ := hfades.exists_before hx
    obtain ⟨y', hy', hfaded'⟩ := hfades.exists_before hx'
    exact hinv.distinct h h' y y' hy hy' (by rw [← hfaded.id_eq, hid, hfaded'.id_eq])
  case streams =>
    intro h x hx
    obtain ⟨y, hy, hfaded⟩ := hfades.exists_before hx
    exact hfaded.streams (hinv.streams h y hy)
  case bodies =>
    intro b' hb'
    obtain ⟨b, hb, hserver, hhandle, _⟩ := hstreams b' hb'
    obtain ⟨hplace, htaken⟩ := hinv.bodies b hb
    exact ⟨hserver.trans hplace, hhandle ▸ hfades.taken htaken⟩
  case held => exact fun m hm => hheld m hm (hinv.held m (hsubset m hm))
  case opened =>
    intro b' hb' hopen
    obtain ⟨b, hb, _, hhandle, hgone'⟩ := hstreams b' hb'
    rcases hinv.opened b hb (hgone' hopen) with ⟨m, hm, hregistered⟩ | hterminated
    · by_cases hm' : m ∈ s'.registry.members
      · exact Or.inl ⟨m, hm', hregistered.trans hhandle.symm⟩
      · -- Whoever has left the registry was dead, so that its stream had been told to end.
        right
        obtain ⟨x, hx, hdead⟩ := hinv.dead_of_member hm (hgone m hm hm')
        have hterminated := EventStream.terminated_of_dead (b := b') (c := s.cluster)
          (by rw [hhandle, ← hregistered, hx]) (hinv.streams _ x hx) hdead
        exact (hterminated.grows hfades.toGrows).1
    · right
      obtain ⟨x, o, hx, ho, hdisposed⟩ := (hterminated.grows hfades.toGrows).1
      exact ⟨x, o, hhandle ▸ hx, ho, hdisposed⟩
  case tasks => exact htasks

/-! ## Steps of a task -/

variable {t : Task} {i : Nat} {stopFirst : Bool}

theorem stepTask_eq (ht : s.machine.tasks[i]? = some t) (stopFirst : Bool) :
    (s.stepTask stopFirst i).machine = ⟨(t.step s.cluster stopFirst).1,
        s.machine.tasks.set i (t.step s.cluster stopFirst).2.1⟩ ∧
      (s.stepTask stopFirst i).streams =
        s.streams ++ (opened? t (t.step s.cluster stopFirst).2.1).toList := by
  simp only [stepTask, ht, Machine.stepTask, and_self]

/-- A task that is about to begin a removal is still there after a step of another one. -/
theorem Held.of_set (hheld : s.Held m) {t' : Task} (ht : s.machine.tasks[i]? = some t)
    (hremoval : t.outcome = none → t.activity ≠ .removal place (.fresh m.id))
    (htasks : s'.machine.tasks = s.machine.tasks.set i t')
    (hstreams : ∀ b ∈ s.streams, b ∈ s'.streams) : s'.Held m := by
  rcases hheld with ⟨b, hb, hopen⟩ | ⟨t'', ht'', hlive, hactivity⟩
  · exact Or.inl ⟨b, hstreams b hb, hopen⟩
  · obtain ⟨j, hj⟩ := List.mem_iff_getElem?.mp ht''
    have hij : i ≠ j := by
      rintro rfl
      rw [ht, Option.some.injEq] at hj
      subst hj
      exact hremoval hlive hactivity
    refine Or.inr ⟨t'', List.mem_of_getElem? (i := j) ?_, hlive, hactivity⟩
    rw [htasks, List.getElem?_set_ne hij, hj]

theorem Inv.tasks_of_set (hinv : Inv s) (hfades : Fades s.cluster s'.cluster) {t' : Task}
    (htasks : s'.machine.tasks = s.machine.tasks.set i t')
    (ht' : t'.outcome = none → t'.activity.Spares place s'.cluster) :
    ∀ t ∈ s'.machine.tasks, t.outcome = none → t.activity.Spares place s'.cluster := by
  intro t ht hlive
  rw [htasks] at ht
  rcases List.mem_or_eq_of_mem_set ht with ht | rfl
  · exact (hinv.tasks t ht hlive).grows hfades.toGrows
  · exact ht' hlive

theorem stepTask_ended (ht : s.machine.tasks[i]? = some t) (hended : t.isDone = true)
    (stopFirst : Bool) : s.stepTask stopFirst i = s := by
  have hstep : t.step s.machine.cluster stopFirst = (s.machine.cluster, t, false) := by
    rw [Task.step, if_pos hended]
  have hset : s.machine.tasks.set i t = s.machine.tasks :=
    List.ext_getElem? fun j => by
      rw [List.getElem?_set]
      split
      · next hij =>
        subst hij
        rw [ht, if_pos (List.getElem?_eq_some_iff.mp ht).1]
      · rfl
  have hopened : opened? t t = none := by
    obtain ⟨o, ho⟩ := Option.isSome_iff_exists.mp hended
    rw [opened?, ho]
  simp only [stepTask, ht, Machine.stepTask, hstep, hset, hopened, Option.toList_none,
    List.append_nil]

theorem Inv.stepMaintains (hinv : Inv s) (ht : s.machine.tasks[i]? = some t)
    (hlive : t.outcome = none) (hadd : ∀ i h w, t.activity ≠ .add i h w) :
    Keeps s (s.stepTask stopFirst i) := by
  have hspares := hinv.tasks t (List.mem_of_getElem? ht) hlive
  obtain ⟨⟨hfades, hmoved⟩, hunregisters⟩ :=
    step_maintains (t.isCancelled s.cluster.now) stopFirst hinv.located hspares hadd
  obtain ⟨hmachine, hstreams⟩ := stepTask_eq ht stopFirst
  obtain ⟨hfst, hsnd⟩ := Network.step_of_live (c := s.cluster) stopFirst hlive rfl
  have hopening : opening? t.activity = none := by
    cases hactivity : t.activity with
    | add i h w => exact absurd hactivity (hadd i h w)
    | _ => rfl
  have hopened : opened? t (t.step s.cluster stopFirst).2.1 = none := by
    rw [opened?, hopening]
    split <;> rfl
  rw [hopened, Option.toList_none, List.append_nil] at hstreams
  have hcluster : (s.stepTask stopFirst i).cluster =
      (t.activity.step s.cluster (t.isCancelled s.cluster.now) stopFirst).1 := by
    rw [cluster, hmachine, ← hfst]
  rw [← hcluster] at hfades hunregisters hmoved
  refine Inv.keeps ?_ hfades.toGrows [] (by rw [hstreams, List.append_nil])
  apply hinv.next hfades hunregisters
  case hstreams =>
    intro b hb
    rw [hstreams] at hb
    exact ⟨b, hb, rfl, rfl, fun h => h⟩
  case hheld =>
    intro m hm hheld
    refine hheld.of_set ht (fun _ hremoval => ?_) (by rw [hmachine]) fun b hb => by rwa [hstreams]
    -- The step would have taken the member out.
    have hregistry := (stepRemoval_fresh_spec s.cluster place m.id).2
    rw [hremoval] at hcluster
    rw [← show (s.stepTask stopFirst i).cluster = (s.cluster.stepRemoval place (.fresh m.id)).1
      from hcluster] at hregistry
    have hagrees := (mem_of_unregisters hinv hunregisters).1
    have hfound := hagrees.mem_members.mp hm
    rw [show (s.stepTask stopFirst i).registry = _ from hregistry, Registry.find?_take,
      if_pos rfl] at hfound
    cases hfound
  case htasks =>
    refine hinv.tasks_of_set hfades (by rw [hmachine]) fun hlive' => ?_
    rw [hsnd]
    generalize t.activity.step s.cluster (t.isCancelled s.cluster.now) stopFirst = q at *
    obtain ⟨c', _ | a | o⟩ := q
    · exact hspares.grows hfades.toGrows
    · exact hmoved
    · rw [hsnd] at hlive'
      cases hlive'

/-- A connection is registered, and the answer to its client begins. -/
theorem Inv.registered (hinv : Inv s) {h : Nat} {x : Connection}
    (hx : s.cluster.connection? h = some x) (hserver : (s'.cluster.server? place).isSome = true)
    (hconnections : s'.cluster.connections = s.cluster.connections)
    (hregistry : s'.registry = s.registry.insert ⟨x.id, x.client, h⟩)
    (hstreams : s'.streams = s.streams ++ [streamOf h])
    (hheld : ∀ m, s.Held m → s'.Held m)
    (htasks : ∀ t ∈ s'.machine.tasks, t.outcome = none → t.activity.Spares place s'.cluster) :
    Inv s' := by
  have hfound : ∀ i, s'.cluster.connection? i = s.cluster.connection? i := fun i => by
    rw [connection?, hconnections, connection?]
  have hmem : ∀ m, m ∈ s'.registry.members ↔
      m = ⟨x.id, x.client, h⟩ ∨ m.id ≠ x.id ∧ m ∈ s.registry.members := fun m => by
    rw [hregistry, hinv.located.agrees.mem_members_insert]
  have hregistered : s'.Registered (streamOf h) := ⟨_, (hmem _).mpr (Or.inl rfl), rfl⟩
  have hlocated : ∀ m ∈ s'.registry.members, s'.cluster.member? m.handle = some m := by
    intro m hm
    rw [member?, hfound]
    rcases (hmem m).mp hm with rfl | ⟨_, hm⟩
    · rw [hx]
      rfl
    · exact hinv.located.member m hm
  constructor
  case server => exact hserver
  case located =>
    refine ⟨?_, hlocated⟩
    rw [show s'.cluster.registry place = _ from hregistry]
    exact hinv.located.agrees.insert _
  case distinct =>
    intro i i' y y' hy hy'
    rw [hfound] at hy hy'
    exact hinv.distinct i i' y y' hy hy'
  case streams =>
    intro i y hy
    rw [hfound] at hy
    exact hinv.streams i y hy
  case bodies =>
    intro b hb
    rw [Taken, hfound]
    rw [hstreams, List.mem_append, List.mem_singleton] at hb
    rcases hb with hb | rfl
    · exact hinv.bodies b hb
    · exact ⟨rfl, x, hx⟩
  case held =>
    intro m hm
    rcases (hmem m).mp hm with rfl | ⟨_, hm⟩
    · exact Or.inl
        ⟨_, by rw [hstreams]; exact List.mem_append_right _ (List.mem_singleton.mpr rfl),
        rfl, rfl⟩
    · exact hheld m (hinv.held m hm)
  case opened =>
    intro b hb hopen
    rw [hstreams, List.mem_append, List.mem_singleton] at hb
    rcases hb with hb | rfl
    · rcases hinv.opened b hb hopen with ⟨m, hm, hhandle⟩ | ⟨y, o, hy, hrest⟩
      · left
        by_cases hid : m.id = x.id
        · -- Whoever had the name is the connection that is registered again.
          obtain ⟨y, hy, hmember⟩ := Option.map_eq_some_iff.mp (hinv.located.member m hm)
          have hsame := hinv.distinct _ _ _ _ hy hx ((congrArg Member.id hmember).trans hid)
          exact ⟨_, (hmem _).mpr (Or.inl rfl), hsame.symm.trans hhandle⟩
        · exact ⟨m, (hmem m).mpr (Or.inr ⟨hid, hm⟩), hhandle⟩
      · exact Or.inr ⟨y, o, (hfound _).trans hy, hrest⟩
    · exact Or.inl hregistered
  case tasks => exact htasks

/-- A stream opens with the step that registers its connection. -/
theorem opened?_after_add {h : Nat} {w : StoreWait} (hactivity : t.activity = .add place h w)
    (hlive : t.outcome = none) (p : Progress StoreWait (Except Error Unit)) :
    (p = .done (.ok ()) → opened? t (Network.after t ((p.mapState (.add place h)).map .result)) =
      some (streamOf h)) ∧
    (p ≠ .done (.ok ()) →
      opened? t (Network.after t ((p.mapState (.add place h)).map .result)) =
      none) := by
  obtain _ | w' | ⟨e | _⟩ := p <;>
    simp [Progress.mapState, Progress.map, Network.after, opened?, opening?, hactivity, hlive]

theorem Inv.stepAdds (hinv : Inv s) (ht : s.machine.tasks[i]? = some t) (hlive : t.outcome = none)
    {h : Nat} {w : StoreWait} (hactivity : t.activity = .add place h w) :
    Keeps s (s.stepTask stopFirst i) := by
  have hspares := hinv.tasks t (List.mem_of_getElem? ht) hlive
  rw [hactivity] at hspares
  obtain ⟨x, hx⟩ := hspares.2
  obtain ⟨hmachine, hstreams⟩ := stepTask_eq ht stopFirst
  obtain ⟨hfst, hsnd⟩ := Network.step_of_live (c := s.cluster) stopFirst hlive rfl
  rw [hactivity] at hfst hsnd
  simp only [Activity.step] at hfst hsnd
  obtain ⟨hconnections, hserver, hregistry⟩ :=
    stepAdd_registers hinv.server hx (t.isCancelled s.cluster.now) w
  generalize s.cluster.stepAdd (t.isCancelled s.cluster.now) place h w = q at *
  have hcluster : (s.stepTask stopFirst i).cluster = q.1 := by rw [cluster, hmachine, ← hfst]
  have hfades : Fades s.cluster (s.stepTask stopFirst i).cluster :=
    Fades.of_connections (by rw [hcluster, hconnections])
  have htasks : ∀ t ∈ (s.stepTask stopFirst i).machine.tasks, t.outcome = none →
      t.activity.Spares place (s.stepTask stopFirst i).cluster := by
    refine hinv.tasks_of_set hfades (by rw [hmachine]) fun hlive' => ?_
    have hspares' : ∀ w',
        (Activity.add place h w').Spares place (s.stepTask stopFirst i).cluster :=
      fun w' => ⟨rfl, hfades.taken hspares.2⟩
    rw [hsnd]
    obtain ⟨c', _ | w' | r⟩ := q
    · exact hactivity ▸ hspares' w
    · exact hspares' w'
    · rw [hsnd] at hlive'
      cases hlive'
  have hheld (hsub : ∀ b ∈ s.streams, b ∈ (s.stepTask stopFirst i).streams) (m : Member)
      (hheld : s.Held m) : (s.stepTask stopFirst i).Held m :=
    hheld.of_set ht (by simp [hactivity]) (by rw [hmachine]) hsub
  rcases hregistry with ⟨hdone, hregistry⟩ | ⟨hdone, hregistry⟩
  · have hstreams' : (s.stepTask stopFirst i).streams = s.streams ++ [streamOf h] := by
      rw [hstreams, hsnd, (opened?_after_add hactivity hlive q.2).1 hdone, Option.toList_some]
    refine Inv.keeps ?_ hfades.toGrows _ hstreams'
    refine hinv.registered hx (hcluster ▸ hserver) (hcluster ▸ hconnections)
      (by rw [registry, hcluster, hregistry]) hstreams' (hheld fun b hb => ?_) htasks
    rw [hstreams']
    exact List.mem_append_left _ hb
  · rw [hsnd, (opened?_after_add hactivity hlive q.2).2 hdone, Option.toList_none,
      List.append_nil] at hstreams
    refine Inv.keeps ?_ hfades.toGrows [] (by rw [hstreams, List.append_nil])
    refine hinv.next hfades ⟨?_, Or.inl (by rw [hcluster, hregistry])⟩ (fun b hb => ?_)
      (fun m _ => hheld (fun b hb => by rwa [hstreams]) m) htasks
    · rw [hcluster, hserver, hinv.server]
    · rw [hstreams] at hb
      exact ⟨b, hb, rfl, rfl, fun h => h⟩

theorem Inv.stepTask (hinv : Inv s) (stopFirst : Bool) (i : Nat) :
    Keeps s (s.stepTask stopFirst i) := by
  cases ht : s.machine.tasks[i]? with
  | none => simpa only [Server.stepTask, ht] using hinv.keeps_self
  | some t =>
    cases houtcome : t.outcome with
    | some o =>
      rw [stepTask_ended ht (by rw [Task.isDone, houtcome]; rfl)]
      exact hinv.keeps_self
    | none =>
      have hspares := hinv.tasks t (List.mem_of_getElem? ht) houtcome
      cases hactivity : t.activity with
      | add i h w =>
        rw [hactivity] at hspares
        obtain ⟨rfl, _⟩ := hspares
        exact hinv.stepAdds ht houtcome hactivity
      | _ => exact hinv.stepMaintains ht houtcome (by simp [hactivity])

/-! ## Clients that come -/

theorem spares_of_ordinary {a : Activity} (ha : Ordinary a) (c : Cluster) : a.Spares place c := by
  cases ha with
  | publication | handling | sweep | heartbeat | subscriber => exact ⟨rfl, trivial⟩
  | count | refreshing | sleep => trivial

theorem Held.append (hheld : s.Held m) {tasks : List Task}
    (htasks : s'.machine.tasks = s.machine.tasks ++ tasks) (hstreams : s'.streams = s.streams) :
    s'.Held m := by
  rcases hheld with ⟨b, hb, hopen⟩ | ⟨t, ht, hrest⟩
  · exact Or.inl ⟨b, hstreams ▸ hb, hopen⟩
  · exact Or.inr ⟨t, htasks ▸ List.mem_append_left _ ht, hrest⟩

theorem unregisters_refl (c : Cluster) : Unregisters place c c := ⟨rfl, Or.inl rfl⟩

theorem Inv.spawn (hinv : Inv s) {t : Task} (ht : Ordinary t.activity) : Keeps s (s.begin t) := by
  refine Inv.keeps ?_ (Fades.refl _).toGrows [] (List.append_nil _).symm
  refine hinv.next (Fades.refl _) (unregisters_refl _)
    (fun b hb => ⟨b, hb, rfl, rfl, fun h => h⟩)
    (fun m _ hheld => hheld.append rfl rfl) fun t' ht' hlive => ?_
  rcases List.mem_append.mp ht' with ht' | ht'
  · exact hinv.tasks t' ht' hlive
  · rw [List.mem_singleton.mp ht']
    exact spares_of_ordinary ht _

theorem Inv.forget (hinv : Inv s) {tasks : List Task}
    (hmem : ∀ t ∈ tasks, t ∈ s.machine.tasks)
    (hkept : ∀ t ∈ s.machine.tasks, t.outcome = none →
      (∃ h w, t.activity = .add place h w) ∨ t ∈ tasks) :
    Keeps s { s with machine := { s.machine with tasks := tasks } } := by
  refine Inv.keeps ?_ (Fades.refl _).toGrows [] (List.append_nil _).symm
  refine hinv.next (Fades.refl _) (unregisters_refl _)
    (fun b hb => ⟨b, hb, rfl, rfl, fun h => h⟩)
    (fun m _ hheld => ?_) fun t ht hlive => hinv.tasks t (hmem t ht) hlive
  rcases hheld with hopen | ⟨t, ht, hlive, hremoval⟩
  · exact Or.inl hopen
  · rcases hkept t ht hlive with ⟨h, w, hadd⟩ | hkept
    · rw [hremoval] at hadd
      cases hadd
    · exact Or.inr ⟨t, hkept, hlive, hremoval⟩

structure Comes (s : Server) (x : Connection) (s' : Server) : Prop where
  connections : s'.cluster.connections = s.cluster.connections ++ [x]
  servers : s'.cluster.servers = s.cluster.servers
  streams : s'.streams = s.streams
  tasks : s'.machine.tasks = s.machine.tasks ++
    [{ activity := .add place s.cluster.connections.length .fresh }]

theorem comes_connect (s : Server) (id : ConnectionId) (client : ClientId)
    (lastEventId : Option String) :
    Comes s (EventStream.connectionOf s.settings s.cluster.now id client lastEventId)
      ((s.connect id client lastEventId).1.begin (s.connect id client lastEventId).2) := by
  refine ⟨rfl, rfl, rfl, ?_⟩
  rw [begin, withTasks, Server.connect, withTasks, List.append_nil]

theorem Inv.comes (hinv : Inv s) {x : Connection} (hcomes : Comes s x s')
    (hid : ∀ y ∈ s.cluster.connections, y.id ≠ x.id) (hstreams : x.Streams) : Keeps s s' := by
  have hgrows := grows_of_append hcomes.connections
  have hcases {i : Nat} {y : Connection} : s'.cluster.connection? i = some y ↔
      s.cluster.connection? i = some y ∨ i = s.cluster.connections.length ∧ y = x :=
    connection?_of_append hcomes.connections
  have hfresh : ∀ h y, s.cluster.connection? h = some y → y.id ≠ x.id :=
    fun h y hy => hid y (List.mem_of_getElem? hy)
  have hregistry : s'.registry = s.registry := by
    rw [registry, Cluster.registry, server?, hcomes.servers]
    rfl
  refine Inv.keeps ?_ hgrows [] (by rw [hcomes.streams, List.append_nil])
  constructor
  case server =>
    rw [server?, hcomes.servers]
    exact hinv.server
  case located =>
    have hsame : s'.cluster.registry place = s.cluster.registry place := hregistry
    refine ⟨?_, fun m hm => hgrows.member? (hinv.located.member m ?_)⟩
    · rw [hsame]
      exact hinv.located.agrees
    · rwa [hsame] at hm
  case distinct =>
    intro h h' y y' hy hy' heq
    rcases hcases.mp hy with hy | ⟨rfl, rfl⟩ <;> rcases hcases.mp hy' with hy' | ⟨rfl, rfl⟩
    · exact hinv.distinct h h' y y' hy hy' heq
    · exact absurd heq (hfresh h y hy)
    · exact absurd heq.symm (hfresh h' y' hy')
    · rfl
  case streams =>
    intro h y hy
    rcases hcases.mp hy with hy | ⟨_, rfl⟩
    · exact hinv.streams h y hy
    · exact hstreams
  case bodies =>
    intro b hb
    obtain ⟨hplace, htaken⟩ := hinv.bodies b (hcomes.streams ▸ hb)
    exact ⟨hplace, hgrows.taken htaken⟩
  case held =>
    intro m hm
    rw [hregistry] at hm
    exact (hinv.held m hm).append hcomes.tasks hcomes.streams
  case opened =>
    intro b hb hopen
    rcases hinv.opened b (hcomes.streams ▸ hb) hopen with hregistered | hterminated
    · left
      rwa [Registered, hregistry]
    · exact Or.inr (hterminated.grows hgrows).1
  case tasks =>
    intro t ht hlive
    rw [hcomes.tasks] at ht
    rcases List.mem_append.mp ht with ht | ht
    · exact (hinv.tasks t ht hlive).grows hgrows
    · rw [List.mem_singleton.mp ht]
      exact ⟨rfl, x, hcases.mpr (Or.inr ⟨rfl, rfl⟩)⟩

theorem Inv.connect (hinv : Inv s) {id : ConnectionId}
    (hid : ∀ x ∈ s.machine.cluster.connections, x.id ≠ id) (client : ClientId)
    (lastEventId : Option String) :
    Keeps s ((s.connect id client lastEventId).1.begin (s.connect id client lastEventId).2) :=
  hinv.comes (comes_connect s id client lastEventId) hid ⟨_, rfl, fun hdead => by cases hdead⟩

end Server

end EventHub.Web
