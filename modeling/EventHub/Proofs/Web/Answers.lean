import EventHub.Proofs.Web.ServerRuns
/-!
# Answers are runs

To answer a request, a server lets all of its tasks go on until those that it waits for have ended.
Whatever it does meanwhile is one of its runs, and so is opening a stream, as long as no other
connection is being registered.
-/

namespace EventHub.Web.Server

open Cluster

/-! ## What becomes of a task -/

structure Advanced (t t' : Task) : Prop where
  opening : opening? t'.activity = opening? t.activity
  ended : t.outcome ≠ none → t' = t
  result : opening? t.activity ≠ none → t.outcome = none →
    ∀ n, t'.outcome ≠ some (.number n)

theorem Advanced.refl (t : Task) : Advanced t t :=
  ⟨rfl, fun _ => rfl, fun _ hlive n => by rw [hlive]; simp⟩

theorem Advanced.trans {t t' t'' : Task} (h : Advanced t t') (h' : Advanced t' t'') :
    Advanced t t'' := by
  refine ⟨h'.opening.trans h.opening, fun hended => ?_, fun hopening hlive n => ?_⟩
  · have hsame := h.ended hended
    rw [hsame] at h'
    exact h'.ended hended
  · cases hlive' : t'.outcome with
    | none => exact h'.result (h.opening ▸ hopening) hlive' n
    | some o =>
      rw [h'.ended (by simp [hlive'])]
      exact h.result hopening hlive n

theorem opened?_of_opening {t : Task} (t' : Task) (hopening : opening? t.activity = none) :
    opened? t t' = none := by
  rw [opened?, hopening]
  split <;> rfl

theorem opened?_of_ended {t : Task} (t' : Task) (hended : t.outcome ≠ none) :
    opened? t t' = none := by
  unfold opened?
  split
  · next hlive _ => exact absurd hlive hended
  · rfl

theorem opened?_self (t : Task) : opened? t t = none := by
  rw [opened?]
  split
  · next hlive hended => rw [hlive] at hended; cases hended
  · rfl

theorem Advanced.opened_append {t t' t'' : Task} (h : Advanced t t') (h' : Advanced t' t'') :
    (opened? t t').toList ++ (opened? t' t'').toList = (opened? t t'').toList := by
  cases hlive' : t'.outcome with
  | some o =>
    have hended : t'.outcome ≠ none := by simp [hlive']
    rw [opened?_of_ended t'' hended, h'.ended hended, Option.toList_none, List.append_nil]
  | none =>
    have hlive : t.outcome = none := by
      by_contra hended
      rw [h.ended hended] at hlive'
      exact hended hlive'
    simp only [opened?, hlive, hlive', h.opening, Option.toList_none, List.nil_append]

theorem opening_step (c : Cluster) (cancelled stopFirst : Bool) (a : Activity) :
    (a.step c cancelled stopFirst).2.To fun a' => opening? a' = opening? a := by
  have hany {σ τ α β : Type} (p : Progress σ α) (f : σ → τ) (g : α → β)
      {Q : τ → Prop}
      (hf : ∀ s, Q (f s)) : ((p.mapState f).map g).To Q := p.to_true.lift fun s _ => hf s
  cases a with
  | sleep time =>
    simp only [Activity.step]
    split <;> trivial
  | _ => exact hany _ _ _ fun _ => rfl

theorem result_step {a : Activity} (hopening : opening? a ≠ none) (c : Cluster)
    (cancelled stopFirst : Bool) (n : Nat) :
    (a.step c cancelled stopFirst).2 ≠ .done (.number n) := by
  cases a with
  | add i h w =>
    intro hdone
    obtain ⟨_, _, hnumber⟩ := Progress.map_mapState_eq_done.mp hdone
    cases hnumber
  | _ => exact absurd rfl hopening

theorem advanced_step (c : Cluster) (stopFirst : Bool) (t : Task) :
    Advanced t (t.step c stopFirst).2.1 := by
  cases hlive : t.outcome with
  | some o =>
    rw [Task.step, if_pos (by rw [Task.isDone, hlive]; rfl)]
    exact Advanced.refl t
  | none =>
    have hopening := opening_step c (t.isCancelled c.now) stopFirst t.activity
    have hresult (h : opening? t.activity ≠ none) :=
      result_step h c (t.isCancelled c.now) stopFirst
    rw [(Network.step_of_live stopFirst hlive rfl).2]
    generalize t.activity.step c (t.isCancelled c.now) stopFirst = q at hopening hresult
    obtain ⟨c', _ | a | o⟩ := q
    · exact Advanced.refl t
    · refine ⟨hopening, fun hended => absurd hlive hended, fun _ _ n => ?_⟩
      simp [Network.after, hlive]
    · refine ⟨rfl, fun hended => absurd hlive hended, fun h _ n heq => hresult h n ?_⟩
      rw [Option.some.inj heq]

/-! ## One task after another -/

def goesOn (s : Server) (m : Machine) (new : List EventStream) : Server :=
  { s with machine := m, streams := s.streams ++ new }

theorem goesOn_self (s : Server) : s.goesOn s.machine [] = s := by
  rw [goesOn, List.append_nil]

theorem goesOn_goesOn (s : Server) (m m' : Machine) (new new' : List EventStream) :
    (s.goesOn m new).goesOn m' new' = s.goesOn m' (new ++ new') := by
  simp only [goesOn, List.append_assoc]

structure Drains (c : Cluster) (t : Task) (c' : Cluster) (t' : Task) : Prop where
  advanced : Advanced t t'
  run : ∀ (s : Server) (before after : List Task), s.machine = ⟨c, before ++ t :: after⟩ →
    Run s (s.goesOn ⟨c', before ++ t' :: after⟩ (opened? t t').toList)

theorem Drains.refl (c : Cluster) (t : Task) : Drains c t c t := by
  refine ⟨Advanced.refl t, fun s before after hmachine => ?_⟩
  rw [opened?_self, Option.toList_none, ← hmachine, goesOn_self]
  exact .refl

theorem Drains.trans {c c' c'' : Cluster} {t t' t'' : Task} (h : Drains c t c' t')
    (h' : Drains c' t' c'' t'') : Drains c t c'' t'' := by
  refine ⟨h.advanced.trans h'.advanced, fun s before after hmachine => ?_⟩
  rw [← h.advanced.opened_append h'.advanced, ← goesOn_goesOn s ⟨c', before ++ t' :: after⟩]
  exact (h.run s before after hmachine).trans (h'.run _ before after rfl)

theorem drains_step (c : Cluster) (stopFirst : Bool) (t : Task) :
    Drains c t (t.step c stopFirst).1 (t.step c stopFirst).2.1 := by
  refine ⟨advanced_step c stopFirst t, fun s before after hmachine => ?_⟩
  have hstep : s.stepTask stopFirst before.length =
      s.goesOn ⟨(t.step c stopFirst).1, before ++ (t.step c stopFirst).2.1 :: after⟩
        (opened? t (t.step c stopFirst).2.1).toList := by
    simp [Server.stepTask, goesOn, Machine.stepTask, hmachine]
  rw [← hstep]
  exact .single (.task s stopFirst _)

theorem drains_drain (limit : Nat) (c : Cluster) (t : Task) :
    Drains c t (Machine.drain limit c t).1 (Machine.drain limit c t).2.1 := by
  induction limit generalizing c t with
  | zero => exact Drains.refl c t
  | succ limit ih =>
    have hstep := drains_step c true t
    rw [Machine.drain]
    generalize t.step c true = p at hstep
    obtain ⟨c', t', _ | _⟩ := p
    · exact hstep
    · exact hstep.trans (ih c' t')

/-! ## All tasks -/

def OpenNone (tasks : List Task) : Prop := ∀ t ∈ tasks, opening? t.activity = none

theorem run_drainAll (limit : Nat) (c : Cluster) {tasks : List Task} (hnone : OpenNone tasks) :
    OpenNone (Machine.drainAll limit c tasks).2.1 ∧
      ∀ (s : Server) (before : List Task), s.machine = ⟨c, before ++ tasks⟩ →
        Run s (s.goesOn ⟨(Machine.drainAll limit c tasks).1,
          before ++ (Machine.drainAll limit c tasks).2.1⟩ []) := by
  induction tasks generalizing c with
  | nil =>
    refine ⟨hnone, fun s before hmachine => ?_⟩
    rw [Machine.drainAll, ← hmachine, goesOn_self]
    exact .refl
  | cons t rest ih =>
    obtain ⟨hopening, hrest⟩ := List.forall_mem_cons.mp hnone
    have hdrain := drains_drain limit c t
    rw [Machine.drainAll]
    generalize Machine.drain limit c t = p at hdrain
    obtain ⟨c', t', moved⟩ := p
    obtain ⟨hnone', hrun⟩ := ih c' hrest
    dsimp only at hdrain ⊢
    generalize Machine.drainAll limit c' rest = q at hnone' hrun
    obtain ⟨c'', rest', moved'⟩ := q
    refine ⟨List.forall_mem_cons.mpr ⟨hdrain.advanced.opening.trans hopening, hnone'⟩,
      fun s before hmachine => ?_⟩
    have hfirst := hdrain.run s before rest hmachine
    rw [opened?_of_opening t' hopening, Option.toList_none] at hfirst
    have hlater := hrun (s.goesOn ⟨c', before ++ t' :: rest⟩ []) (before ++ [t'])
      (by simp [goesOn])
    rw [goesOn_goesOn, List.append_nil, List.append_assoc, List.singleton_append] at hlater
    exact hfirst.trans hlater

/-- A machine goes on in which nobody but the first task is to open a stream. -/
def Advances (m m' : Machine) : Prop :=
  ∀ t rest, m.tasks = t :: rest → OpenNone rest → ∃ t' rest', m'.tasks = t' :: rest' ∧
    Advanced t t' ∧ OpenNone rest' ∧
      ∀ s : Server, s.machine = m → Run s (s.goesOn m' (opened? t t').toList)

theorem Advances.refl (m : Machine) : Advances m m := by
  refine fun t rest htasks hnone => ⟨t, rest, htasks, Advanced.refl t, hnone, ?_⟩
  rintro s rfl
  rw [opened?_self, Option.toList_none, goesOn_self]
  exact .refl

theorem Advances.trans {m m' m'' : Machine} (h : Advances m m') (h' : Advances m' m'') :
    Advances m m'' := by
  intro t rest htasks hnone
  obtain ⟨t', rest', htasks', hadvanced, hnone', hrun⟩ := h t rest htasks hnone
  obtain ⟨t'', rest'', htasks'', hadvanced', hnone'', hrun'⟩ := h' t' rest' htasks' hnone'
  refine ⟨t'', rest'', htasks'', hadvanced.trans hadvanced', hnone'', fun s hmachine => ?_⟩
  rw [← hadvanced.opened_append hadvanced', ← goesOn_goesOn s m']
  exact (hrun s hmachine).trans (hrun' _ rfl)

def round (limit : Nat) (m : Machine) : Machine :=
  ⟨(Machine.drainAll limit m.cluster m.tasks).1, (Machine.drainAll limit m.cluster m.tasks).2.1⟩

theorem advances_round (limit : Nat) (m : Machine) : Advances m (round limit m) := by
  obtain ⟨c, tasks⟩ := m
  rintro t rest rfl hnone
  have hdrain := drains_drain limit c t
  rw [round, Machine.drainAll]
  generalize Machine.drain limit c t = p at hdrain
  obtain ⟨c', t', moved⟩ := p
  obtain ⟨hnone', hrun⟩ := run_drainAll limit c' hnone
  dsimp only at hdrain ⊢
  generalize Machine.drainAll limit c' rest = q at hnone' hrun
  obtain ⟨c'', rest', moved'⟩ := q
  refine ⟨t', rest', rfl, hdrain.advanced, hnone', fun s hmachine => ?_⟩
  have hlater := hrun (s.goesOn ⟨c', t' :: rest⟩ (opened? t t').toList) [t'] rfl
  rw [goesOn_goesOn, List.append_nil] at hlater
  exact (hdrain.run s [] rest hmachine).trans hlater

theorem advances_moveTo (m : Machine) (time : Nat) : Advances m (m.moveTo time) := by
  intro t rest htasks hnone
  refine ⟨t, rest, htasks, Advanced.refl t, hnone, ?_⟩
  rintro s rfl
  have hmoved : s.withTasks { s.machine.cluster with now := time } [] =
      s.goesOn (s.machine.moveTo time) [] := by
    simp [goesOn, Machine.moveTo, withTasks]
  rw [opened?_self, Option.toList_none, ← hmoved]
  exact .single (.outside s _ rfl rfl)

/-- What holds of machines when all tasks go on in turn, and when the clock moves. -/
structure Goes (limit : Nat) (R : Machine → Machine → Prop) : Prop where
  refl : ∀ m, R m m
  trans : ∀ {m m' m''}, R m m' → R m' m'' → R m m''
  round : ∀ m, R m (round limit m)
  clock : ∀ m time, R m (m.moveTo time)

namespace Goes

variable {limit : Nat} {R : Machine → Machine → Prop}

theorem settleGo (hgoes : Goes limit R) (rounds : Nat) (m : Machine) :
    R m (Machine.settle.go limit rounds m) := by
  induction rounds generalizing m with
  | zero => exact hgoes.refl m
  | succ rounds ih =>
    have hround := hgoes.round m
    rw [Server.round] at hround
    rw [Machine.settle.go]
    generalize Machine.drainAll limit m.cluster m.tasks = p at hround
    obtain ⟨c, tasks, _ | _⟩ := p
    · exact hround
    · exact hgoes.trans hround (ih _)

theorem runUntilGo (hgoes : Goes limit R) (moves : Nat) (isDone : Machine → Bool) (m : Machine) :
    R m (Machine.runUntil.go limit isDone moves m) := by
  induction moves generalizing m with
  | zero => exact hgoes.refl m
  | succ moves ih =>
    rw [Machine.runUntil.go]
    split
    · exact hgoes.refl m
    · split
      · exact hgoes.refl m
      · next time _ =>
        exact hgoes.trans (hgoes.trans (hgoes.clock m time) (hgoes.settleGo limit _)) (ih _)

theorem runUntil (hgoes : Goes limit R) (isDone : Machine → Bool) (m : Machine) :
    R m (m.runUntil limit isDone) :=
  hgoes.trans (hgoes.settleGo limit m) (hgoes.runUntilGo limit isDone _)

/-- Whatever the tasks come to in a round, they go on from there to the end. -/
theorem of_round (hgoes : Goes (limit + 1) R) (isDone : Machine → Bool) (m : Machine) :
    R (Server.round (limit + 1) m) (m.runUntil (limit + 1) isDone) := by
  suffices h : R (Server.round (limit + 1) m) (Machine.settle.go (limit + 1) (limit + 1) m) from
    hgoes.trans h (hgoes.runUntilGo _ isDone _)
  rw [Machine.settle.go, Server.round]
  generalize Machine.drainAll (limit + 1) m.cluster m.tasks = p
  obtain ⟨c, tasks, _ | _⟩ := p
  · exact hgoes.refl _
  · exact hgoes.settleGo _ _

end Goes

theorem goes_advances (limit : Nat) : Goes limit Advances :=
  ⟨Advances.refl, Advances.trans, advances_round limit, advances_moveTo⟩

theorem drain_of_ended (limit : Nat) {c : Cluster} {t : Task}
    (hended : (t.step c true).2.1.outcome ≠ none) :
    (Machine.drain (limit + 1) c t).2.1 = (t.step c true).2.1 := by
  rw [Machine.drain]
  generalize t.step c true = p at hended
  obtain ⟨c', t', _ | _⟩ := p
  · rfl
  · exact (drains_drain limit c' t').advanced.ended hended

/-! ## What a server waits for -/

variable {s : Server}

theorem settle_of_nil (limit rounds : Nat) {m : Machine} (htasks : m.tasks = []) :
    Machine.settle.go limit rounds m = m := by
  obtain ⟨c, tasks⟩ := m
  cases htasks
  cases rounds <;> rfl

theorem run_settle (hnone : OpenNone s.machine.tasks) : Run s s.settle := by
  cases htasks : s.machine.tasks with
  | nil =>
    rw [settle, Machine.settle, settle_of_nil _ _ htasks]
    exact .refl
  | cons t rest =>
    rw [htasks] at hnone
    obtain ⟨hopening, hrest⟩ := List.forall_mem_cons.mp hnone
    obtain ⟨t', rest', _, _, _, hrun⟩ :=
      (goes_advances runBound).settleGo runBound s.machine t rest htasks hrest
    have hsettle : s.settle = s.goesOn (s.machine.settle runBound) (opened? t t').toList := by
      rw [opened?_of_opening t' hopening, Option.toList_none, goesOn, List.append_nil, settle]
    rw [hsettle]
    exact hrun s rfl

def awaited (s : Server) (t : Task) : Machine :=
  Machine.runUntil runBound (fun m => (m.tasks.take 1).all Task.isDone)
    ⟨s.machine.cluster, t :: s.machine.tasks⟩

theorem await_eq {t t' : Task} {rest : List Task} (htasks : (s.awaited t).tasks = t' :: rest) :
    s.await t = ({ s with machine := ⟨(s.awaited t).cluster, rest⟩ }, t'.outcome) := by
  rw [awaited] at htasks
  simp only [await, Machine.run, List.singleton_append, List.length_singleton, htasks,
    List.drop_succ_cons, List.drop_zero, List.take_succ_cons, List.take_zero, List.head?_cons,
    Option.bind_some, awaited]

/-- A server waits for a task, which begins with the others and is forgotten once it has ended. -/
theorem run_await (hnone : OpenNone s.machine.tasks) (t : Task) :
    ∃ t', (s.await t).2 = t'.outcome ∧ Advanced t t' ∧
      OpenNone (s.await t).1.machine.tasks ∧
      (t'.outcome ≠ none →
        Run (s.begin t) ((s.await t).1.goesOn (s.await t).1.machine (opened? t t').toList)) := by
  have hadvances : Advances ⟨s.machine.cluster, t :: s.machine.tasks⟩ (s.awaited t) :=
    (goes_advances runBound).runUntil _ _
  obtain ⟨t', rest', htasks', hadvanced, hnone', hrun⟩ := hadvances t _ rfl hnone
  rw [await_eq htasks']
  generalize s.awaited t = m at htasks' hrun
  obtain ⟨c, tasks⟩ := m
  cases htasks'
  refine ⟨t', rfl, hadvanced, hnone', fun hended => ?_⟩
  have hfront : Run (s.begin t) (s.goesOn ⟨s.machine.cluster, t :: s.machine.tasks⟩ []) := by
    have hstep := Step.forget (s.begin t) (t :: s.machine.tasks)
      (fun x hx => by simpa [begin, withTasks, or_comm] using hx)
      (fun x hx _ => Or.inr (by simpa [begin, withTasks, or_comm] using hx))
    rw [goesOn, List.append_nil]
    exact .single hstep
  have hgone := Step.forget (s.goesOn ⟨c, t' :: rest'⟩ (opened? t t').toList) rest'
    (fun x hx => List.mem_cons_of_mem t' hx) (fun x hx hlive => Or.inr ?_)
  · have hlater := hrun (s.goesOn ⟨s.machine.cluster, t :: s.machine.tasks⟩ []) rfl
    rw [goesOn_goesOn, List.nil_append] at hlater
    exact (hfront.trans hlater).tail hgone
  · rcases List.mem_cons.mp hx with rfl | hx
    · exact absurd hlive hended
    · exact hx

/-- A server does not wait in vain for a task that ends with its first step. -/
theorem await_of_ended (hnone : OpenNone s.machine.tasks) {t : Task}
    (hended : (t.step s.machine.cluster true).2.1.outcome ≠ none) : (s.await t).2 ≠ none := by
  obtain ⟨limit, hlimit⟩ : ∃ limit, runBound = limit + 1 := ⟨99999, rfl⟩
  have hadvances : Advances (round runBound ⟨s.machine.cluster, t :: s.machine.tasks⟩)
      (s.awaited t) := by
    rw [awaited, hlimit]
    exact (goes_advances (limit + 1)).of_round _ _
  have hfirst : (Machine.drain runBound s.machine.cluster t).2.1.outcome ≠ none := by
    rw [hlimit, drain_of_ended limit hended]
    exact hended
  rw [round, Machine.drainAll] at hadvances
  generalize Machine.drain runBound s.machine.cluster t = p at hadvances hfirst
  obtain ⟨c, t', moved⟩ := p
  obtain ⟨t'', rest, htasks, hadvanced, _⟩ :=
    hadvances t' _ rfl (run_drainAll runBound c hnone).1
  rw [await_eq htasks, hadvanced.ended hfirst]
  exact hfirst

/-! ## Requests -/

def NamesAreNew (s : Server) : Prop :=
  ∀ n, s.nextName ≤ n → n ≤ s.nextName + 1 →
    ∀ x ∈ s.machine.cluster.connections, x.id ≠ ⟨generated n⟩

theorem run_clientOf {r : Request} {s' : Server} {client : ClientId}
    (hclient : s.clientOf r = .ok (s', client)) :
    Run s s' ∧ s'.machine = s.machine ∧ s.nextName ≤ s'.nextName ∧
      s'.nextName ≤ s.nextName + 1 := by
  rw [clientOf] at hclient
  cases hidentity : s.identify r with
  | error rejection =>
    rw [hidentity] at hclient
    cases hclient
  | ok client? =>
    rw [hidentity] at hclient
    cases client? with
    | some client =>
      cases hclient
      exact ⟨.refl, rfl, Nat.le_refl _, Nat.le_succ _⟩
    | none =>
      cases hclient
      exact ⟨.single (.name s), rfl, Nat.le_succ _, Nat.le_refl _⟩

/-- What becomes of a registration, the stream of which opens unless it fails. -/
inductive Registration (s : Server) (h : Nat) : Server × Option Outcome → Prop where
  | endless (s' : Server) : Registration s h (s', none)
  | failed {s' : Server} (e : Error) (hrun : Run s s') :
      Registration s h (s', some (.result (.error e)))
  | registered {s' : Server} (hrun : Run s (s'.goesOn s'.machine [streamOf h])) :
      Registration s h (s', some (.result (.ok ())))

theorem await_registration {s₀ : Server} {t : Task} {h : Nat} (hnone : OpenNone s.machine.tasks)
    (hlive : t.outcome = none) (hopening : opening? t.activity = some (streamOf h))
    (hbegun : Run s₀ (s.begin t)) : Registration s₀ h (s.await t) := by
  obtain ⟨t', houtcome, hadvanced, _, hrun⟩ := run_await hnone t
  generalize s.await t = p at houtcome hrun
  obtain ⟨s', outcome⟩ := p
  dsimp only at houtcome hrun
  subst houtcome
  cases houtcome : t'.outcome with
  | none => exact .endless s'
  | some o =>
    have hrun := hbegun.trans (hrun (by simp [houtcome]))
    cases o with
    | number n => exact absurd houtcome (hadvanced.result (by simp [hopening]) hlive n)
    | result x =>
      cases x with
      | error e =>
        rw [opened?, hlive, houtcome, Option.toList_none, goesOn_self] at hrun
        exact .failed e hrun
      | ok =>
        rw [opened?, hlive, houtcome, hopening] at hrun
        exact .registered hrun

theorem register_registration (hnone : OpenNone s.machine.tasks)
    (hid : ∀ x ∈ s.machine.cluster.connections, x.id ≠ ⟨generated s.nextName⟩)
    (r : Request) (client : ClientId) :
    Registration s s.machine.cluster.connections.length (s.register r client) := by
  have hconnect := Step.connect s.freshName.1 ⟨generated s.nextName⟩ client
    (EventStream.lastEventId? r.headers) hid
  refine await_registration ?_ rfl rfl ((Relation.ReflTransGen.single (.name s)).tail hconnect)
  simpa [connect, withTasks, freshName] using hnone

/-- The server registers connections on its own, or its store answers at once. -/
def Prompt (s : Server) : Prop :=
  ∀ x, s.machine.cluster.server? place = some x →
    x.sharing = none ∨ s.machine.cluster.storeDelay = 0

theorem stepAdd_ends {c : Cluster} {i : Nat}
    (hprompt : ∀ x, c.server? i = some x → x.sharing = none ∨ c.storeDelay = 0) (h : Nat) :
    ∃ result, (c.stepAdd false i h .fresh).2 = .done result := by
  rw [stepAdd, if_neg Bool.false_ne_true]
  split
  · next server x hserver _ =>
    split
    · exact ⟨_, rfl⟩
    · next sharing hsharing =>
      have hdelay : c.storeDelay = 0 :=
        (hprompt server hserver).resolve_left (by simp [hsharing])
      simp only [stepCall, hdelay, if_true]
      generalize Cluster.finishCall _ _ = p
      obtain ⟨c', e | n⟩ := p <;> exact ⟨_, rfl⟩
  · exact ⟨_, rfl⟩

/-- A registration that has to wait for nothing ends. -/
theorem register_ends (hnone : OpenNone s.machine.tasks) (hprompt : s.Prompt) (r : Request)
    (client : ClientId) : (s.register r client).2 ≠ none := by
  have hends {c : Cluster} {t : Task} {h : Nat} (ht : t = { activity := .add place h .fresh })
      (hprompt : ∀ x, c.server? place = some x → x.sharing = none ∨ c.storeDelay = 0) :
      (t.step c true).2.1.outcome ≠ none := by
    obtain ⟨result, hresult⟩ := stepAdd_ends hprompt h
    have hstep : (t.activity.step c (t.isCancelled c.now) true).2 = .done (.result result) := by
      rw [ht, Activity.step]
      dsimp only [Task.isCancelled, Option.any_none]
      rw [hresult]
      rfl
    rw [(Network.step_of_live true (by rw [ht]) rfl).2, hstep]
    exact Option.some_ne_none _
  exact await_of_ended (by simpa [connect, withTasks, freshName] using hnone) (hends rfl hprompt)

/-- Opening a stream is a run, if its registration ends. -/
theorem run_openStream (hnone : OpenNone s.machine.tasks) (hnew : s.NamesAreNew) (r : Request)
    (hended : ∀ s' client, s.clientOf r = .ok (s', client) →
      (s'.register r client).2 ≠ none) :
    Run s (s.openStream r).1 := by
  rw [openStream]
  cases hclient : s.clientOf r with
  | error rejection => exact .refl
  | ok q =>
    obtain ⟨s', client⟩ := q
    obtain ⟨hrun, hmachine, hfrom, hto⟩ := run_clientOf hclient
    have hregistration := register_registration (s := s') (hmachine ▸ hnone)
      (hmachine ▸ hnew s'.nextName hfrom hto) r client
    have hended := hended s' client hclient
    dsimp only
    cases s'.registryFails with
    | some e => exact hrun
    | none =>
      dsimp only
      generalize s'.register r client = p at hregistration hended
      cases hregistration with
      | endless => exact absurd rfl hended
      | failed e hfailed => exact hrun.trans hfailed
      | registered hregistered => exact hrun.trans hregistered

theorem run_openStream_of_prompt (hnone : OpenNone s.machine.tasks) (hnew : s.NamesAreNew)
    (hprompt : s.Prompt) (r : Request) : Run s (s.openStream r).1 := by
  refine run_openStream hnone hnew r fun s' client hclient => ?_
  obtain ⟨_, hmachine, _⟩ := run_clientOf hclient
  exact register_ends (hmachine ▸ hnone) (by rw [Prompt, hmachine]; exact hprompt) r client

/-- Answering a request to publish is a run, if the publication ends. -/
theorem run_publish (hnone : OpenNone s.machine.tasks) (target : Option ClientId) (r : Request)
    (hended : ∀ e, PublishRequest.ofRequest r.headers r.body = .ok e →
      (s.await (s.taskOf (.publication place (.ofEvent target e)))).2 ≠ none) :
    Run s (s.publish target r).1 := by
  rw [publish]
  cases hrequest : PublishRequest.ofRequest r.headers r.body with
  | error response => exact .refl
  | ok e =>
    dsimp only
    cases s.publisherFails with
    | some error => exact .refl
    | none =>
      have hended := hended e hrequest
      obtain ⟨t', houtcome, _, _, hrun⟩ :=
        run_await hnone (s.taskOf (.publication place (.ofEvent target e)))
      have hrun := hrun (houtcome ▸ hended)
      rw [opened?_of_opening t' rfl, Option.toList_none, goesOn_self] at hrun
      have hbegun := Step.spawn s (s.taskOf (.publication place (.ofEvent target e)))
        (.publication target e)
      have hpublished := (Relation.ReflTransGen.single hbegun).trans hrun
      dsimp only
      generalize s.await (s.taskOf (.publication place (.ofEvent target e))) = p at hpublished
      split <;> exact hpublished

end EventHub.Web.Server
