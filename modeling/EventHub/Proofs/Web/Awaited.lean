import EventHub.Proofs.Cluster.Straight
import EventHub.Proofs.Web.Answers
/-!
# Calls that a server waits for

A server that waits for a task lets all its other tasks go on as well, and moves the clock when
nothing else is left to do. For the call that the task makes these are the others, which do nothing
that a call has to fear.
-/

namespace EventHub.Web.Server

open Cluster

variable {σ α : Type} {act : Cluster → Bool → σ → Cluster × Progress σ α}
  {f : σ → Activity}
  {g : α → Outcome} {e e₁ : Errand Cluster σ α} {c : Cluster} {t : Task} {i : Nat}

/-! ## Tasks that make calls -/

def Conducts (act : Cluster → Bool → σ → Cluster × Progress σ α) (f : σ → Activity)
    (g : α → Outcome) : Prop :=
  ∀ c cancelled stopFirst x, (f x).step c cancelled stopFirst =
    ((act c cancelled x).1, ((act c cancelled x).2.mapState f).map g)

/-- The task stands where the call does, and neither is ever cancelled. -/
structure Shows (f : σ → Activity) (g : α → Outcome) (e : Errand Cluster σ α) (c : Cluster)
    (t : Task) : Prop where
  world : e.world = c
  token : t.cancelAt = none ∧ e.cancelled = false
  going : ∀ x, e.stage = .inl x → t.outcome = none ∧ t.activity = f x
  ended : ∀ a, e.stage = .inr a → t.outcome = some (g a)

theorem conducts_publicize (i : Nat) : Conducts (publicize i) (.publication i) .result :=
  fun _ _ _ _ => rfl

theorem shows_begun (f : σ → Activity) (g : α → Outcome) (c : Cluster) (x : σ) :
    Shows f g ⟨c, .inl x, false, [], []⟩ c { activity := f x } :=
  ⟨rfl, ⟨rfl, rfl⟩, fun _ hx => ⟨rfl, congrArg f (Sum.inl.inj hx)⟩,
    fun _ ha => by cases ha⟩

theorem Shows.stride (hshows : Shows f g e c t) (hconducts : Conducts act f g) {x : σ}
    (hx : e.stage = .inl x) (stopFirst : Bool) :
    Shows f g (e.stride act x) (t.step c stopFirst).1 (t.step c stopFirst).2.1 ∧
      (t.step c stopFirst).2.2 = !(act e.world e.cancelled x).2.isBlocked := by
  obtain ⟨hlive, hactivity⟩ := hshows.going x hx
  have hstep : t.activity.step c (t.isCancelled c.now) stopFirst =
      ((act e.world e.cancelled x).1, ((act e.world e.cancelled x).2.mapState f).map g) := by
    rw [Task.isCancelled, hshows.token.1, hshows.token.2, hactivity, hconducts, hshows.world]
    rfl
  have hworld : (e.stride act x).world = (act e.world e.cancelled x).1 := rfl
  have hstage : (e.stride act x).stage = (act e.world e.cancelled x).2.stage x := rfl
  have hnever : (e.stride act x).cancelled = false := hshows.token.2
  rw [Task.step, if_neg (by rw [Task.isDone, hlive]; exact Bool.false_ne_true), hstep]
  generalize e.stride act x = e' at hworld hstage hnever
  generalize act e.world e.cancelled x = p at hworld hstage
  obtain ⟨c', _ | x' | a⟩ := p
  · refine ⟨⟨hworld, ⟨hshows.token.1, hnever⟩, fun y hy => ?_, fun a ha => ?_⟩, rfl⟩
    · obtain rfl := Sum.inl.inj (hstage.symm.trans hy)
      exact ⟨hlive, hactivity⟩
    · cases hstage.symm.trans ha
  · refine ⟨⟨hworld, ⟨hshows.token.1, hnever⟩, fun y hy => ?_, fun a ha => ?_⟩, rfl⟩
    · obtain rfl := Sum.inl.inj (hstage.symm.trans hy)
      exact ⟨hlive, rfl⟩
    · cases hstage.symm.trans ha
  · refine ⟨⟨hworld, ⟨hshows.token.1, hnever⟩, fun y hy => ?_, fun b hb => ?_⟩, rfl⟩
    · cases hstage.symm.trans hy
    · obtain rfl := Sum.inr.inj (hstage.symm.trans hb)
      rfl

theorem Shows.step_ended (hshows : Shows f g e c t) {a : α} (ha : e.stage = .inr a)
    (stopFirst : Bool) : t.step c stopFirst = (c, t, false) := by
  rw [Task.step, if_pos]
  rw [Task.isDone, hshows.ended a ha]
  rfl

/-- As long as nothing has changed but the world, the task shows the call. -/
theorem Shows.meanwhile (hshows : Shows f g e c t) (c' : Cluster) :
    Shows f g (e.meanwhile c') c' t :=
  ⟨rfl, hshows.token, hshows.going, hshows.ended⟩

def Continued (act : Cluster → Bool → σ → Cluster × Progress σ α) (f : σ → Activity)
    (g : α → Outcome) (i : Nat) (e : Errand Cluster σ α) (c : Cluster) (t : Task) : Prop :=
  ∃ e', Errand.Run act (Around i) e e' ∧ Shows f g e' c t

theorem Shows.continued (hshows : Shows f g e c t) : Continued act f g i e c t :=
  ⟨e, .refl, hshows⟩

theorem Continued.trans {c' : Cluster} {t' : Task} (hcontinued : Continued act f g i e c t)
    (hon : ∀ e, Shows f g e c t → Continued act f g i e c' t') :
    Continued act f g i e c' t' := by
  obtain ⟨e₁, hrun₁, hshows₁⟩ := hcontinued
  obtain ⟨e₂, hrun₂, hshows₂⟩ := hon e₁ hshows₁
  exact ⟨e₂, hrun₁.trans hrun₂, hshows₂⟩

theorem Shows.step (hshows : Shows f g e c t) (hconducts : Conducts act f g) (stopFirst : Bool) :
    Continued act f g i e (t.step c stopFirst).1 (t.step c stopFirst).2.1 := by
  cases hstage : e.stage with
  | inl x =>
    exact ⟨_, .single (.stride e x hstage), (hshows.stride hconducts hstage stopFirst).1⟩
  | inr a =>
    rw [hshows.step_ended hstage]
    exact hshows.continued

theorem Shows.drain (hshows : Shows f g e c t) (hconducts : Conducts act f g) (limit : Nat) :
    Continued act f g i e (Machine.drain limit c t).1 (Machine.drain limit c t).2.1 := by
  induction limit generalizing e c t with
  | zero => exact hshows.continued
  | succ limit ih =>
    have hstep : Continued act f g i e (t.step c true).1 (t.step c true).2.1 :=
      hshows.step hconducts true
    rw [Machine.drain]
    generalize t.step c true = p at hstep
    obtain ⟨c', t', _ | _⟩ := p
    · exact hstep
    · exact hstep.trans fun e' hshows' => ih hshows'

/-- While the call does not have to wait, nobody else gets on. -/
theorem Shows.drain_straight (hshows : Shows f g e c t) (hconducts : Conducts act f g)
    {n limit : Nat} (hstraight : Errand.Straight act n e e₁) (hn : n ≤ limit) :
    Continued act f g i e₁ (Machine.drain limit c t).1 (Machine.drain limit c t).2.1 := by
  induction hstraight generalizing c t limit with
  | refl e => exact hshows.drain hconducts limit
  | @stride n e e₁ x hstage hmoves _ ih =>
    obtain ⟨limit, rfl⟩ : ∃ m, limit = m + 1 := ⟨limit - 1, by omega⟩
    obtain ⟨hshows', hmoved⟩ := hshows.stride hconducts hstage true
    rw [hmoves, Bool.not_false] at hmoved
    rw [Machine.drain]
    generalize t.step c true = p at hshows' hmoved
    obtain ⟨c', t', moved⟩ := p
    dsimp only at hmoved
    subst hmoved
    exact ih hshows' (Nat.le_of_succ_le_succ hn)

/-! ## Other tasks -/

theorem Shows.others_step (hshows : Shows f g e c t) (u : Task) (stopFirst : Bool) :
    Continued act f g i e (u.step c stopFirst).1 t := by
  cases hlive : u.outcome with
  | some o =>
    rw [Task.step, if_pos (by rw [Task.isDone, hlive]; rfl)]
    exact hshows.continued
  | none =>
    rw [(Network.step_of_live stopFirst hlive rfl).1]
    have haround : Around i c (u.activity.step c (u.isCancelled c.now) stopFirst).1 :=
      around_step i u.activity
    rw [← hshows.world] at haround ⊢
    exact ⟨_, .single (.others e _ haround), hshows.meanwhile _⟩

theorem Shows.others_drain (hshows : Shows f g e c t) (u : Task) (limit : Nat) :
    Continued act f g i e (Machine.drain limit c u).1 t := by
  induction limit generalizing e c u with
  | zero => exact hshows.continued
  | succ limit ih =>
    have hstep : Continued act f g i e (u.step c true).1 t := hshows.others_step u true
    rw [Machine.drain]
    generalize u.step c true = p at hstep
    obtain ⟨c', u', _ | _⟩ := p
    · exact hstep
    · exact hstep.trans fun e' hshows' => ih hshows' u'

theorem Shows.others_drainAll (hshows : Shows f g e c t) (us : List Task) (limit : Nat) :
    Continued act f g i e (Machine.drainAll limit c us).1 t := by
  induction us generalizing e c with
  | nil => exact hshows.continued
  | cons u rest ih =>
    have hdrain : Continued act f g i e (Machine.drain limit c u).1 t := hshows.others_drain u limit
    exact hdrain.trans fun e' hshows' => ih hshows'

/-! ## Machines -/

def Leads (act : Cluster → Bool → σ → Cluster × Progress σ α)
    (f : σ → Activity) (g : α → Outcome)
    (i : Nat) (e : Errand Cluster σ α) (m : Machine) : Prop :=
  ∃ t rest, m.tasks = t :: rest ∧ Continued act f g i e m.cluster t

theorem Leads.trans {m m' : Machine} (hleads : Leads act f g i e m)
    (hon : ∀ e t rest, m.tasks = t :: rest → Shows f g e m.cluster t → Leads act f g i e m') :
    Leads act f g i e m' := by
  obtain ⟨t, rest, htasks, e₁, hrun₁, hshows₁⟩ := hleads
  obtain ⟨t', rest', htasks', e₂, hrun₂, hshows₂⟩ := hon e₁ t rest htasks hshows₁
  exact ⟨t', rest', htasks', e₂, hrun₁.trans hrun₂, hshows₂⟩

/-- When all tasks have gone on, the first one has gone on before the others. -/
theorem leads_round {m : Machine} {rest : List Task} (htasks : m.tasks = t :: rest) {limit : Nat}
    (hdrain : Continued act f g i e (Machine.drain limit m.cluster t).1
      (Machine.drain limit m.cluster t).2.1) : Leads act f g i e (round limit m) := by
  rw [round, htasks, Machine.drainAll]
  exact ⟨_, _, rfl, hdrain.trans fun e' hshows' => hshows'.others_drainAll rest limit⟩

theorem leads_moveTo {m : Machine} {rest : List Task} (htasks : m.tasks = t :: rest)
    (hshows : Shows f g e m.cluster t) (time : Nat) : Leads act f g i e (m.moveTo time) := by
  refine ⟨t, rest, htasks, _, .single (.others e (m.moveTo time).cluster ?_),
    hshows.meanwhile _⟩
  rw [hshows.world]
  exact around_clock i m.cluster time

theorem goes_leads (hconducts : Conducts act f g) (limit : Nat) :
    Goes limit fun m m' => ∀ e, Leads act f g i e m → Leads act f g i e m' where
  refl _ _ hleads := hleads
  trans honce htwice e hleads := htwice e (honce e hleads)
  round _ _ hleads := hleads.trans fun _ _ _ htasks hshows =>
    leads_round htasks (hshows.drain hconducts limit)
  clock _ time _ hleads := hleads.trans fun _ _ _ htasks hshows => leads_moveTo htasks hshows time

/-- A call that a server waits for goes on as calls among others do; as long as it does not have to
wait, nobody else gets on. -/
theorem leads_awaited {s : Server} (hconducts : Conducts act f g) {x : σ} {n : Nat}
    (hstraight : Errand.Straight act n ⟨s.cluster, .inl x, false, [], []⟩ e₁)
    (hn : n ≤ runBound) : Leads act f g i e₁ (s.awaited { activity := f x }) := by
  obtain ⟨limit, hlimit⟩ : ∃ limit, runBound = limit + 1 := ⟨99999, rfl⟩
  have hfirst := (shows_begun f g s.cluster x).drain_straight (i := i) hconducts hstraight hn
  rw [awaited, hlimit]
  rw [hlimit] at hfirst
  exact (goes_leads hconducts (limit + 1)).of_round _ _ e₁ (leads_round rfl hfirst)

structure Awaits (f : σ → Activity) (g : α → Outcome) (e : Errand Cluster σ α) (s : Server)
    (p : Server × Option Outcome) : Prop where
  server : ∃ m, p.1 = { s with machine := m } ∧ m.cluster = e.world
  never : e.cancelled = false
  endless : ∀ x, e.stage = .inl x → p.2 = none
  ended : ∀ a, e.stage = .inr a → p.2 = some (g a)

theorem exists_awaits {s : Server} (hconducts : Conducts act f g) {x : σ} {n : Nat}
    (hstraight : Errand.Straight act n ⟨s.cluster, .inl x, false, [], []⟩ e₁)
    (hn : n ≤ runBound) :
    ∃ e, Errand.Run act (Around i) e₁ e ∧ Awaits f g e s (s.await { activity := f x }) := by
  obtain ⟨t, rest, htasks, e, hrun, hshows⟩ := leads_awaited (i := i) hconducts hstraight hn
  refine ⟨e, hrun, ?_⟩
  rw [await_eq htasks]
  exact ⟨⟨_, rfl, hshows.world.symm⟩, hshows.token.2, fun y hy => (hshows.going y hy).1,
    hshows.ended⟩

end EventHub.Web.Server
