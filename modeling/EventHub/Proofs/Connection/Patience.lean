import EventHub.Proofs.Connection.Deadlines
import EventHub.Proofs.Connection.Sends
/-!
# How long a write waits

The patience of a write runs from the moment at which it comes first in line, not from its
beginning. So a write that begins behind others may wait for as long as all of them may, one after
the other, and then for its own patience; and no longer. Here the clock goes on only while the
first in line can do nothing but wait.
-/

namespace EventHub.Connection.Traffic

open Outbox (Turn)

variable {s t t' : Traffic} {capacity buffer patience : Nat} {i : Nat} {c : Call}

/-! ## A clock that waits for the first in line -/

def Still (t : Traffic) (time : Nat) : Prop :=
  ∀ x rest, t.outbox.line = x :: rest → t.outbox.receiverGone = false ∧
    t.outbox.capacity ≤ t.outbox.queue.length ∧ ∃ d, x.deadline = some d ∧ time ≤ d

/-- All that can happen if no call is late. -/
inductive TimedStep : Traffic → Traffic → Prop where
  | writes {t t' : Traffic} (hwrites : Writes t t') : TimedStep t t'
  | receive (t : Traffic) : TimedStep t t.receive
  | dropReceiver (t : Traffic) : TimedStep t (t.setOutbox t.outbox.dropReceiver)
  | wait (t : Traffic) (time : Nat) (hlater : t.now ≤ time) (hstill : t.Still time) :
      TimedStep t { t with now := time }

def TimedRun : Traffic → Traffic → Prop := Relation.ReflTransGen TimedStep

/-- What a connection can come to whose stream has just been opened, if no call is late. -/
inductive TimedReachable (buffer patience : Nat) : Traffic → Prop where
  | opened (now : Nat) (x : Connection)
      (hwriter : x.writer = .outbox (.ofSettings buffer patience)) :
      TimedReachable buffer patience { now := now, connection := x }
  | step {t t' : Traffic} : TimedReachable buffer patience t → TimedStep t t' →
      TimedReachable buffer patience t'

/-- A call that begins with no more than some calls in line before it is not under way after the
given time. -/
def WaitsAtMost (buffer patience ahead time : Nat) : Prop :=
  ∀ (s t : Traffic) (i : Nat) (c d : Call) (cancelled : Bool),
    TimedReachable buffer patience s →
    s.outbox.line.length ≤ ahead → s.calls[i]? = some c → c.IsFresh →
    TimedRun (s.poll i cancelled c) t → t.calls[i]? = some d → ¬ d.Ended →
      t.now ≤ s.now + time

theorem TimedStep.step (hstep : TimedStep t t') : Step t t' := by
  cases hstep with
  | writes hwrites => exact hwrites.step
  | receive => exact .receive t
  | dropReceiver => exact .dropReceiver t
  | wait time hlater _ => exact .wait t time hlater

theorem TimedRun.run (hrun : TimedRun t t') : Run t t' := by
  induction hrun with
  | refl => exact .refl
  | tail _ hstep ih => exact ih.tail hstep.step

theorem TimedReachable.reachable (ht : TimedReachable buffer patience t) :
    Reachable buffer patience t := by
  induction ht with
  | opened now x hwriter => exact .opened now x hwriter
  | step _ hstep ih => exact ih.step hstep.step

theorem TimedReachable.run (hs : TimedReachable buffer patience s) (hrun : TimedRun s t) :
    TimedReachable buffer patience t := by
  induction hrun with
  | refl => exact hs
  | tail _ hstep ih => exact ih.step hstep

/-! ## Those who wait stand in line -/

def Standing (t : Traffic) : Prop :=
  ∀ (i : Nat) (c : Call) (id : Nat), t.calls[i]? = some c → c.turn? = some id →
    ∃ p ∈ t.outbox.turns, p.1 = id

/-- A call ends, and whoever has left the line is that call. -/
theorem standing_end (horderly : t.Orderly capacity) (hstanding : t.Standing)
    (hc : t.calls[i]? = some c) {d : Call} (hended : d.turn? = none)
    (hcalls : t'.calls = t.calls.set i d)
    (hkept : ∀ p ∈ t.outbox.turns, c.turn? ≠ some p.1 → p ∈ t'.outbox.turns) :
    t'.Standing := by
  intro j e id he hturn
  rw [hcalls] at he
  rcases of_getElem?_set he with ⟨_, rfl⟩ | ⟨hij, he⟩
  · rw [hended] at hturn
    cases hturn
  · obtain ⟨p, hp, rfl⟩ := hstanding j e id he hturn
    refine ⟨p, hkept p hp fun hown => hij ?_, rfl⟩
    have hi := horderly.turn i c p.1 hc hown
    have hj := horderly.turn j e p.1 he hturn
    rw [hi, Option.some.injEq] at hj
    exact hj

theorem standing_same (hstanding : t.Standing) (hcalls : t'.calls = t.calls)
    (hturns : t'.outbox.turns = t.outbox.turns) : t'.Standing := by
  intro i c id hc hturn
  rw [hturns]
  exact hstanding i c id (hcalls ▸ hc) hturn

theorem Act.standing (hact : Act t t') (horderly : t.Orderly capacity) (hstanding : t.Standing) :
    t'.Standing := by
  cases hact with
  | call frame direct =>
    intro i c id hc hturn
    rcases of_getElem?_append hc with hc | rfl
    · exact hstanding i c id hc hturn
    · cases direct <;> cases hturn
  | enter i c hc hfresh hopen =>
    intro j d id hd hturn
    have hturns : (t.enter i c).outbox.turns =
        t.outbox.turns ++ [(t.outbox.nextTurn, c.frame)] := by
      simp [Outbox.turns, Outbox.enter]
    rw [hturns]
    rcases of_getElem?_set hd with ⟨_, rfl⟩ | ⟨_, hd⟩
    · rw [turn_withTurn, Option.some.injEq] at hturn
      exact ⟨_, List.mem_append_right _ (List.mem_singleton_self _), hturn⟩
    · obtain ⟨p, hp, hid⟩ := hstanding j d id hd hturn
      exact ⟨p, List.mem_append_left _ hp, hid⟩
  | refuse i c hc hfresh e _ =>
    exact standing_end horderly hstanding hc rfl rfl fun p hp _ => hp
  | forget i c hc hfresh => exact standing_end horderly hstanding hc rfl rfl fun p hp _ => hp
  | wait line hturns => exact standing_same hstanding rfl hturns
  | accept i c hc x hturn rest hline _ =>
    refine standing_end horderly hstanding hc rfl rfl fun p hp hother => ?_
    rw [Outbox.turns_cons hline] at hp
    exact (List.mem_cons.mp hp).resolve_left fun hfirst => hother (hfirst ▸ hturn)
  | fail i c hc x hturn rest hline e =>
    refine standing_end horderly hstanding hc rfl rfl fun p hp hother => ?_
    rw [Outbox.turns_cons hline] at hp
    exact (List.mem_cons.mp hp).resolve_left fun hfirst => hother (hfirst ▸ hturn)
  | leave i c hc id hturn stage hstage =>
    have hended : Call.turn? { c with stage := stage } = none := by
      rcases hstage with rfl | rfl <;> rfl
    refine standing_end horderly hstanding hc hended rfl fun p hp hother => ?_
    rw [outbox_setCall, outbox_setOutbox, turns_abandon]
    refine List.mem_filter.mpr ⟨hp, decide_eq_true ?_⟩
    rintro rfl
    exact hother hturn
  | dispose closing =>
    refine standing_same hstanding rfl ?_
    rw [outbox_dispose horderly.toSound]
    rfl
  | markDead => exact standing_same hstanding rfl rfl
  | receive =>
    cases hqueue : t.outbox.queue with
    | nil =>
      rw [receive_nil horderly.toSound hqueue]
      exact hstanding
    | cons f rest =>
      rw [receive_cons hqueue]
      exact standing_same hstanding rfl rfl
  | dropReceiver => exact standing_same hstanding rfl rfl
  | clock time => exact standing_same hstanding rfl rfl

theorem Acts.standing (hacts : Acts t t') (horderly : t.Orderly capacity)
    (hstanding : t.Standing) : t'.Standing := by
  induction hacts with
  | refl => exact hstanding
  | tail hacts hact ih => exact hact.standing (Acts.orderly hacts horderly) ih

theorem Reachable.standing (ht : Reachable buffer patience t) : t.Standing := by
  induction ht with
  | opened now x hwriter => simp [Standing]
  | step ht hstep ih => exact Acts.standing (hstep.acts ht.orderly.toSound) ht.orderly ih

theorem Step.asked_prefix (hstep : Step t t') : t.asked <+: t'.asked := by
  cases hstep with
  | poll i c hc cancelled =>
    have hasked : (t.poll i cancelled c).asked =
        if t.outbox.nextTurn < (c.poll t.connection t.now cancelled).1.outbox.nextTurn
        then t.asked ++ [i] else t.asked := rfl
    rw [hasked]
    split
    · exact List.prefix_append _ _
    · exact List.prefix_rfl
  | receive =>
    unfold Traffic.receive
    split <;> exact List.prefix_rfl
  | call | drop | dispose | markDead | dropReceiver | wait => exact List.prefix_rfl

theorem Run.asked_prefix (hrun : Run t t') : t.asked <+: t'.asked := by
  induction hrun with
  | refl => exact List.prefix_rfl
  | tail _ hstep ih => exact ih.trans hstep.asked_prefix

/-! ## Nobody waits longer than those before him -/

theorem Writes.outbox_moves (hwrites : Writes t t') (hsound : t.Sound) :
    Outbox.Moves t.now t.outbox t'.outbox := by
  have hmoves := hwrites.moves
  obtain ⟨o, hwriter⟩ := hsound.writer
  rw [outbox_eq hwriter]
  rw [hwriter] at hmoves
  cases hwriter' : t'.connection.writer with
  | outbox o' =>
    rw [hwriter'] at hmoves
    rw [outbox_eq hwriter']
    exact hmoves
  | recorder r =>
    rw [hwriter'] at hmoves
    exact hmoves.elim

theorem line_receive (hsound : t.Sound) : t.receive.outbox.line = t.outbox.line ∧
    t.receive.outbox.patience = t.outbox.patience ∧
      t.receive.outbox.nextTurn = t.outbox.nextTurn ∧ t.receive.now = t.now := by
  cases hqueue : t.outbox.queue with
  | nil =>
    rw [receive_nil hsound hqueue]
    exact ⟨rfl, rfl, rfl, rfl⟩
  | cons f rest =>
    rw [receive_cons hqueue]
    exact ⟨rfl, rfl, rfl, rfl⟩

/-- The patience of the outbox is the given one, and only that of the first in line runs. -/
structure OnTime (patience : Nat) (t : Traffic) : Prop where
  patience_eq : t.outbox.patience = patience
  punctual : t.outbox.Punctual t.now

/-- A turn has been given, and whoever stands in line with it has given up by the time. -/
def GivesUpBy (t : Traffic) (id time : Nat) : Prop :=
  id < t.outbox.nextTurn ∧ ∀ x ∈ t.outbox.line, x.id = id → t.outbox.due t.now id ≤ time

theorem onTime_of_noLater (hontime : t.OnTime patience) (hpunctual : t'.outbox.Punctual t.now)
    (hnow : t'.now = t.now) (hlater : Outbox.NoLater t.now t.outbox t'.outbox) :
    t'.OnTime patience ∧ ∀ id time, t.GivesUpBy id time → t'.GivesUpBy id time := by
  refine ⟨⟨hlater.patience_eq.trans hontime.patience_eq, hnow ▸ hpunctual⟩, ?_⟩
  rintro _ time ⟨hid, hdue⟩
  refine ⟨Nat.lt_of_lt_of_le hid hlater.nextTurn_le, ?_⟩
  rintro x hx rfl
  obtain ⟨⟨y, hy, hyid⟩, hle⟩ := hlater.due_le x hx hid
  rw [hnow]
  exact Nat.le_trans hle (hdue y hy hyid)

theorem TimedStep.onTime (hstep : TimedStep t t') (hsound : t.Sound)
    (hontime : t.OnTime patience) :
    t'.OnTime patience ∧ ∀ id time, t.GivesUpBy id time → t'.GivesUpBy id time := by
  cases hstep with
  | writes hwrites =>
    obtain ⟨hpunctual, hlater⟩ := (hwrites.outbox_moves hsound).noLater hontime.punctual
    exact onTime_of_noLater hontime hpunctual hwrites.frame.2 hlater
  | receive =>
    obtain ⟨hline, hpatience, hnext, hnow⟩ := line_receive hsound
    have hsub : t.receive.outbox.line.Sublist t.outbox.line := hline ▸ .refl _
    exact onTime_of_noLater hontime (hontime.punctual.of_sublist hsub hpatience hnext) hnow
      (hontime.punctual.noLater_of_sublist hsub hpatience hnext)
  | dropReceiver =>
    exact onTime_of_noLater hontime (hontime.punctual.of_sublist (.refl _) rfl rfl) rfl
      (hontime.punctual.noLater_of_sublist (.refl _) rfl rfl)
  | wait time hlater hstill =>
    have hdeadline {x : Turn} (hx : x ∈ t.outbox.line) :
        ∃ d, t.outbox.deadline? = some d ∧ time ≤ d := by
      cases hline : t.outbox.line with
      | nil =>
        rw [hline] at hx
        cases hx
      | cons y rest =>
        obtain ⟨_, _, d, hd, hle⟩ := hstill y rest hline
        exact ⟨d, by rw [Outbox.deadline?, hline]; exact hd, hle⟩
    obtain ⟨hpatience, hsorted, hbelow, hbehind, hcurrent⟩ := hontime
    refine ⟨⟨hpatience, hsorted, hbelow, hbehind, fun d hd => ?_⟩, ?_⟩
    · obtain ⟨x, hx, _⟩ := Option.bind_eq_some_iff.mp hd
      obtain ⟨d', hd', hle⟩ := hdeadline (List.mem_of_mem_head? hx)
      obtain rfl : d' = d := by simpa [hd'] using hd
      exact ⟨hle, Nat.le_trans (hcurrent d' hd').2 (Nat.add_le_add_right hlater _)⟩
    · rintro _ limit ⟨hid, hdue⟩
      refine ⟨hid, ?_⟩
      rintro x hx rfl
      have hdue := hdue x hx rfl
      obtain ⟨d, hd, _⟩ := hdeadline hx
      rw [Outbox.due, hd, Option.getD_some] at hdue ⊢
      exact hdue

theorem TimedRun.onTime (hrun : TimedRun t t') (horderly : t.Orderly capacity)
    (hontime : t.OnTime patience) :
    t'.OnTime patience ∧ ∀ id time, t.GivesUpBy id time → t'.GivesUpBy id time := by
  induction hrun with
  | refl => exact ⟨hontime, fun _ _ h => h⟩
  | tail hrun hstep ih =>
    have hsound := (Run.orderly (TimedRun.run hrun) horderly).toSound
    obtain ⟨hontime', hgives⟩ := hstep.onTime hsound ih.1
    exact ⟨hontime', fun id time h => hgives id time (ih.2 id time h)⟩

theorem TimedReachable.onTime (ht : TimedReachable buffer patience t) : t.OnTime patience := by
  induction ht with
  | opened now x hwriter =>
    have houtbox : x.outbox = .ofSettings buffer patience := by simp [Connection.outbox, hwriter]
    constructor
    · rw [outbox, houtbox]
      rfl
    · constructor <;> simp [outbox, houtbox, Outbox.ofSettings, Outbox.deadline?]
  | step ht hstep ih => exact (hstep.onTime ht.reachable.orderly.toSound ih).1

/-- A call that begins is given a turn, if it does not end at once, and gives up when those before
it and it itself have run out of patience. -/
theorem givesUpBy_enter (hontime : t.OnTime patience) {o : Outbox} (i : Nat) (c : Call)
    (hresume : (t.outbox.enter c.frame).resume t.now t.outbox.nextTurn = (o, none)) :
    ((t.enter i c).setOutbox o).GivesUpBy t.outbox.nextTurn
      (t.now + (t.outbox.line.length + 1) * patience) := by
  have hlater := ((hontime.punctual.enter c.frame).resume t.outbox.nextTurn).2
  rw [hresume] at hlater
  have hlt : t.outbox.nextTurn < (t.outbox.enter c.frame).nextTurn := Nat.lt_succ_self _
  refine ⟨Nat.lt_of_lt_of_le hlt hlater.nextTurn_le, fun x hx hid => ?_⟩
  have hdue := (hlater.due_le x hx (hid ▸ hlt)).2
  rw [hid] at hdue
  rw [← hontime.patience_eq]
  exact Nat.le_trans hdue (hontime.punctual.due_enter_le c.frame)

/-- A call that is under way with a turn is not past the time by which it gives up. -/
theorem TimedReachable.now_le (ht : TimedReachable buffer patience t) {id time : Nat}
    (hasked : t.asked[id]? = some i) (hgives : t.GivesUpBy id time) (hc : t.calls[i]? = some c)
    (hpending : ¬ c.Ended) : t.now ≤ time := by
  have horderly := ht.reachable.orderly
  rcases horderly.placed i c hc with hfresh | ⟨id', hturn⟩ | hended
  · exact absurd (List.mem_of_getElem? hasked) (horderly.not_asked hc hfresh)
  · have hid := horderly.turn i c id' hc hturn
    have hlt := (List.getElem?_eq_some_iff.mp hid).1
    obtain rfl := (List.getElem?_inj hlt horderly.asked_nodup).mp (hid.trans hasked.symm)
    obtain ⟨p, hp, hpid⟩ := ht.reachable.standing i c _ hc hturn
    obtain ⟨x, hx, rfl⟩ := List.mem_map.mp hp
    exact Nat.le_trans (ht.onTime.punctual.le_due id') (hgives.2 x hx hpid)
  · exact absurd hended hpending

theorem waitsAtMost_of_le {ahead time : Nat} (hle : (ahead + 1) * patience ≤ time) :
    WaitsAtMost buffer patience ahead time := by
  intro s t i c d cancelled hs hahead hc hfresh hrun hd hpending
  have horderly := hs.reachable.orderly
  have hs' := hs.step (.writes (.poll s i c hc cancelled))
  rcases poll_begins horderly.toSound hfresh i cancelled with
    ⟨o, hresume, hpoll⟩ | ⟨r, hreturned, _⟩
  · have hgives := givesUpBy_enter hs.onTime i c hresume
    rw [← hpoll] at hgives
    have hnew : (s.poll i cancelled c).asked[s.outbox.nextTurn]? = some i := by
      rw [hpoll, asked_setOutbox]
      exact horderly.asked_nextTurn i c
    have hasked : t.asked[s.outbox.nextTurn]? = some i := by
      obtain ⟨later, hlater⟩ := Run.asked_prefix (TimedRun.run hrun)
      rw [← hlater, List.getElem?_append_left (List.getElem?_eq_some_iff.mp hnew).1, hnew]
    have hnow := (hs'.run hrun).now_le hasked
      ((TimedRun.onTime hrun hs'.reachable.orderly hs'.onTime).2 _ _ hgives) hd hpending
    have hmul := Nat.mul_le_mul_right patience (Nat.add_le_add_right hahead 1)
    omega
  · have hended := Run.returned (TimedRun.run hrun) (calls_poll_self hc cancelled)
      (by rw [hreturned])
    rw [hd, hreturned, Option.some.injEq] at hended
    exact absurd (.inr ⟨r, by rw [hended]⟩) hpending

/-! ## Somebody waits that long -/

/-- Nothing but its patience can get the first in line on. -/
structure Stalled (t : Traffic) (deadline : Nat) : Prop where
  receiver : t.outbox.receiverGone = false
  full : t.outbox.capacity ≤ t.outbox.queue.length
  deadline_eq : t.outbox.deadline? = some deadline
  later : t.now ≤ deadline

theorem Stalled.wait {deadline : Nat} (hstalled : t.Stalled deadline) :
    TimedStep t { t with now := deadline } := by
  refine .wait t deadline hstalled.later fun x rest hline =>
    ⟨hstalled.receiver, hstalled.full, ?_⟩
  have hdeadline := hstalled.deadline_eq
  rw [Outbox.deadline?, hline] at hdeadline
  exact ⟨deadline, hdeadline, Nat.le_refl _⟩

/-- The first in line is polled for the first time since it came there. -/
theorem timedStep_first (horderly : t.Orderly capacity) {x : Turn} {rest : List Turn}
    (hline : t.outbox.line = x :: rest) (hfirst : x.deadline = none)
    (hreceiver : t.outbox.receiverGone = false)
    (hfull : t.outbox.capacity ≤ t.outbox.queue.length) (hpositive : 0 < t.outbox.patience) :
    TimedStep t (t.setOutbox { t.outbox with
      line := { x with deadline := some (t.now + t.outbox.patience) } :: rest }) := by
  obtain ⟨o, hwriter⟩ := horderly.writer
  have ho : t.outbox = o := outbox_eq hwriter
  obtain ⟨i, c, _, hc, hturn, _⟩ :=
    horderly.holder (x.id, x.frame) (by simp [Outbox.turns_cons hline])
  have hresume := Outbox.resume_first_full t.now hline hfirst (shut_of_nonempty horderly hline)
    hreceiver hfull hpositive
  obtain ⟨finishing, hpoll⟩ := poll_turn hwriter false
    ((turn_eq_some hturn).imp_left fun hstage => ⟨hstage, rfl⟩)
  rw [← ho, hresume] at hpoll
  have hstep : TimedStep t (t.poll i false c) := .writes (.poll t i c hc false)
  rw [poll_keeps hpoll (by rfl), set_self hc] at hstep
  exact hstep

/-- The first in line leaves when its patience has run out, and the next one starts to wait. -/
theorem exists_next (horderly : t.Orderly capacity) (hontime : t.OnTime patience)
    (hpositive : 0 < patience) {deadline : Nat} (hstalled : t.Stalled deadline)
    {p : Nat × String} {turns : List (Nat × String)} (hturns : t.outbox.turns = p :: turns)
    (hmore : turns ≠ []) :
    ∃ t', TimedRun t t' ∧ t'.Stalled (deadline + patience) ∧ t'.outbox.turns = turns ∧
      t'.asked = t.asked ∧ ∀ j, t.asked[p.1]? ≠ some j → t'.calls[j]? = t.calls[j]? := by
  obtain ⟨x, line, hline, rfl, rfl⟩ := List.map_eq_cons_iff.mp hturns
  obtain ⟨i, c, hi, hc, hcturn, _⟩ := horderly.holder (x.id, x.frame) (by simp [hturns])
  cases line with
  | nil => exact absurd rfl hmore
  | cons y rest =>
    have hwait : TimedRun t { t with now := deadline } := .single hstalled.wait
    have hdrop : TimedRun t (({ t with now := deadline } : Traffic).drop i c) :=
      hwait.tail (.writes (.drop _ i c hc))
    have hleft : (({ t with now := deadline } : Traffic).drop i c).outbox =
        t.outbox.abandon x.id :=
      outbox_drop (Run.orderly (TimedRun.run hwait) horderly) i hcturn
    generalize hu : ({ t with now := deadline } : Traffic).drop i c = u at hdrop hleft
    have huline : u.outbox.line = y :: rest := by
      rw [hleft]
      exact line_abandon_first horderly hline
    have hfirst : y.deadline = none := by
      have hbehind := hontime.punctual.behind
      rw [hline] at hbehind
      exact hbehind y (by simp)
    have hupatience : u.outbox.patience = patience := by
      rw [hleft]
      exact hontime.patience_eq
    have hunow : u.now = deadline := by rw [← hu]; rfl
    have hstep := timedStep_first (Run.orderly (TimedRun.run hdrop) horderly) huline hfirst
      (by rw [hleft]; exact hstalled.receiver) (by rw [hleft]; exact hstalled.full)
      (by rw [hupatience]; exact hpositive)
    rw [hupatience, hunow] at hstep
    refine ⟨_, hdrop.tail hstep, ⟨?_, ?_, rfl, ?_⟩, rfl, ?_, fun j hj => ?_⟩
    · rw [outbox_setOutbox, hleft]
      exact hstalled.receiver
    · rw [outbox_setOutbox, hleft]
      exact hstalled.full
    · rw [← hu]
      exact Nat.le_add_right deadline patience
    · rw [← hu]
      rfl
    · have hcalls : u.calls = t.calls.set i (c.drop t.connection).2 := by rw [← hu]; rfl
      have hij : i ≠ j := fun hij => hj (hij ▸ hi)
      rw [calls_setOutbox, hcalls, List.getElem?_set_ne hij]

/-- Each of those in front waits in vain for as long as it can, and then the call itself does. -/
theorem exists_pending (horderly : t.Orderly capacity) (hontime : t.OnTime patience)
    (hpositive : 0 < patience) {deadline : Nat} (hstalled : t.Stalled deadline)
    {before after : List (Nat × String)} {p : Nat × String}
    (hturns : t.outbox.turns = before ++ p :: after) {j : Nat} (hj : t.asked[p.1]? = some j) :
    ∃ t', TimedRun t t' ∧ t'.now = deadline + before.length * patience ∧
      t'.calls[j]? = t.calls[j]? := by
  induction before generalizing t deadline with
  | nil => exact ⟨_, .single hstalled.wait, by simp, rfl⟩
  | cons q before ih =>
    obtain ⟨u, hrun, hstalled', hturns', hasked, hcalls⟩ :=
      exists_next horderly hontime hpositive hstalled hturns (by simp)
    have hqp : q.1 < p.1 := by
      have hsorted := horderly.sorted
      rw [hturns, List.cons_append, List.pairwise_cons] at hsorted
      exact hsorted.1 p (by simp)
    have hother : t.asked[q.1]? ≠ some j := by
      intro hq
      have hlt := (List.getElem?_eq_some_iff.mp hq).1
      have heq := (List.getElem?_inj hlt horderly.asked_nodup).mp (hq.trans hj.symm)
      omega
    obtain ⟨t', hrun', hnow, hcall⟩ := ih (Run.orderly (TimedRun.run hrun) horderly)
      (TimedRun.onTime hrun horderly hontime).1 hstalled' hturns' (hasked ▸ hj)
    refine ⟨t', hrun.trans hrun', ?_, hcall.trans (hcalls j hother)⟩
    rw [hnow, List.length_cons, Nat.succ_mul]
    omega

/-- The outbox takes writes but has no room, and whoever is first in line started to wait now. -/
structure Crowded (patience : Nat) (t : Traffic) : Prop where
  disposed : t.outbox.disposed = false
  sender : t.outbox.senderGone = false
  receiver : t.outbox.receiverGone = false
  full : t.outbox.capacity ≤ t.outbox.queue.length
  first : t.outbox.line ≠ [] → t.outbox.deadline? = some (t.now + patience)

def called (t : Traffic) : Traffic := { t with calls := t.calls ++ [.fresh "" true] }

def joined (t : Traffic) : Traffic := t.called.poll t.calls.length false (.fresh "" true)

theorem called_getElem (t : Traffic) : t.called.calls[t.calls.length]? = some (.fresh "" true) :=
  List.getElem?_concat_length

theorem timedStep_joined (t : Traffic) : TimedStep t.called t.joined :=
  .writes (.poll _ _ _ t.called_getElem false)

theorem joined_eq (ht : TimedReachable buffer patience t) (hpositive : 0 < patience)
    (hcrowded : t.Crowded patience) : ∃ line,
      t.joined = (t.called.enter t.calls.length (.fresh "" true)).setOutbox
        { t.outbox.enter "" with line := line } ∧
      Outbox.turns { t.outbox with line := line } = t.outbox.turns ++ [(t.outbox.nextTurn, "")] ∧
      Outbox.deadline? { t.outbox with line := line } = some (t.now + patience) := by
  obtain ⟨hpatience, hpunctual⟩ := ht.onTime
  obtain ⟨line, hresume, hturns, hdeadline⟩ := Outbox.enter_waits hpunctual hcrowded.sender
    hcrowded.receiver hcrowded.full (by rw [hpatience]; exact hpositive)
    (by rw [hpatience]; exact hcrowded.first) ""
  rw [hpatience] at hdeadline
  have hsound : t.called.Sound :=
    (ht.step (.writes (.call t "" true))).reachable.orderly.toSound
  have hasks : t.called.PollAsks false (.fresh "" true) :=
    pollAsks_of_proceeds hsound hcrowded.disposed (Or.inr rfl)
  exact ⟨line, poll_enter hasks t.calls.length hresume, hturns, hdeadline⟩

theorem Crowded.joined (ht : TimedReachable buffer patience t) (hpositive : 0 < patience)
    (hcrowded : t.Crowded patience) : t.joined.Crowded patience := by
  obtain ⟨line, hjoined, _, hdeadline⟩ := joined_eq ht hpositive hcrowded
  rw [hjoined]
  exact ⟨hcrowded.disposed, hcrowded.sender, hcrowded.receiver,
    hcrowded.full, fun _ => hdeadline⟩

theorem exists_filled (buffer patience count : Nat) (hcount : count ≤ max buffer 1) :
    ∃ t, TimedReachable buffer patience t ∧ t.outbox.line = [] ∧
      t.outbox.queue.length = count ∧ t.outbox.disposed = false ∧
      t.outbox.senderGone = false ∧
      t.outbox.receiverGone = false := by
  induction count with
  | zero =>
    exact ⟨_,
      .opened 0 { id := ⟨""⟩, client := "", writer := .outbox (.ofSettings buffer patience) }
      rfl, rfl, rfl, rfl, rfl, rfl⟩
  | succ count ih =>
    obtain ⟨t, ht, hline, hqueue, hdisposed, hsender, hreceiver⟩ :=
      ih (Nat.le_of_succ_le hcount)
    have hcalled := ht.step (.writes (.call t "" true))
    have hroom : t.outbox.queue.length < t.outbox.capacity := by
      rw [ht.reachable.orderly.capacity_eq, hqueue]
      exact hcount
    have hasks : t.called.PollAsks false (.fresh "" true) :=
      pollAsks_of_proceeds hcalled.reachable.orderly.toSound hdisposed (Or.inr rfl)
    obtain ⟨_, finishing, hpoll⟩ := hasks
    have henter : (t.outbox.enter "").line = [⟨t.outbox.nextTurn, "", none⟩] := by
      simp [Outbox.enter, hline]
    have hresume : (t.called.outbox.enter (Call.fresh "" true).frame).resume t.called.now
        t.called.outbox.nextTurn =
          ({ t.outbox.enter "" with line := [], queue := t.outbox.queue ++ [""] },
            some (.ok ())) :=
      Outbox.resume_first (o := t.outbox.enter "") t.now henter hsender hreceiver hroom
    rw [hresume] at hpoll
    have houtbox : t.joined.outbox =
        { t.outbox.enter "" with line := [], queue := t.outbox.queue ++ [""] } := by
      have hconnection : t.joined.connection =
          (Call.poll t.called.connection t.called.now false (.fresh "" true)).1 := rfl
      rw [outbox, hconnection, hpoll]
      cases finishing <;> rfl
    refine ⟨_, hcalled.step (timedStep_joined t), ?_⟩
    rw [houtbox]
    exact ⟨rfl, by simp [hqueue], hdisposed, hsender, hreceiver⟩

theorem exists_crowded (buffer : Nat) {patience : Nat} (hpositive : 0 < patience) (count : Nat) :
    ∃ t, TimedReachable buffer patience t ∧ t.Crowded patience ∧
      t.outbox.turns.length = count := by
  induction count with
  | zero =>
    obtain ⟨t, ht, hline, hqueue, hdisposed, hsender, hreceiver⟩ :=
      exists_filled buffer patience _ (Nat.le_refl _)
    refine ⟨t, ht, ⟨hdisposed, hsender, hreceiver, ?_, fun h => absurd hline h⟩, ?_⟩
    · exact Nat.le_of_eq (ht.reachable.orderly.capacity_eq.trans hqueue.symm)
    · simp [Outbox.turns, hline]
  | succ count ih =>
    obtain ⟨t, ht, hcrowded, hcount⟩ := ih
    have hcalled := ht.step (.writes (.call t "" true))
    refine ⟨t.joined, hcalled.step (timedStep_joined t), hcrowded.joined ht hpositive, ?_⟩
    obtain ⟨line, hjoined, hturns, _⟩ := joined_eq ht hpositive hcrowded
    have hline : t.joined.outbox.turns = Outbox.turns { t.outbox with line := line } := by
      rw [hjoined]
      rfl
    rw [hline, hturns, List.length_append, hcount]
    rfl

theorem le_of_waitsAtMost {ahead time : Nat} (hwaits : WaitsAtMost buffer patience ahead time) :
    (ahead + 1) * patience ≤ time := by
  rcases Nat.eq_zero_or_pos patience with rfl | hpositive
  · exact Nat.zero_le time
  · obtain ⟨s, hs, hcrowded, hahead⟩ := exists_crowded buffer hpositive ahead
    obtain ⟨line, hjoined, hturns, hdeadline⟩ := joined_eq hs hpositive hcrowded
    have hcalled : TimedReachable buffer patience s.called := hs.step (.writes (.call s "" true))
    have hbegun := hcalled.step (timedStep_joined s)
    have hline : s.called.outbox.line.length ≤ ahead := by
      rw [← hahead, Outbox.turns, List.length_map]
      exact Nat.le_refl _
    have hstalled : s.joined.Stalled (s.now + patience) := by
      rw [hjoined]
      exact ⟨hcrowded.receiver, hcrowded.full, hdeadline, Nat.le_add_right _ _⟩
    have hjturns : s.joined.outbox.turns = s.outbox.turns ++ [(s.outbox.nextTurn, "")] := by
      rw [← hturns, hjoined]
      rfl
    have hcall : s.joined.calls[s.calls.length]? =
        some ((Call.fresh "" true).withTurn s.outbox.nextTurn) := by
      rw [hjoined, calls_setOutbox, calls_enter,
        List.getElem?_set_self (List.getElem?_eq_some_iff.mp s.called_getElem).1]
      rfl
    have hasked : s.joined.asked[s.outbox.nextTurn]? = some s.calls.length :=
      hbegun.reachable.orderly.turn _ _ _ hcall (turn_withTurn _ _)
    obtain ⟨t, hrun, hnow, ht⟩ :=
      exists_pending hbegun.reachable.orderly hbegun.onTime hpositive
      hstalled hjturns hasked
    have hpending := hwaits s.called t _ _ _ false hcalled hline s.called_getElem (.inr rfl) hrun
      (ht.trans hcall) (by rintro (h | ⟨r, h⟩) <;> cases h)
    rw [hnow, hahead] at hpending
    have hsnow : s.called.now = s.now := rfl
    rw [Nat.succ_mul]
    omega

/-- A write that begins with some writes in line before it may have to wait for the patience of each
of them and then for its own, and that is the most that it waits. -/
theorem waitsAtMost_iff (buffer patience ahead time : Nat) :
    WaitsAtMost buffer patience ahead time ↔ (ahead + 1) * patience ≤ time :=
  ⟨le_of_waitsAtMost, waitsAtMost_of_le⟩

/-- A stream with room for one frame, which is taken, and two sends with a patience of 50: the
second may have begun, and the first may have failed. -/
def contended (now : Nat) (begun failed : Bool) (line : List Turn) : Traffic where
  now := now
  connection :=
    { id := ⟨"c"⟩
      client := "reader"
      live := !failed
      writer := .outbox
        { capacity := 1
          patience := 50
          queue := ["full"]
          line := line
          nextTurn := if begun then 3 else 2
          disposed := failed } }
  calls := [⟨"full", .returned (.ok ())⟩,
    ⟨"a", if failed then .returned (.error Outbox.timeoutError)
      else .send (.writing (.turn 1))⟩,
    ⟨"b", if begun then .send (.writing (.turn 2)) else .send .fresh⟩]
  asked := if begun then [0, 1, 2] else [0, 1]

theorem timedReachable_contended :
    TimedReachable 1 50 (contended 0 false false [⟨1, "a", some 50⟩]) := by
  have hopened : TimedReachable 1 50 _ := .opened 0
    { id := ⟨"c"⟩, client := "reader", writer := .outbox (.ofSettings 1 50) } rfl
  have hfull := (hopened.step (.writes (.call _ "full" true))).step
    (.writes (.poll _ 0 _ rfl false))
  have hfirst := (hfull.step (.writes (.call _ "a" false))).step (.writes (.poll _ 1 _ rfl false))
  exact hfirst.step (.writes (.call _ "b" false))

/-- The second send begins at 0, and is under way at 60: its patience runs from 50. -/
theorem pending_past_patience : ¬ WaitsAtMost 1 50 1 50 := by
  intro hwaits
  have hwait : TimedStep (contended 0 true false [⟨1, "a", some 50⟩, ⟨2, "b", none⟩])
      (contended 50 true false [⟨1, "a", some 50⟩, ⟨2, "b", none⟩]) := by
    refine .wait _ 50 (by decide) fun x rest hline => ?_
    cases hline
    exact ⟨rfl, by decide, 50, rfl, by decide⟩
  have hfails : TimedStep (contended 50 true false [⟨1, "a", some 50⟩, ⟨2, "b", none⟩])
      (contended 50 true true [⟨2, "b", none⟩]) :=
    .writes
      (.poll (contended 50 true false [⟨1, "a", some 50⟩, ⟨2, "b", none⟩]) 1 _ rfl false)
  have hfirst : TimedStep (contended 50 true true [⟨2, "b", none⟩])
      (contended 50 true true [⟨2, "b", some 100⟩]) :=
    .writes (.poll (contended 50 true true [⟨2, "b", none⟩]) 2 _ rfl false)
  have hlater : TimedStep (contended 50 true true [⟨2, "b", some 100⟩])
      (contended 60 true true [⟨2, "b", some 100⟩]) := by
    refine .wait _ 60 (by decide) fun x rest hline => ?_
    cases hline
    exact ⟨rfl, by decide, 100, rfl, by decide⟩
  have hrun := (((Relation.ReflTransGen.single hwait).tail hfails).tail hfirst).tail hlater
  have hnow := hwaits _ _ 2 _ _ false timedReachable_contended (by decide) rfl (.inl rfl) hrun rfl
    (by rintro (h | ⟨r, h⟩) <;> cases h)
  exact absurd hnow (by decide)

end EventHub.Connection.Traffic
