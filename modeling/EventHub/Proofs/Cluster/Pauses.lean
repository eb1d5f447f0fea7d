import EventHub.Proofs.Cluster.Resubscriptions
import EventHub.Time.Duration
import Mathlib.Tactic.Ring
/-!
# How long a subscriber pauses

After the first refusal in a row a subscriber pauses for the first pause, and for twice as long
after each one more, up to the longest pause. What it carries along is the pause for the next
refusal, and that is a function of the refusals just before (`Doubling`). A subscriber never asks
again before its pause is over; one whose clock does not run ahead asks when it is.
-/

namespace EventHub.Cluster

/-! ## Refusals in a row -/

/-- How many attempts just before the one given were refused in a row. -/
def refusalRow (script : List ScriptEntry) : Nat → Nat
  | 0 => 0
  | n + 1 => if script[n]? = some .refuse then refusalRow script n + 1 else 0

/-- The attempt is the `j`-th that is refused in a row, since the first attempt or the last one that
was accepted. -/
def Refusal (script : List ScriptEntry) (i j : Nat) : Prop :=
  ∃ before rest, script = before ++ List.replicate j .refuse ++ rest ∧
    before.getLast? ≠ some .refuse ∧ 1 ≤ j ∧ i + 1 = before.length + j

def pauseAfter (j : Nat) : Nat := min (firstPause * 2 ^ (j - 1)) longestPause

variable {script : List ScriptEntry} {i j n : Nat}

theorem refusalRow_refused (hn : script[n]? = some .refuse) :
    refusalRow script (n + 1) = refusalRow script n + 1 := if_pos hn

theorem refusalRow_succ_of_ne (hn : script[n]? ≠ some .refuse) : refusalRow script (n + 1) = 0 :=
  if_neg hn

theorem refused_of_refusalRow (hpos : 0 < refusalRow script (n + 1)) :
    script[n]? = some .refuse := by
  by_contra hne
  rw [refusalRow_succ_of_ne hne] at hpos
  exact Nat.lt_irrefl 0 hpos

/-- Refusals that follow another outcome are counted from there. -/
theorem refusalRow_append {before rest : List ScriptEntry}
    (hbefore : before.getLast? ≠ some .refuse) {k : Nat} (hk : k ≤ j) :
    refusalRow (before ++ List.replicate j .refuse ++ rest) (before.length + k) = k := by
  induction k with
  | zero =>
    obtain rfl | ⟨earlier, entry, rfl⟩ := List.eq_nil_or_concat' before
    · rfl
    · have hlast : (earlier ++ [entry] ++ List.replicate j .refuse ++ rest)[earlier.length]? =
          some entry := by simp
      rw [List.getLast?_concat, ← hlast] at hbefore
      rw [Nat.add_zero, List.length_append, List.length_singleton]
      exact refusalRow_succ_of_ne hbefore
  | succ k ih =>
    rw [← Nat.add_assoc, refusalRow_refused, ih (by omega)]
    rw [List.append_assoc, List.getElem?_append_right (by omega),
      List.getElem?_append_left (by simp; omega), Nat.add_sub_cancel_left]
    exact List.getElem?_replicate_of_lt (by omega)

theorem Refusal.refusalRow_eq (hrefusal : Refusal script i j) : refusalRow script (i + 1) = j := by
  obtain ⟨before, rest, rfl, hbefore, -, hi⟩ := hrefusal
  rw [hi]
  exact refusalRow_append hbefore (Nat.le_refl j)

theorem Refusal.pos (hrefusal : Refusal script i j) : 1 ≤ j := by
  obtain ⟨_, _, _, _, hj, _⟩ := hrefusal
  exact hj

theorem Refusal.refused (hrefusal : Refusal script i j) : script[i]? = some .refuse :=
  refused_of_refusalRow (hrefusal.refusalRow_eq ▸ hrefusal.pos)

theorem take_refusalRow (hn : n ≤ script.length) :
    ∃ before, before.getLast? ≠ some .refuse ∧
    script.take n = before ++ List.replicate (refusalRow script n) .refuse := by
  induction n with
  | zero => exact ⟨[], by simp, rfl⟩
  | succ n ih =>
    obtain ⟨before, hbefore, htake⟩ := ih (Nat.le_of_succ_le hn)
    have hentry := List.getElem?_eq_getElem (Nat.lt_of_succ_le hn)
    by_cases hrefused : script[n]? = some .refuse
    · refine ⟨before, hbefore, ?_⟩
      rw [refusalRow_refused hrefused, List.replicate_succ', ← List.append_assoc, ← htake,
        List.take_add_one, hrefused]
      rfl
    · refine ⟨script.take (n + 1), ?_, by rw [refusalRow_succ_of_ne hrefused]; simp⟩
      rw [List.take_add_one, hentry, Option.toList_some, List.getLast?_concat, ← hentry]
      exact hrefused

theorem refusal_of_refused (hi : script[i]? = some .refuse) :
    Refusal script i (refusalRow script (i + 1)) := by
  have hlt := (List.getElem?_eq_some_iff.mp hi).1
  obtain ⟨before, hbefore, htake⟩ := take_refusalRow (Nat.succ_le_of_lt hlt)
  refine ⟨before, script.drop (i + 1), ?_, hbefore, ?_, ?_⟩
  · rw [← htake, List.take_append_drop]
  · rw [refusalRow_refused hi]
    exact Nat.le_add_left 1 _
  · have hlength := congrArg List.length htake
    rw [List.length_append, List.length_replicate, List.length_take_of_le hlt] at hlength
    exact hlength

/-! ## Pauses -/

theorem nextPause_pauseAfter (j : Nat) : nextPause (pauseAfter (j + 1)) = pauseAfter (j + 2) := by
  have hdouble : firstPause * 2 ^ (j + 1) = firstPause * 2 ^ j * 2 := by ring
  simp only [nextPause, pauseAfter, Nat.add_sub_cancel, Nat.add_succ_sub_one, hdouble]
  omega

theorem firstPause_le_pauseAfter (j : Nat) : firstPause ≤ pauseAfter j := by
  have hpow : 1 ≤ 2 ^ (j - 1) := Nat.one_le_two_pow
  have hlimit : firstPause ≤ longestPause := by decide
  exact le_min (Nat.le_mul_of_pos_right _ hpow) hlimit

theorem pauseAfter_le (j : Nat) : pauseAfter j ≤ longestPause := Nat.min_le_right _ _

/-- So long after the time the other one is: the pause, and no more than that if it is prompt. -/
def Spaced (prompt : Prop) (t pause t' : Nat) : Prop :=
  t + pause ≤ t' ∧ (prompt → t' ≤ t + pause)

/-- How a subscriber stands after so many refusals in a row, the latest attempt having been made at
the time `last?`. If it is prompt, the clock has not run ahead of it. -/
def Subscriber.Fits (prompt : Prop) (now refused : Nat) (last? : Option Nat) : Subscriber → Prop
  | .subscribing pause => pause = pauseAfter (refused + 1) ∧
      ∀ t, last? = some t → 0 < refused → Spaced prompt t (pauseAfter refused) now
  | .resting time pause => pause = pauseAfter (refused + 1) ∧ 0 < refused ∧
      (∃ t, last? = some t ∧ time = t + pauseAfter refused) ∧ (prompt → now ≤ time)
  | .listening _ | .handling .. => refused = 0

/-- The clock goes on to `now'` while the subscriber stands so: not at all while it is about to
subscribe, and not beyond the end of a pause. -/
def Subscriber.Timely (now now' : Nat) : Subscriber → Prop
  | .subscribing _ => now' = now
  | .resting time _ => now' ≤ max now time
  | .listening _ | .handling .. => True

namespace Outline

variable {id : ServerId} {o o' : Outline} {prompt : Prop}

def Timely (o o' : Outline) : Prop := ∀ x, o.loop = some x → x.Timely o.now o'.now

def refused (script : List ScriptEntry) (o : Outline) : Nat := refusalRow script o.times.length

/-- The subscriber stands as the refusals just before make it, and earlier pauses have been kept. -/
structure Doubling (prompt : Prop) (script : List ScriptEntry) (o : Outline) : Prop where
  fits : ∀ x, o.loop = some x → x.Fits prompt o.now (o.refused script) o.times.getLast?
  spaced : ∀ i t t', script[i]? = some .refuse → o.times[i]? = some t →
    o.times[i + 1]? = some t' →
    Spaced prompt t (pauseAfter (refusalRow script (i + 1))) t'

/-! ## What a step does -/

/-- Time passes while the subscriber stands still. -/
theorem fits_wait {now now' refused : Nat} {last? : Option Nat} {x : Subscriber}
    (hfits : x.Fits prompt now refused last?) (hnow : now ≤ now')
    (htimely : prompt → x.Timely now now') : x.Fits prompt now' refused last? := by
  cases x with
  | subscribing pause =>
    refine ⟨hfits.1, fun t ht hpos => ?_⟩
    obtain ⟨hle, hprompt⟩ := hfits.2 t ht hpos
    refine ⟨hle.trans hnow, fun h => ?_⟩
    have hsame : now' = now := htimely h
    exact hsame ▸ hprompt h
  | resting time pause =>
    obtain ⟨hpause, hpos, hlast, hprompt⟩ := hfits
    exact ⟨hpause, hpos, hlast, fun h => (htimely h).trans (max_le (hprompt h) (Nat.le_refl _))⟩
  | listening | handling => exact hfits

/-- A step that does not ask for a subscription. -/
theorem fits_turned {stopping : Bool} {now now' refused : Nat} {last? : Option Nat}
    {relay relay' : Script} {x y : Subscriber} {p : Progress Subscriber Unit}
    (hturned : Turned id stopping now relay x relay' p) (hafter : x.after p = some y)
    (hasks : ∀ pause, x ≠ .subscribing pause) (hfits : x.Fits prompt now refused last?)
    (hnow : now ≤ now') (htimely : prompt → x.Timely now now') :
    y.Fits prompt now' refused last? := by
  cases hturned with
  | stopped => cases hafter
  | refused pause | accepted pause | exhausted pause => exact absurd rfl (hasks pause)
  | rested time pause htime =>
    cases hafter
    obtain ⟨hpause, hpos, ⟨t, ht, rfl⟩, hprompt⟩ := hfits
    refine ⟨hpause, fun t' ht' _ => ?_⟩
    obtain rfl := Option.some.inj (ht.symm.trans ht')
    exact ⟨htime.trans hnow, fun h => (htimely h).trans (max_le (hprompt h) (Nat.le_refl _))⟩
  | rests | quiet | waits =>
    cases hafter
    exact fits_wait hfits hnow htimely
  | ends =>
    cases hafter
    obtain rfl : refused = 0 := hfits
    exact ⟨rfl, fun _ _ hpos => absurd hpos (Nat.lt_irrefl 0)⟩
  | hears | loses | passes | calls | publishes | published =>
    cases hafter
    exact hfits

/-- A subscriber that asks for a subscription is refused once more in a row, or else listens. -/
theorem fits_asked {stopping : Bool} {now now' pause : Nat} {relay relay' : Script} {y : Subscriber}
    {p : Progress Subscriber Unit}
    (hturned : Turned id stopping now relay (.subscribing pause) relay' p)
    (hafter : Subscriber.after (.subscribing pause) p = some y) {n : Nat}
    (hentries : relay.entries = script.drop n)
    (hpause : pause = pauseAfter (refusalRow script n + 1))
    (htimely : prompt → now' = now) :
    y.Fits prompt now' (refusalRow script (n + 1)) (some now) := by
  have hhead : relay.entries.head? = script[n]? := by rw [hentries, List.head?_drop]
  cases hturned with
  | stopped => cases hafter
  | refused _ channels rest hrelay =>
    cases hafter
    have hrefused : script[n]? = some .refuse := by rw [← hhead, hrelay, List.head?_cons]
    rw [refusalRow_refused hrefused]
    refine ⟨?_, Nat.succ_pos _, ⟨now, rfl, by rw [hpause]⟩, fun h => ?_⟩
    · rw [hpause]
      exact nextPause_pauseAfter _
    · rw [htimely h]
      exact Nat.le_add_right now pause
  | accepted _ channels items rest hrelay =>
    cases hafter
    exact refusalRow_succ_of_ne (by rw [← hhead, hrelay]; simp)
  | exhausted _ channels hrelay =>
    cases hafter
    exact refusalRow_succ_of_ne (by rw [← hhead, hrelay]; simp)

/-- One more attempt keeps the pauses, if it comes when the last one is over. -/
theorem spaced_append {times : List Nat} {now : Nat}
    (hspaced : ∀ i t t', script[i]? = some .refuse → times[i]? = some t →
      times[i + 1]? = some t' → Spaced prompt t (pauseAfter (refusalRow script (i + 1))) t')
    (hlast : ∀ t, times.getLast? = some t → 0 < refusalRow script times.length →
      Spaced prompt t (pauseAfter (refusalRow script times.length)) now) :
    ∀ i t t', script[i]? = some .refuse → (times ++ [now])[i]? = some t →
      (times ++ [now])[i + 1]? = some t' →
      Spaced prompt t (pauseAfter (refusalRow script (i + 1))) t' := by
  intro i t t' hrefused ht ht'
  by_cases hi : i + 1 < times.length
  · rw [List.getElem?_append_left (by omega)] at ht
    rw [List.getElem?_append_left hi] at ht'
    exact hspaced i t t' hrefused ht ht'
  · have hbound := (List.getElem?_eq_some_iff.mp ht').1
    rw [List.length_append, List.length_singleton] at hbound
    obtain hlength : times.length = i + 1 := by omega
    rw [List.getElem?_append_left (by omega)] at ht
    rw [← hlength, List.getElem?_concat_length] at ht'
    cases ht'
    rw [hlength] at hlast
    refine hlast t ?_ ?_
    · rw [List.getLast?_eq_getElem?, hlength]
      exact ht
    · rw [refusalRow_refused hrefused]
      exact Nat.succ_pos _

theorem Doubling.turn (hdoubling : o.Doubling prompt script) (hpaced : o.Paced script)
    {x : Subscriber} (hx : o.loop = some x) {relay : Script} {p : Progress Subscriber Unit}
    (hturned : Turned id o.stopping o.now o.script x relay p) {now : Nat} (hnow : o.now ≤ now)
    (htimely : prompt → x.Timely o.now now) :
    Doubling prompt script { o with
      now := now, script := relay, loop := x.after p, calls := o.calls ++ (x.call? p).toList } := by
  have hfits := hdoubling.fits x hx
  obtain ⟨rfl, hdone⟩ | ⟨pause, channels, rfl, hattempts, -⟩ := attempts_turned hturned
  · refine ⟨fun y hy => ?_, hdoubling.spaced⟩
    refine fits_turned hturned hy (fun pause heq => ?_) hfits hnow htimely
    rw [hdone pause heq] at hy
    cases hy
  · have htimes : relay.attempts.map (·.1) = o.times ++ [o.now] := by
      rw [hattempts, List.map_append]
      rfl
    refine ⟨fun y hy => ?_, ?_⟩
    · have hasked := fits_asked hturned hy hpaced.entries hfits.1 htimely
      rw [Outline.refused, Outline.times, htimes, List.length_append, List.getLast?_concat]
      exact hasked
    · rw [Outline.times, htimes]
      exact spaced_append hdoubling.spaced hfits.2

theorem Step.doubling (hstep : Step id o o') (htimely : prompt → o.Timely o')
    (hpaced : o.Paced script) (hdoubling : o.Doubling prompt script) :
    o'.Doubling prompt script := by
  cases hstep with
  | turn hx hturned now hnow =>
    exact hdoubling.turn hpaced hx hturned hnow fun h => htimely h _ hx
  | stop => exact ⟨hdoubling.fits, hdoubling.spaced⟩
  | wait now hnow =>
    exact ⟨fun x hx => fits_wait (hdoubling.fits x hx) hnow fun h => htimely h x hx,
      hdoubling.spaced⟩

end Outline

/-! ## Runs -/

namespace Listener

variable {s : Nat} {id : ServerId} {l l' l₀ : Listener} {prompt : Prop}
  {answer : Cluster → LocalPublish → Except Error Unit}

def PromptStep (s : Nat) (l l' : Listener) : Prop :=
  Step s l l' ∧ (l.outline s).Timely (l'.outline s)

def PromptRun (s : Nat) : Listener → Listener → Prop := Relation.ReflTransGen (PromptStep s)

structure Measured (prompt : Prop) (s : Nat) (id : ServerId) (script : List ScriptEntry)
    (l : Listener) : Prop where
  tuned : l.Tuned s id
  paced : (l.outline s).Paced script
  doubling : (l.outline s).Doubling prompt script

theorem Measured.step (hmeasured : l.Measured prompt s id script) (hstep : Step s l l')
    (htimely : prompt → (l.outline s).Timely (l'.outline s)) :
    l'.Measured prompt s id script := by
  obtain ⟨hstep', htuned⟩ := hstep.outline hmeasured.tuned
  exact ⟨htuned, hstep'.paced hmeasured.paced,
    hstep'.doubling htimely hmeasured.paced hmeasured.doubling⟩

theorem Starts.measured (hstarts : l.Starts s id script) : l.Measured prompt s id script := by
  obtain ⟨relay, hscripted, hentries, hattempts⟩ := hstarts.scripted
  have htimes : (l.outline s).times = [] := by
    simp only [Outline.times, outline, hscripted.scriptAt_eq, hattempts, List.map_nil]
  refine ⟨hstarts.tuned, hstarts.paced, fun x hx => ?_, fun i t t' _ ht => ?_⟩
  · obtain rfl : x = .first := Option.some.inj (hx.symm.trans hstarts.loop)
    rw [Outline.refused, htimes]
    exact ⟨rfl, fun t ht => by cases ht⟩
  · rw [htimes] at ht
    cases ht

theorem Run.measured (hrun : Run s l₀ l) (hstarts : l₀.Starts s id script) :
    l.Measured False s id script := by
  induction hrun with
  | refl => exact hstarts.measured
  | tail _ hstep ih => exact ih.step hstep False.elim

theorem PromptRun.measured (hrun : PromptRun s l₀ l) (hstarts : l₀.Starts s id script) :
    l.Measured True s id script := by
  induction hrun with
  | refl => exact hstarts.measured
  | tail _ hstep ih => exact ih.step hstep.1 fun _ => hstep.2

/-- Refused attempts and the pauses that follow them, in a run so far. -/
structure Pausing (prompt : Prop) (s : Nat) (script : List ScriptEntry) (l : Listener) :
    Prop where
  /-- After a refusal the subscriber rests for its pause before it subscribes again. -/
  waits : ∀ x earlier t j, l.loop = some x → l.times s = earlier ++ [t] →
    Refusal script earlier.length j →
    (∃ next, x = .resting (t + pauseAfter j) next) ∨
      ∃ next, x = .subscribing next ∧ Spaced prompt t (pauseAfter j) l.cluster.now
  /-- It rests at no other time. -/
  rests : ∀ time next, l.loop = some (.resting time next) → ∃ earlier t j,
    l.times s = earlier ++ [t] ∧ Refusal script earlier.length j ∧ time = t + pauseAfter j
  /-- The pause for the next refusal has its limits, and twice as much is a duration. -/
  limited : ∀ x pause, l.loop = some x → x.pause? = some pause →
    firstPause ≤ pause ∧ pause ≤ longestPause ∧
      (Time.Duration.ofMillis (pause * 2)).seconds < Numeric.limit 64
  spaced : ∀ i j t t', Refusal script i j → (l.times s)[i]? = some t →
    (l.times s)[i + 1]? = some t' → Spaced prompt t (pauseAfter j) t'

theorem seconds_double_lt {pause : Nat} (hpause : pause ≤ longestPause) :
    (Time.Duration.ofMillis (pause * 2)).seconds < Numeric.limit 64 := by
  have hminute : 61 ≤ Numeric.limit 64 := by decide
  refine Nat.lt_of_lt_of_le ?_ hminute
  simp only [Time.Duration.ofMillis, Time.Duration.seconds, longestPause] at hpause ⊢
  omega

theorem Measured.pausing (hmeasured : l.Measured prompt s id script) :
    l.Pausing prompt s script := by
  obtain ⟨-, -, hfits, hspaced⟩ := hmeasured
  refine ⟨fun x earlier t j hx htimes hrefusal => ?_, fun time next hx => ?_,
    fun x pause hx hpause => ?_, fun i j t t' hrefusal => ?_⟩
  · have hx' := hfits x hx
    have hlast : (l.outline s).times.getLast? = some t := by
      rw [show (l.outline s).times = earlier ++ [t] from htimes, List.getLast?_concat]
    have hrefused : (l.outline s).refused script = j := by
      rw [Outline.refused, show (l.outline s).times = earlier ++ [t] from htimes,
        List.length_append, List.length_singleton, hrefusal.refusalRow_eq]
    have hpos := hrefusal.pos
    rw [hlast, hrefused] at hx'
    cases x with
    | subscribing next => exact .inr ⟨next, rfl, hx'.2 t rfl hpos⟩
    | resting time next =>
      obtain ⟨-, -, ⟨t', ht', rfl⟩, -⟩ := hx'
      cases ht'
      exact .inl ⟨next, rfl⟩
    | listening | handling =>
      have hnone : j = 0 := hx'
      omega
  · obtain ⟨-, hpos, ⟨t, hlast, htime⟩, -⟩ := hfits _ hx
    obtain ⟨earlier, htimes⟩ := List.getLast?_eq_some_iff.mp hlast
    have hlength : (l.outline s).times.length = earlier.length + 1 := by
      rw [htimes, List.length_append, List.length_singleton]
    rw [Outline.refused, hlength] at hpos htime
    exact ⟨earlier, t, _, htimes, refusal_of_refused (refused_of_refusalRow hpos), htime⟩
  · have hlimited : firstPause ≤ pause ∧ pause ≤ longestPause := by
      have hx' := hfits x hx
      cases x with
      | subscribing | resting =>
        cases hpause
        rw [hx'.1]
        exact ⟨firstPause_le_pauseAfter _, pauseAfter_le _⟩
      | listening | handling => cases hpause
    exact ⟨hlimited.1, hlimited.2, seconds_double_lt hlimited.2⟩
  · rw [← hrefusal.refusalRow_eq]
    exact hspaced i t t' hrefusal.refused

/-! ## A run that meets the whole script -/

/-- A subscriber that goes on, after its pause if it is in one, is prompt. -/
theorem promptRun_goOn (s : Nat) (hanswers : Answers answer) (l : Listener) :
    PromptRun s l (goOn s answer l) := by
  cases hx : l.loop with
  | none =>
    simp only [goOn, hx]
    exact .refl
  | some x =>
    have hnow := now_answering answer (rested x l.cluster) l.stopping true s x
    have hrested : PromptStep s l { l with cluster := rested x l.cluster } := by
      refine ⟨.outside l _ (undisturbed_rested s x l.cluster), fun y hy => ?_⟩
      obtain rfl := Option.some.inj (hx.symm.trans hy)
      cases x with
      | subscribing => exact rfl
      | resting time => exact Nat.le_refl _
      | listening | handling => trivial
    have hturn : PromptStep s { l with cluster := rested x l.cluster } (goOn s answer l) := by
      rw [goOn_eq s answer hx]
      refine ⟨.turn { l with cluster := rested x l.cluster } hx _
        (hanswers.fair s l.stopping) true,
        fun y hy => ?_⟩
      obtain rfl := Option.some.inj (hx.symm.trans hy)
      cases x with
      | subscribing => exact hnow
      | resting time => exact hnow.le.trans (Nat.le_max_left _ _)
      | listening | handling => trivial
    exact .tail (.single hrested) hturn

theorem Underway.exhausts (hunderway : l.Underway s id script) (hanswers : Answers answer) {n : Nat}
    (hn : l.work s ≤ n) :
    ∃ l', PromptRun s l l' ∧ l'.Underway s id script ∧ l'.work s = 0 := by
  induction n generalizing l with
  | zero => exact ⟨l, .refl, hunderway, Nat.le_zero.mp hn⟩
  | succ n ih =>
    obtain ⟨hunderway', hle⟩ := hunderway.kept hanswers
    obtain ⟨l', hrun, hdone⟩ := ih hunderway' (by omega)
    exact ⟨l', (promptRun_goOn s hanswers l).trans hrun, hdone⟩

theorem Underway.attempts (hunderway : l.Underway s id script)
    (hmeasured : l.Measured prompt s id script) (hwork : l.work s = 0)
    (hi : script[i]? = some .refuse) : i + 1 < (l.times s).length := by
  obtain ⟨x, hx⟩ := Option.isSome_iff_exists.mp (hunderway.follows.going hunderway.going)
  obtain ⟨hloop, hentries⟩ := Nat.add_eq_zero_iff.mp hwork
  have hrefused : refusalRow script (l.times s).length = 0 := by
    have hx' := hmeasured.doubling.fits x hx
    rw [hx, Option.elim_some] at hloop
    cases x with
    | subscribing | resting => cases hloop
    | listening | handling => exact hx'
  have hall : script.length ≤ (l.times s).length := by
    rw [← List.drop_eq_nil_iff, ← eq_nil_of_workOf hentries]
    exact hmeasured.paced.entries.symm
  have hlt := (List.getElem?_eq_some_iff.mp hi).1
  have hne : (l.times s).length ≠ i + 1 := by
    intro heq
    rw [heq, refusalRow_refused hi] at hrefused
    cases hrefused
  omega

/-- The first refusal after a subscription that was accepted is the first in a row. -/
theorem refusal_one {items : List ScriptItem} (hi : script[i]? = some (.accept items))
    (hnext : script[i + 1]? = some .refuse) : Refusal script (i + 1) 1 := by
  have hrefusal := refusal_of_refused hnext
  rw [refusalRow_refused hnext, refusalRow_succ_of_ne (by rw [hi]; simp)] at hrefusal
  exact hrefusal

/-- After the `j`-th refusal in a row a subscriber pauses for the first pause doubled `j - 1` times,
or for the longest pause if that is shorter, and then asks again; it pauses at no other time. So the
pause after the first refusal behind an accepted subscription is the first one again. What it
carries along always has these limits. A run with a clock that does not run ahead, in which all
pauses are exact, gets beyond every refusal of the script. -/
theorem pauses_double (hstarts : l₀.Starts s id script) :
    (∀ i, script[i]? = some .refuse → ∃ j, Refusal script i j) ∧
    (∀ i items, script[i]? = some (.accept items) → script[i + 1]? = some .refuse →
      Refusal script (i + 1) 1) ∧
    (∀ l, Run s l₀ l → l.Pausing False s script) ∧
    (∀ l, PromptRun s l₀ l → l.Pausing True s script) ∧
    (l₀.stopping = false → ∃ l, PromptRun s l₀ l ∧
      ∀ i, script[i]? = some .refuse → i + 1 < (l.times s).length) := by
  refine ⟨fun i hi => ⟨_, refusal_of_refused hi⟩, fun i items => refusal_one,
    fun l hrun => (hrun.measured hstarts).pausing, fun l hrun => (hrun.measured hstarts).pausing,
    fun hgoing => ?_⟩
  have hanswers : Answers fun _ _ => .ok () := fun _ _ e heq => by cases heq
  obtain ⟨l, hrun, hunderway, hwork⟩ :=
    (hstarts.underway hgoing).exhausts hanswers (Nat.le_refl _)
  exact ⟨l, hrun, fun i hi => hunderway.attempts (hrun.measured hstarts) hwork hi⟩

/-- A relay that refuses eight times, is lost once it accepts, and refuses again. -/
def outage : List ScriptEntry := List.replicate 8 .refuse ++ [.accept [], .refuse]

/-- A server that begins to listen to a relay that is going to be away. -/
def awaiting : Listener where
  cluster := {
    stamp := .epoch
    servers := [{ id := ⟨"s"⟩, link := .script { entries := outage } }]
    ring := .ofCapacity 4 }

/-- Half a second, then twice as long each time, but never longer than half a minute; and half a
second again after the subscription that was accepted. -/
theorem pauses_double_outage : ∃ l, PromptRun 0 awaiting l ∧
    ∀ i pause,
      (i, pause) ∈ [(0, 500), (1, 1000), (5, 16000), (6, 30000), (7, 30000), (9, 500)] →
      ∃ t, (l.times 0)[i]? = some t ∧ (l.times 0)[i + 1]? = some (t + pause) := by
  have hstarts : awaiting.Starts 0 ⟨"s"⟩ outage :=
    ⟨⟨{ entries := outage }, ⟨_, rfl, rfl, rfl⟩, rfl, rfl⟩, rfl, rfl⟩
  obtain ⟨-, -, -, hpausing, hreached⟩ := pauses_double hstarts
  obtain ⟨l, hrun, hlength⟩ := hreached rfl
  refine ⟨l, hrun, fun i pause hin => ?_⟩
  have hplace : outage[i]? = some .refuse ∧ pauseAfter (refusalRow outage (i + 1)) = pause := by
    simp only [List.mem_cons, Prod.mk.injEq, List.not_mem_nil, or_false] at hin
    obtain ⟨rfl, rfl⟩ | ⟨rfl, rfl⟩ | ⟨rfl, rfl⟩ | ⟨rfl, rfl⟩ |
      ⟨rfl, rfl⟩ | ⟨rfl, rfl⟩ := hin <;>
      exact ⟨rfl, rfl⟩
  have hlt := hlength i hplace.1
  refine ⟨(l.times 0)[i], List.getElem?_eq_getElem (by omega), ?_⟩
  have hspaced := (hpausing l hrun).spaced i _ _ _ (refusal_of_refused hplace.1)
    (List.getElem?_eq_getElem (by omega)) (List.getElem?_eq_getElem hlt)
  rw [hplace.2] at hspaced
  rw [List.getElem?_eq_getElem hlt, Nat.le_antisymm (hspaced.2 trivial) hspaced.1]

end Listener

end EventHub.Cluster
