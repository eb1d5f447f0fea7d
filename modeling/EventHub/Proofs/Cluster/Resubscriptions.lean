import EventHub.Proofs.Cluster.ScriptCalls
/-!
# When a subscriber subscribes again

After a subscription that the relay refused, a subscriber rests before it asks for the next. After
one that was accepted and has ended it does not, so that a relay which accepts a subscription and
ends it is asked again at the same time.
-/

namespace EventHub.Cluster

/-! ## Pauses between attempts -/

/-- The attempt after the one given comes no earlier than the first pause after it. -/
def Apart (times : List Nat) (i : Nat) : Prop :=
  ∀ t t', times[i]? = some t → times[i + 1]? = some t' → t + firstPause ≤ t'

def Ending (script : List ScriptEntry) (i : Nat) : Prop :=
  ∃ items, script[i]? = some (.accept items)

def Subscriber.Awaits (now due : Nat) : Subscriber → Prop
  | .subscribing _ => due ≤ now
  | .resting time _ => due ≤ time
  | .listening feed | .handling feed _ => feed = .silent

/-- How long the subscriber is going to pause after a refusal, where it is known. -/
def Subscriber.pause? : Subscriber → Option Nat
  | .subscribing pause | .resting _ pause => some pause
  | .listening _ | .handling .. => none

theorem Subscriber.Awaits.mono {now now' due : Nat} (hnow : now ≤ now') {x : Subscriber}
    (hawaits : x.Awaits now due) : x.Awaits now' due := by
  cases x with
  | subscribing pause => exact hawaits.trans hnow
  | _ => exact hawaits

theorem firstPause_le_nextPause {pause : Nat} (hpause : firstPause ≤ pause) :
    firstPause ≤ nextPause pause := by
  unfold nextPause firstPause longestPause at *
  omega

/-- One more attempt keeps the distances, if it comes late enough after the last. -/
theorem apart_append {script : List ScriptEntry} {times : List Nat} {now : Nat}
    (hapart : ∀ i, ¬ Ending script i → Apart times i)
    (hlast : ∀ earlier t, times = earlier ++ [t] → ¬ Ending script earlier.length →
      t + firstPause ≤ now) :
    ∀ i, ¬ Ending script i → Apart (times ++ [now]) i := by
  intro i hlasting t t' ht ht'
  by_cases hi : i + 1 < times.length
  · rw [List.getElem?_append_left (by omega)] at ht
    rw [List.getElem?_append_left hi] at ht'
    exact hapart i hlasting t t' ht ht'
  · obtain rfl | ⟨earlier, last, rfl⟩ := List.eq_nil_or_concat' times
    · cases ht'
    · have hbound := (List.getElem?_eq_some_iff.mp ht').1
      simp only [List.length_append, List.length_cons, List.length_nil] at hi hbound
      obtain rfl : i = earlier.length := by omega
      have hlate := hlast earlier last rfl hlasting
      simp at ht ht'
      omega

namespace Outline

variable {id : ServerId} {script : List ScriptEntry} {o o' : Outline}

def times (o : Outline) : List Nat := o.script.attempts.map (·.1)

/-- The relay is where it is in its script, attempts are apart but for those after a subscription
that ended, and so is going to be the next. -/
structure Paced (script : List ScriptEntry) (o : Outline) : Prop where
  entries : o.script.entries = script.drop o.times.length
  apart : ∀ i, ¬ Ending script i → Apart o.times i
  awaits : ∀ x, o.loop = some x → ∀ earlier t, o.times = earlier ++ [t] →
    ¬ Ending script earlier.length → x.Awaits o.now (t + firstPause)
  pauses : ∀ x, o.loop = some x → ∀ pause, x.pause? = some pause → firstPause ≤ pause

/-! ## What a step does -/

/-- A step asks the relay for a subscription, or leaves it alone. -/
theorem attempts_turned {stopping : Bool} {now : Nat} {relay relay' : Script} {x : Subscriber}
    {p : Progress Subscriber Unit} (hturned : Turned id stopping now relay x relay' p) :
    relay' = relay ∧ (∀ pause, x = .subscribing pause → p = .done ()) ∨
      ∃ pause channels, x = .subscribing pause ∧
        relay'.attempts = relay.attempts ++ [(now, channels)] ∧
        relay'.entries = relay.entries.tail := by
  cases hturned with
  | refused pause channels rest hentries | accepted pause channels items rest hentries
  | exhausted pause channels hentries =>
    exact .inr ⟨pause, channels, rfl, rfl, by rw [hentries]; rfl⟩
  | stopped => exact .inl ⟨rfl, fun _ _ => rfl⟩
  | _ => exact .inl ⟨rfl, fun _ heq => (by cases heq)⟩

theorem awaits_turned {stopping : Bool} {now due : Nat} {relay relay' : Script} {x y : Subscriber}
    {p : Progress Subscriber Unit} (hturned : Turned id stopping now relay x relay' p)
    (hafter : x.after p = some y) (hasks : ∀ pause, x ≠ .subscribing pause)
    (hawaits : x.Awaits now due) : y.Awaits now due := by
  cases hturned with
  | stopped => cases hafter
  | refused pause | accepted pause | exhausted pause => exact absurd rfl (hasks pause)
  | rested time pause htime =>
    cases hafter
    exact hawaits.trans htime
  | hears | loses | ends => cases hawaits
  | _ =>
    cases hafter
    exact hawaits

/-- A subscriber that has asked for a subscription awaits the end of a pause, unless it has one that
ends. -/
theorem awaits_asked {stopping : Bool} {now pause : Nat} {relay relay' : Script} {y : Subscriber}
    {p : Progress Subscriber Unit}
    (hturned : Turned id stopping now relay (.subscribing pause) relay' p)
    (hafter : Subscriber.after (.subscribing pause) p = some y) (hpause : firstPause ≤ pause)
    {i : Nat} (hentries : relay.entries = script.drop i) (hlasting : ¬ Ending script i) :
    y.Awaits now (now + firstPause) := by
  cases hturned with
  | stopped => cases hafter
  | refused =>
    cases hafter
    exact Nat.add_le_add_left hpause now
  | accepted _ _ items rest haccept =>
    have hentry : script[i]? = some (.accept items) := by
      rw [← List.head?_drop, ← hentries, haccept, List.head?_cons]
    exact absurd ⟨items, hentry⟩ hlasting
  | exhausted =>
    cases hafter
    rfl

theorem pauses_turned {stopping : Bool} {now : Nat} {relay relay' : Script} {x y : Subscriber}
    {p : Progress Subscriber Unit} (hturned : Turned id stopping now relay x relay' p)
    (hafter : x.after p = some y)
    (hpauses : ∀ pause, x.pause? = some pause → firstPause ≤ pause) :
    ∀ pause, y.pause? = some pause → firstPause ≤ pause := by
  cases hturned with
  | stopped => cases hafter
  | refused pause =>
    cases hafter
    intro pause' hpause'
    cases hpause'
    exact firstPause_le_nextPause (hpauses pause rfl)
  | ends =>
    cases hafter
    intro pause' hpause'
    cases hpause'
    exact Nat.le_refl _
  | accepted | exhausted | hears | loses | passes | calls | publishes | published =>
    cases hafter
    intro pause' hpause'
    cases hpause'
  | rests | rested | quiet | waits =>
    cases hafter
    exact hpauses

theorem Paced.turn (hpaced : o.Paced script) {x : Subscriber} (hx : o.loop = some x)
    {relay : Script} {p : Progress Subscriber Unit}
    (hturned : Turned id o.stopping o.now o.script x relay p) {now : Nat} (hnow : o.now ≤ now) :
    Paced script { o with
      now := now, script := relay, loop := x.after p, calls := o.calls ++ (x.call? p).toList } := by
  have hpauses : ∀ y, x.after p = some y → ∀ pause, y.pause? = some pause →
      firstPause ≤ pause :=
    fun y hy => pauses_turned hturned hy (hpaced.pauses x hx)
  obtain ⟨rfl, hdone⟩ | ⟨pause, channels, rfl, hattempts, hentries⟩ :=
    attempts_turned hturned
  · refine ⟨hpaced.entries, hpaced.apart, fun y hy earlier t htimes hlasting => ?_, hpauses⟩
    have hasks : ∀ pause, x ≠ .subscribing pause := fun pause heq => by
      rw [hdone pause heq] at hy
      cases hy
    exact (awaits_turned hturned hy hasks (hpaced.awaits x hx earlier t htimes hlasting)).mono hnow
  · have htimes : relay.attempts.map (·.1) = o.times ++ [o.now] := by
      rw [hattempts, List.map_append]
      rfl
    refine ⟨?_, ?_, fun y hy earlier t hlast hlasting => ?_, hpauses⟩
    · rw [Outline.times, htimes, hentries, hpaced.entries, List.tail_drop, List.length_append,
        List.length_singleton]
    · rw [Outline.times, htimes]
      exact apart_append hpaced.apart (hpaced.awaits _ hx)
    · rw [Outline.times, htimes] at hlast
      obtain ⟨rfl, hnow'⟩ := List.append_inj' hlast rfl
      cases hnow'
      exact (awaits_asked hturned hy (hpaced.pauses _ hx pause rfl) hpaced.entries hlasting).mono
        hnow

theorem Step.paced (hstep : Step id o o') (hpaced : o.Paced script) : o'.Paced script := by
  cases hstep with
  | turn hx hturned now hnow => exact hpaced.turn hx hturned hnow
  | stop => exact ⟨hpaced.entries, hpaced.apart, hpaced.awaits, hpaced.pauses⟩
  | wait now hnow =>
    refine ⟨hpaced.entries, hpaced.apart, fun x hx earlier t htimes hlasting => ?_,
      hpaced.pauses⟩
    exact (hpaced.awaits x hx earlier t htimes hlasting).mono hnow

theorem Run.paced (hrun : Run id o o') (hpaced : o.Paced script) : o'.Paced script := by
  induction hrun with
  | refl => exact hpaced
  | tail _ hstep ih => exact hstep.paced ih

end Outline

namespace Listener

variable {s : Nat} {id : ServerId} {script : List ScriptEntry} {l l₀ : Listener}
  {answer : Cluster → LocalPublish → Except Error Unit}

def times (s : Nat) (l : Listener) : List Nat := (l.outline s).times

theorem Starts.paced (hstarts : l.Starts s id script) : (l.outline s).Paced script := by
  obtain ⟨relay, hscripted, hentries, hattempts⟩ := hstarts.scripted
  have htimes : (l.outline s).times = [] := by
    simp only [Outline.times, outline, hscripted.scriptAt_eq, hattempts, List.map_nil]
  have hentries' : (l.outline s).script.entries = script := by
    rw [outline, hscripted.scriptAt_eq, hentries]
  refine ⟨?_, fun i _ => ?_, fun x hx earlier t hlast => ?_, fun x hx pause hpause => ?_⟩
  · rw [hentries', htimes, List.length_nil, List.drop_zero]
  · rw [htimes]
    intro t t' ht
    cases ht
  · rw [htimes] at hlast
    simp at hlast
  · have hfirst : x = .first := Option.some.inj (hx.symm.trans hstarts.loop)
    rw [hfirst] at hpause
    cases hpause
    exact Nat.le_refl _

/-! ## How far a subscriber gets -/

theorem times_eq (l : Listener) (s : Nat) :
    l.times s = (l.cluster.scriptAt s).attempts.map (·.1) := rfl

theorem now_subscribe (c : Cluster) (s : Nat) : (c.subscribe s).1.now = c.now := by
  unfold subscribe
  split
  · rfl
  · split <;> rfl

theorem stepHandling_fresh_fst (c : Cluster) (cancelled : Bool) (s : Nat) (raw : String) :
    (c.stepHandling cancelled s (.fresh raw)).1 = c := by
  simp only [stepHandling]
  split
  · rfl
  · split <;> rfl

/-- The clock stands still while a subscriber works. -/
theorem now_answering (answer : Cluster → LocalPublish → Except Error Unit) (c : Cluster)
    (stopping stopFirst : Bool) (s : Nat) (x : Subscriber) :
    (c.listenWith (answering answer) stopping stopFirst s x).1.now = c.now := by
  have hsubscribe := now_subscribe c s
  unfold listenWith
  split
  · next feed p =>
    simp only [answering]
    generalize answer c p = r
    obtain _ | ⟨⟩ := r
    · dsimp only
      split <;> rfl
    · rfl
  · next hpublisher =>
    cases x with
    | subscribing pause =>
      simp only [stepSubscriber]
      generalize c.subscribe s = q at hsubscribe
      obtain ⟨c', _ | feed⟩ := q <;> split <;> trivial
    | resting time pause =>
      simp only [stepSubscriber]
      repeat' split
      all_goals rfl
    | listening feed =>
      simp only [stepSubscriber]
      repeat' split
      all_goals rfl
    | handling feed h =>
      cases h with
      | publishing p => exact (hpublisher feed p rfl).elim
      | fresh raw =>
        have hstep := stepHandling_fresh_fst c stopping s raw
        simp only [stepSubscriber]
        generalize c.stepHandling stopping s (.fresh raw) = q at hstep
        obtain ⟨c', _ | h | ⟨e | _⟩⟩ := q
        · exact congrArg Cluster.now hstep
        · exact congrArg Cluster.now hstep
        · dsimp only
          split <;> exact congrArg Cluster.now hstep
        · exact congrArg Cluster.now hstep

theorem now_goOn (s : Nat) (answer : Cluster → LocalPublish → Except Error Unit)
    {x : Subscriber}
    (hx : l.loop = some x) : (goOn s answer l).cluster.now = (rested x l.cluster).now := by
  rw [goOn_eq s answer hx]
  exact now_answering answer _ _ true s x

/-- A subscriber that has been accepted hears on, or its subscription has ended. -/
theorem heard_turned {stopping : Bool} {now : Nat} {relay relay' : Script} {x y : Subscriber}
    {items : List ScriptItem} (hturned : Turned id stopping now relay x relay' (.moved y))
    (hfeed : x.feed? = some (.script items)) :
    relay' = relay ∧
      ((∃ pause, y = .subscribing pause) ∨ ∃ rest, y.feed? = some (.script rest)) := by
  cases hturned with
  | refused | accepted | exhausted | rested => cases hfeed
  | hears text rest | loses e rest => exact ⟨rfl, .inr ⟨rest, rfl⟩⟩
  | ends => exact ⟨rfl, .inl ⟨firstPause, rfl⟩⟩
  | passes | calls | publishes | published => exact ⟨rfl, .inr ⟨items, hfeed⟩⟩

/-- A subscription of the script can end while the clock stands still. -/
theorem Underway.resubscribes (hunderway : l.Underway s id script) (hanswers : Answers answer)
    {x : Subscriber} (hx : l.loop = some x) {items : List ScriptItem}
    (hfeed : x.feed? = some (.script items)) :
    ∃ l' pause, Run s l l' ∧ l'.Underway s id script ∧ l'.loop = some (.subscribing pause) ∧
      l'.cluster.now = l.cluster.now ∧ l'.cluster.scriptAt s = l.cluster.scriptAt s := by
  induction hn : x.work using Nat.strong_induction_on generalizing l x items with
  | _ n ih =>
    obtain ⟨p, y, hafter, hy, hturned, hmoved, hanswered⟩ := hunderway.goes hanswers hx
    obtain rfl | rfl := hmoved
    · obtain ⟨hrelay, hnext⟩ := heard_turned hturned hfeed
      have hstep := run_goOn s hanswers l
      have hunderway' := (hunderway.kept hanswers).1
      have hnow : (goOn s answer l).cluster.now = l.cluster.now := by
        rw [now_goOn s answer hx]
        cases x with
        | resting => cases hfeed
        | _ => rfl
      obtain ⟨pause, rfl⟩ | ⟨rest, hrest⟩ := hnext
      · exact ⟨_, pause, hstep, hunderway', hy, hnow, hrelay⟩
      · have hless := Outline.work_turned hturned hanswered
        rw [hrelay, hn] at hless
        obtain ⟨l', pause, hrun, hunderway'', hloop, hnow', hscript⟩ :=
          ih y.work (Nat.lt_of_add_lt_add_right hless) hunderway' hy hrest rfl
        exact ⟨l', pause, hstep.trans hrun, hunderway'', hloop, hnow'.trans hnow,
          hscript.trans hrelay⟩
    · cases hfeed

/-- The subscriber is about to ask for the subscription after so many others. -/
structure Asks (s : Nat) (id : ServerId) (script : List ScriptEntry) (l₀ : Listener) (i : Nat)
    (l : Listener) : Prop where
  run : Run s l₀ l
  underway : l.Underway s id script
  subscribing : ∃ pause, l.loop = some (.subscribing pause)
  times : (l.times s).length = i

theorem Asks.head?_eq (hstarts : l₀.Starts s id script) {i : Nat}
    (hasks : Asks s id script l₀ i l) : (l.cluster.scriptAt s).entries.head? = script[i]? := by
  have hpaced := (hasks.run.outline hstarts.tuned).1.paced hstarts.paced
  rw [← hasks.times, ← List.head?_drop]
  exact congrArg List.head? hpaced.entries

theorem asked_turned {stopping : Bool} {now pause : Nat} {relay relay' : Script} {y : Subscriber}
    (hturned : Turned id stopping now relay (.subscribing pause) relay' (.moved y)) :
    (relay.entries.head? = some .refuse → ∃ time pause', y = .resting time pause') ∧
      ∀ items, relay.entries.head? = some (.accept items) → y = .listening (.script items) := by
  cases hturned with
  | refused _ channels rest hentries =>
    rw [hentries]
    exact ⟨fun _ => ⟨_, _, rfl⟩, fun items hhead => by cases hhead⟩
  | accepted _ channels items rest hentries =>
    rw [hentries]
    refine ⟨fun hhead => (by cases hhead), fun items' hhead => ?_⟩
    cases hhead
    rfl
  | exhausted _ channels hentries =>
    rw [hentries]
    exact ⟨fun hhead => (by cases hhead), fun items hhead => by cases hhead⟩

/-- A subscriber that asks notes the attempt and stands as the script says. -/
theorem Asks.noted (hstarts : l₀.Starts s id script) (hanswers : Answers answer) {i : Nat}
    (hasks : Asks s id script l₀ i l) :
    (goOn s answer l).times s = l.times s ++ [l.cluster.now] ∧
      (goOn s answer l).cluster.now = l.cluster.now ∧
      ∃ y, (goOn s answer l).loop = some y ∧
        (script[i]? = some .refuse → ∃ time pause, y = .resting time pause) ∧
        ∀ items, script[i]? = some (.accept items) → y = .listening (.script items) := by
  obtain ⟨pause, hx⟩ := hasks.subscribing
  obtain ⟨p, y, hafter, hy, hturned, hmoved, -⟩ := hasks.underway.goes hanswers hx
  obtain rfl | hsilent := hmoved
  · refine ⟨?_, now_goOn s answer hx, y, hy, ?_⟩
    · obtain ⟨-, hdone⟩ | ⟨-, channels, -, hattempts, -⟩ := Outline.attempts_turned hturned
      · cases hdone pause rfl
      · rw [times_eq, times_eq, hattempts, List.map_append]
        rfl
    · rw [← hasks.head?_eq hstarts]
      exact asked_turned hturned
  · cases hsilent

/-- A subscription that ends is followed by the next attempt while the clock stands still. -/
theorem Asks.ended (hstarts : l₀.Starts s id script) (hanswers : Answers answer) {i : Nat}
    (hasks : Asks s id script l₀ i l) (hending : Ending script i) :
    ∃ l', Asks s id script l₀ (i + 1) l' ∧ l'.times s = l.times s ++ [l.cluster.now] ∧
      l'.cluster.now = l.cluster.now := by
  obtain ⟨items, hentry⟩ := hending
  obtain ⟨htimes, hnow, y, hy, -, haccepted⟩ := hasks.noted hstarts hanswers
  obtain rfl := haccepted items hentry
  obtain ⟨l', pause', hrun, hunderway, hloop, hnow', hscript⟩ :=
    (hasks.underway.kept hanswers).1.resubscribes hanswers hy rfl
  have htimes' : l'.times s = l.times s ++ [l.cluster.now] := by
    rw [← htimes, times_eq, times_eq, hscript]
  have hrun' := (hasks.run.trans (run_goOn s hanswers l)).trans hrun
  refine ⟨l', ⟨hrun', hunderway, ⟨pause', hloop⟩, ?_⟩, htimes', hnow'.trans hnow⟩
  rw [htimes', List.length_append, hasks.times, List.length_singleton]

/-- A refused subscription is followed by the next attempt after a pause. -/
theorem Asks.refused (hstarts : l₀.Starts s id script) (hanswers : Answers answer) {i : Nat}
    (hasks : Asks s id script l₀ i l) (hrefused : script[i]? = some .refuse) :
    Asks s id script l₀ (i + 1) (goOn s answer (goOn s answer l)) := by
  obtain ⟨htimes, -, y, hy, hrests, -⟩ := hasks.noted hstarts hanswers
  obtain ⟨time, pause, rfl⟩ := hrests hrefused
  have hunderway := (hasks.underway.kept hanswers).1
  obtain ⟨p, z, hafter, hz, hturned, hmoved, -⟩ := hunderway.goes hanswers hy
  obtain rfl | hsilent := hmoved
  · have hrun := (hasks.run.trans (run_goOn s hanswers l)).trans (run_goOn s hanswers _)
    obtain ⟨hsame, -⟩ | ⟨_, _, hsubscribing, _⟩ := Outline.attempts_turned hturned
    · refine ⟨hrun, (hunderway.kept hanswers).1, ?_, ?_⟩
      · generalize (goOn s answer (goOn s answer l)).cluster.scriptAt s = relay at hturned
        cases hturned with
        | rested => exact ⟨pause, hz⟩
      · rw [times_eq, hsame, ← times_eq, htimes, List.length_append, hasks.times,
          List.length_singleton]
    · cases hsubscribing
  · cases hsilent

/-- A subscriber can get to ask for each subscription of the script, and for one more. -/
theorem Starts.asks (hstarts : l₀.Starts s id script) (hgoing : l₀.stopping = false)
    (hanswers : Answers answer) {i : Nat} (hi : i ≤ script.length) :
    ∃ l, Asks s id script l₀ i l := by
  induction i with
  | zero =>
    refine ⟨l₀, .refl, hstarts.underway hgoing, ⟨firstPause, hstarts.loop⟩, ?_⟩
    obtain ⟨relay, hscripted, _, hattempts⟩ := hstarts.scripted
    simp only [times_eq, hscripted.scriptAt_eq, hattempts, List.map_nil, List.length_nil]
  | succ i ih =>
    have hlt : i < script.length := hi
    obtain ⟨l, hasks⟩ := ih hlt.le
    have hentry := List.getElem?_eq_getElem hlt
    cases hmet : script[i] with
    | refuse => exact ⟨_, hasks.refused hstarts hanswers (hmet ▸ hentry)⟩
    | accept items =>
      have hending : Ending script i := ⟨items, hmet ▸ hentry⟩
      exact (hasks.ended hstarts hanswers hending).imp fun _ h => h.1

/-! ## Which attempts are apart -/

theorem not_apart_of_ending (hstarts : l₀.Starts s id script) (hgoing : l₀.stopping = false)
    {i : Nat} (hending : Ending script i) : ∃ l, Run s l₀ l ∧ ¬ Apart (l.times s) i := by
  have hanswers : Answers fun _ _ => .ok () := fun _ _ e heq => by cases heq
  have hi : i < script.length := by
    obtain ⟨items, hentry⟩ := hending
    exact (List.getElem?_eq_some_iff.mp hentry).1
  obtain ⟨l, hasks⟩ := hstarts.asks hgoing hanswers hi.le
  obtain ⟨l', hasks', htimes, hnow⟩ := hasks.ended hstarts hanswers hending
  obtain ⟨htimes', -⟩ := hasks'.noted hstarts hanswers
  refine ⟨_, hasks'.run.trans (run_goOn s hanswers l'), fun hapart => ?_⟩
  rw [htimes', htimes, hnow, ← hasks.times] at hapart
  have hlate := hapart l.cluster.now l.cluster.now (by simp) (by simp)
  rw [firstPause] at hlate
  omega

/-- In every run a pause follows an attempt, if and only if the script does not meet the attempt
with a subscription that ends. So the attempts of all runs are a pause apart if and only if the
script only refuses. -/
theorem attempts_apart_iff (hstarts : l₀.Starts s id script) (hgoing : l₀.stopping = false) :
    (∀ i, (∀ l, Run s l₀ l → Apart (l.times s) i) ↔ ¬ Ending script i) ∧
    ((∀ l, Run s l₀ l → ∀ i, Apart (l.times s) i) ↔
      ∀ entry ∈ script, entry = .refuse) := by
  have hiff (i : Nat) : (∀ l, Run s l₀ l → Apart (l.times s) i) ↔ ¬ Ending script i := by
    constructor
    · intro hapart hending
      obtain ⟨l, hrun, hclose⟩ := not_apart_of_ending hstarts hgoing hending
      exact hclose (hapart l hrun)
    · intro hlasting l hrun
      exact ((hrun.outline hstarts.tuned).1.paced hstarts.paced).apart i hlasting
  refine ⟨hiff, fun hapart entry hentry => ?_, fun hrefuse l hrun i => (hiff i).mpr ?_ l hrun⟩
  · obtain ⟨i, hi⟩ := List.mem_iff_getElem?.mp hentry
    cases entry with
    | refuse => rfl
    | accept items => exact absurd ⟨items, hi⟩ ((hiff i).mp fun l hrun => hapart l hrun i)
  · rintro ⟨items, hentry⟩
    cases hrefuse _ (List.mem_of_getElem? hentry)

theorem attempts_apart_iff_flapping :
    (∀ l, Run 0 besides l → Apart (l.times 0) 0) ∧
      ¬ ∀ l, Run 0 besides l → Apart (l.times 0) 1 := by
  have hstarts : besides.Starts 0 ⟨"b"⟩ flapping :=
    ⟨⟨{ entries := flapping }, ⟨_, rfl, rfl, rfl⟩, rfl, rfl⟩, rfl, rfl⟩
  obtain ⟨hiff, -⟩ := attempts_apart_iff hstarts rfl
  refine ⟨(hiff 0).mpr ?_, fun hapart => (hiff 1).mp hapart ⟨_, rfl⟩⟩
  rintro ⟨items, hentry⟩
  cases hentry

/-- A server whose relay accepts one subscription and ends it. -/
def dropped : Listener where
  cluster := {
    stamp := .epoch
    servers := [{ id := ⟨"s"⟩, link := .script { entries := [.accept []] } }]
    ring := .ofCapacity 4 }

/-- The relay is asked for the next subscription at the time of the one that it ended. -/
theorem asks_again_at_once : ¬ ∀ l, Run 0 dropped l → ∀ i, Apart (l.times 0) i := by
  intro hapart
  have hanswers : Answers fun _ _ => .ok () := fun _ _ e heq => by cases heq
  have hrun : Run 0 dropped ((goOn 0 fun _ _ => .ok ())^[3] dropped) :=
    ((run_goOn 0 hanswers _).trans (run_goOn 0 hanswers _)).trans (run_goOn 0 hanswers _)
  exact absurd (hapart _ hrun 0 0 0 rfl rfl) (by decide)

end Listener

end EventHub.Cluster
