import EventHub.Proofs.Cluster.Listeners
import EventHub.Proofs.Relay.Message
/-!
# What a subscriber calls

Whatever the relay delivers and whatever the publisher answers, a subscriber that is not told to
stop goes on, and has made one call for each text that it has handled and that is a message of
another server with a payload that can be read, in the order of the texts. Given time and answers it
handles every text of the script.
-/

namespace EventHub.Cluster

/-! ## What is still to come -/

def Feed.texts : Feed → List String
  | .script items => items.filterMap ScriptItem.text?
  | .ring _ | .silent => []

def Subscriber.texts : Subscriber → List String
  | .subscribing _ | .resting .. => []
  | .listening feed | .handling feed (.publishing _) => feed.texts
  | .handling feed (.fresh raw) => raw :: feed.texts

def ScriptItem.work : ScriptItem → Nat
  | .message _ => 3
  | .failure _ => 1

def Feed.work : Feed → Nat
  | .script items => (items.map ScriptItem.work).sum + 2
  | .ring _ | .silent => 0

def ScriptEntry.work : ScriptEntry → Nat
  | .refuse => 2
  | .accept items => (Feed.script items).work

def Handling.work : Handling → Nat
  | .fresh _ => 2
  | .publishing _ => 1

def Subscriber.work : Subscriber → Nat
  | .subscribing _ => 1
  | .resting .. => 2
  | .listening feed => feed.work
  | .handling feed h => h.work + feed.work

def workOf (script : List ScriptEntry) : Nat := (script.map ScriptEntry.work).sum

theorem workOf_cons (entry : ScriptEntry) (rest : List ScriptEntry) :
    workOf (entry :: rest) = entry.work + workOf rest := rfl

theorem eq_nil_of_workOf {script : List ScriptEntry} (hwork : workOf script = 0) : script = [] := by
  cases script with
  | nil => rfl
  | cons entry rest =>
    rw [workOf_cons] at hwork
    cases entry <;> simp [ScriptEntry.work, Feed.work] at hwork

namespace Outline

variable {id : ServerId} {script : List ScriptEntry} {o o' : Outline}

def toCome (o : Outline) : List String :=
  (o.loop.elim [] Subscriber.texts) ++ textsOf o.script.entries

/-- A bound on the steps that are left for a subscriber whose publisher answers at once. -/
def work (o : Outline) : Nat := (o.loop.elim 0 Subscriber.work) + workOf o.script.entries

/-- The subscriber goes on until it is told to stop, and the calls are those due for the texts of
the script that it has handled. -/
structure Follows (id : ServerId) (script : List ScriptEntry) (o : Outline) : Prop where
  going : o.stopping = false → o.loop.isSome = true
  /-- Nothing is left of the script once nothing more is heard. -/
  silent : ∀ x, o.loop = some x → x.feed? = some .silent → o.script.entries = []
  handled : o.loop.isSome = true → ∃ handled, textsOf script = handled ++ o.toCome ∧
    o.calls = handled.filterMap (due? id)

/-! ## What a step does -/

def textDone? : Subscriber → Progress Subscriber Unit → Option String
  | .handling _ (.fresh raw), .moved _ => some raw
  | _, _ => none

/-- A step is done with the first of the texts to come, or with none, and makes the call that is
due for it. -/
theorem texts_turned {stopping : Bool} {now : Nat} {relay relay' : Script} {x y : Subscriber}
    {p : Progress Subscriber Unit} (hturned : Turned id stopping now relay x relay' p)
    (hafter : x.after p = some y) :
    x.texts ++ textsOf relay.entries =
      (textDone? x p).toList ++ (y.texts ++ textsOf relay'.entries) ∧
    x.call? p = (textDone? x p).bind (due? id) := by
  cases hturned with
  | stopped => cases hafter
  | refused pause channels rest hentries | accepted pause channels items rest hentries
  | exhausted pause channels hentries =>
    cases hafter
    rw [hentries]
    exact ⟨rfl, rfl⟩
  | passes feed raw hdue =>
    cases hafter
    exact ⟨rfl, hdue.symm⟩
  | calls feed raw target event hdue =>
    cases hafter
    exact ⟨rfl, hdue.symm⟩
  | _ =>
    cases hafter
    exact ⟨rfl, rfl⟩

theorem silent_turned {stopping : Bool} {now : Nat} {relay relay' : Script} {x y : Subscriber}
    {p : Progress Subscriber Unit} (hturned : Turned id stopping now relay x relay' p)
    (hafter : x.after p = some y) (hsilent : x.feed? = some .silent → relay.entries = []) :
    y.feed? = some .silent → relay'.entries = [] := by
  cases hturned with
  | stopped => cases hafter
  | exhausted =>
    cases hafter
    exact fun _ => rfl
  | quiet | passes | calls | waits | publishes | published =>
    cases hafter
    exact hsilent
  | _ =>
    cases hafter
    intro hfeed
    cases hfeed

theorem Follows.turn (hfollows : o.Follows id script) {x : Subscriber} (hx : o.loop = some x)
    {relay : Script} {p : Progress Subscriber Unit}
    (hturned : Turned id o.stopping o.now o.script x relay p) (now : Nat) :
    Follows id script { o with
      now := now, script := relay, loop := x.after p, calls := o.calls ++ (x.call? p).toList } := by
  constructor
  · intro hgoing
    cases hturned with
    | stopped x hstopping =>
      rw [show o.stopping = false from hgoing] at hstopping
      cases hstopping
    | _ => rfl
  · exact fun y hy => silent_turned hturned hy (hfollows.silent x hx)
  · intro hsome
    obtain ⟨y, hy⟩ := Option.isSome_iff_exists.mp hsome
    obtain ⟨handled, htexts, hcalls⟩ := hfollows.handled (by rw [hx]; rfl)
    obtain ⟨hstep, hcall⟩ := texts_turned hturned hy
    refine ⟨handled ++ (textDone? x p).toList, ?_, ?_⟩
    · rw [htexts, toCome, toCome, hx, hy, Option.elim_some, Option.elim_some, hstep,
        List.append_assoc]
    · rw [hcalls, hcall, List.filterMap_append]
      cases textDone? x p with
      | none => rfl
      | some raw =>
        rw [Option.bind_some, Option.toList_some, List.filterMap_cons]
        cases due? id raw <;> rfl

theorem Step.follows (hstep : Step id o o') (hfollows : o.Follows id script) :
    o'.Follows id script := by
  cases hstep with
  | turn hx hturned now _ => exact hfollows.turn hx hturned now
  | stop => exact ⟨fun hgoing => (by cases hgoing), hfollows.silent, hfollows.handled⟩
  | wait now _ => exact ⟨hfollows.going, hfollows.silent, hfollows.handled⟩

theorem Run.follows (hrun : Run id o o') (hfollows : o.Follows id script) :
    o'.Follows id script := by
  induction hrun with
  | refl => exact hfollows
  | tail _ hstep ih => exact hstep.follows ih

/-- A step that gets on leaves less to do, if the publisher answers. -/
theorem work_turned {stopping : Bool} {now : Nat} {relay relay' : Script} {x y : Subscriber}
    (hturned : Turned id stopping now relay x relay' (.moved y))
    (hanswered : ∀ feed p, x = .handling feed (.publishing p) → y = .listening feed) :
    y.work + workOf relay'.entries < x.work + workOf relay.entries := by
  cases hturned with
  | refused pause channels rest hentries | accepted pause channels items rest hentries =>
    rw [hentries, workOf_cons]
    simp only [Subscriber.work, ScriptEntry.work]
    omega
  | exhausted pause channels hentries =>
    rw [hentries]
    exact Nat.lt_succ_self _
  | publishes feed p => cases hanswered feed p rfl
  | _ =>
    simp only [Subscriber.work, Feed.work, Handling.work, ScriptItem.work, List.map_cons,
      List.sum_cons, List.map_nil, List.sum_nil]
    omega

theorem toCome_of_work (hwork : o.work = 0) : o.toCome = [] := by
  obtain ⟨hloop, hscript⟩ := Nat.add_eq_zero_iff.mp hwork
  rw [toCome, eq_nil_of_workOf hscript]
  cases hx : o.loop with
  | none => rfl
  | some x =>
    rw [hx, Option.elim_some] at hloop
    cases x with
    | subscribing | resting => cases hloop
    | listening feed =>
      cases feed with
      | script items => cases hloop
      | ring | silent => rfl
    | handling feed h => cases h <;> simp [Subscriber.work, Handling.work] at hloop

end Outline

/-! ## Going on to the end -/

namespace Listener

variable {s : Nat} {id : ServerId} {script : List ScriptEntry} {l l₀ : Listener}
  {answer : Cluster → LocalPublish → Except Error Unit}

def answering (answer : Cluster → LocalPublish → Except Error Unit) : Publish :=
  fun c p => (c, .done (answer c p))

def rested (x : Subscriber) (c : Cluster) : Cluster :=
  match x with
  | .resting time _ => { c with now := max c.now time }
  | _ => c

/-- The subscriber goes on, after its pause if it is in one. -/
def goOn (s : Nat) (answer : Cluster → LocalPublish → Except Error Unit) (l : Listener) :
    Listener :=
  match l.loop with
  | none => l
  | some x => { l with cluster := rested x l.cluster }.turn (answering answer) true s x

def Answers (answer : Cluster → LocalPublish → Except Error Unit) : Prop :=
  ∀ c p e, answer c p = .error e → e.isCancelled = false

theorem Answers.fair (hanswers : Answers answer) (s : Nat) (stopping : Bool) :
    (answering answer).Fair s stopping := by
  refine ⟨fun c p => Undisturbed.refl s c, fun c p e hdone hcancelled => ?_⟩
  have hanswer : answer c p = .error e := by simpa [answering] using hdone
  rw [hanswers c p e hanswer] at hcancelled
  cases hcancelled

theorem undisturbed_rested (s : Nat) (x : Subscriber) (c : Cluster) :
    Undisturbed s c (rested x c) := by
  cases x with
  | resting time pause => exact ⟨rfl, Nat.le_max_left _ _⟩
  | _ => exact Undisturbed.refl s c

/-- A subscriber that is not told to stop, on its way through the script. -/
structure Underway (s : Nat) (id : ServerId) (script : List ScriptEntry) (l : Listener) : Prop where
  tuned : l.Tuned s id
  follows : (l.outline s).Follows id script
  going : l.stopping = false

/-- The steps that are left, at most, for a publisher that answers at once. -/
def work (s : Nat) (l : Listener) : Nat := (l.outline s).work

theorem goOn_eq (s : Nat) (answer : Cluster → LocalPublish → Except Error Unit) {x : Subscriber}
    (hx : l.loop = some x) : goOn s answer l =
      { l with cluster := rested x l.cluster }.turn (answering answer) true s x := by
  simp only [goOn, hx]

/-- A subscriber that goes on gets on, unless it waits for ever: its pause is over, and its
publisher answers. -/
theorem Underway.goes (hunderway : l.Underway s id script) (hanswers : Answers answer)
    {x : Subscriber} (hx : l.loop = some x) :
    ∃ p y, x.after p = some y ∧ (goOn s answer l).loop = some y ∧
      Turned id false (rested x l.cluster).now (l.cluster.scriptAt s) x
        ((goOn s answer l).cluster.scriptAt s) p ∧
      (p = .moved y ∨ x = .listening .silent) ∧
      ∀ feed q, x = .handling feed (.publishing q) → y = .listening feed := by
  have hscripted := hunderway.tuned.scripted.of_undisturbed (undisturbed_rested s x l.cluster)
  obtain ⟨relay, hafter, _, hturned⟩ := listenWith_turns hscripted (hanswers.fair s false) true
    (hunderway.tuned.fed x hx)
  have hanswered : ∀ feed q, x = .handling feed (.publishing q) →
      ((rested x l.cluster).listenWith (answering answer) false true s x).2 =
        .moved (.listening feed) := by
    rintro feed q rfl
    simp only [rested, listenWith, answering]
    cases hanswer : answer l.cluster q with
    | ok => rfl
    | error e => simp [hanswers _ _ e hanswer]
  simp only [goOn_eq s answer hx, turn, hunderway.going]
  generalize (rested x l.cluster).listenWith (answering answer) false true s x = q
    at hafter hturned hanswered
  rw [hafter.scriptAt_eq]
  obtain ⟨c, _ | y | _⟩ := q
  · refine ⟨.blocked, x, rfl, rfl, hturned, ?_,
      fun feed q heq => by cases hanswered feed q heq⟩
    cases hturned with
    | rests time pause htime => exact absurd (Nat.le_max_right _ _) (Nat.not_le.mpr htime)
    | quiet => exact .inr rfl
    | waits feed q => cases hanswered feed q rfl
  · refine ⟨.moved y, y, rfl, rfl, hturned, .inl rfl, fun feed q heq => ?_⟩
    cases hanswered feed q heq
    rfl
  · cases hturned with
    | stopped _ hstopping => cases hstopping

theorem Underway.of_run {l' : Listener} (hunderway : l.Underway s id script) (hrun : Run s l l')
    (hgoing : l'.stopping = false) : l'.Underway s id script := by
  obtain ⟨hrun', htuned⟩ := hrun.outline hunderway.tuned
  exact ⟨htuned, hrun'.follows hunderway.follows, hgoing⟩

theorem run_goOn (s : Nat) (hanswers : Answers answer) (l : Listener) :
    Run s l (goOn s answer l) := by
  unfold goOn
  split
  · exact .refl
  · next x hx =>
    have hrested : Step s l { l with cluster := rested x l.cluster } :=
      .outside l _ (undisturbed_rested s x l.cluster)
    exact (Relation.ReflTransGen.single hrested).tail
      (.turn { l with cluster := rested x l.cluster } hx _ (hanswers.fair s l.stopping) true)

theorem Underway.kept (hunderway : l.Underway s id script) (hanswers : Answers answer) :
    (goOn s answer l).Underway s id script ∧ (goOn s answer l).work s ≤ l.work s - 1 := by
  obtain ⟨x, hx⟩ := Option.isSome_iff_exists.mp (hunderway.follows.going hunderway.going)
  have hx : l.loop = some x := hx
  have hgoing : (goOn s answer l).stopping = false := by
    rw [goOn_eq s answer hx]
    exact hunderway.going
  refine ⟨hunderway.of_run (run_goOn s hanswers l) hgoing, ?_⟩
  obtain ⟨p, y, hafter, hy, hturned, hmoved, hanswered⟩ := hunderway.goes hanswers hx
  simp only [work, Outline.work, outline, hx, hy, Option.elim_some]
  obtain rfl | rfl := hmoved
  · exact Nat.le_sub_one_of_lt (Outline.work_turned hturned hanswered)
  · have hentries : (l.cluster.scriptAt s).entries = [] := hunderway.follows.silent _ hx rfl
    generalize (goOn s answer l).cluster.scriptAt s = relay at hturned ⊢
    cases hturned with
    | stopped _ hstopping => cases hstopping
    | quiet =>
      cases hafter
      rw [hentries]
      exact Nat.zero_le _

/-- However the publisher answers, a subscriber that goes on has handled everything in the end. -/
theorem Underway.completes (hunderway : l.Underway s id script) (hanswers : Answers answer)
    {n : Nat} (hn : l.work s ≤ n) :
    ((goOn s answer)^[n] l).calls = (textsOf script).filterMap (due? id) := by
  induction n generalizing l with
  | zero =>
    have htoCome := Outline.toCome_of_work (Nat.le_zero.mp hn)
    obtain ⟨handled, htexts, hcalls⟩ :=
      hunderway.follows.handled (hunderway.follows.going hunderway.going)
    rw [htoCome, List.append_nil] at htexts
    rw [htexts]
    exact hcalls
  | succ n ih =>
    obtain ⟨hunderway', hle⟩ := hunderway.kept hanswers
    exact ih hunderway' (by omega)

theorem Starts.underway (hstarts : l.Starts s id script) (hgoing : l.stopping = false) :
    l.Underway s id script := by
  obtain ⟨relay, hscripted, hentries, _⟩ := hstarts.scripted
  refine ⟨hstarts.tuned, ⟨fun _ => ?_, fun x hx hfeed => ?_,
    fun _ => ⟨[], ?_, hstarts.calls⟩⟩,
    hgoing⟩
  · simp only [outline, hstarts.loop, Option.isSome_some]
  · have hfirst : x = .first := Option.some.inj (hx.symm.trans hstarts.loop)
    rw [hfirst] at hfeed
    cases hfeed
  · simp only [Outline.toCome, outline, hstarts.loop, hscripted.scriptAt_eq, hentries,
      Option.elim_some, Subscriber.first, Subscriber.texts, List.nil_append]

theorem Run.going (hrun : Run s l₀ l) (hgoing : l.stopping = false) : l₀.stopping = false := by
  induction hrun with
  | refl => exact hgoing
  | tail _ hstep ih =>
    cases hstep with
    | turn | outside => exact ih hgoing
    | stop => cases hgoing

/-- Until it is told to stop, a subscriber goes on, and has made, in order, the calls that are due
for the texts that it has handled, which are the first of the script. Once its publisher answers,
and be it with failures, it makes the calls that are due for all texts of the script, and no more.
-/
theorem calls_follow_script (hstarts : l₀.Starts s id script) (hrun : Run s l₀ l)
    (hgoing : l.stopping = false) :
    (∀ c stopping stopFirst x, Cluster.stepSubscriber c stopping stopFirst s x =
      c.listenWith (ownPublish stopping s) stopping stopFirst s x) ∧
    (∃ x handled, l.loop = some x ∧ textsOf script = handled ++ (l.outline s).toCome ∧
      l.calls = handled.filterMap (due? id)) ∧
    ∀ answer, Answers answer → ∀ n, l.work s ≤ n →
      ((goOn s answer)^[n] l).calls = (textsOf script).filterMap (due? id) := by
  have hunderway := (hstarts.underway (hrun.going hgoing)).of_run hrun hgoing
  have hloop := hunderway.follows.going hgoing
  obtain ⟨x, hx⟩ := Option.isSome_iff_exists.mp hloop
  obtain ⟨handled, htexts, hcalls⟩ := hunderway.follows.handled hloop
  exact ⟨fun c stopping stopFirst x => stepSubscriber_eq c stopping stopFirst s x,
    ⟨x, handled, hx, htexts, hcalls⟩, fun _ hanswers _ hn => hunderway.completes hanswers hn⟩

theorem due?_encode (id : ServerId) {m : Relay.Message}
    (hlow : Time.Date.minYear ≤ m.timestamp.date.year)
    (hhigh : m.timestamp.date.year ≤ Time.Date.maxYear) :
    due? id m.encode = if m.source = id then none else m.event.toOption.map (m.target, ·) := by
  simp only [due?, Relay.Message.decode_encode hlow hhigh]

def rain (source : ServerId) (target : Option ClientId) : Relay.Message :=
  .ofEvent source target { name := "rain", payload := .null } .epoch

def spoilt : Relay.Message := { rain ⟨"a"⟩ none with payload := "" }

/-- A relay that refuses, delivers what cannot be read, what the server `b` wrote itself and an
error, is lost, and is lost again. -/
def flapping : List ScriptEntry :=
  [.refuse,
    .accept [.message "rain", .message (rain ⟨"b"⟩ none).encode, .failure (lagError 1),
      .message (rain ⟨"a"⟩ (some "c")).encode],
    .accept [],
    .accept [.message spoilt.encode, .message (rain ⟨"a"⟩ none).encode]]

def besides : Listener where
  cluster := {
    stamp := .epoch
    servers := [{ id := ⟨"b"⟩, link := .script { entries := flapping } }]
    ring := .ofCapacity 4 }

theorem calls_follow_script_flapping :
    let closed := fun _ _ => .error (.write .closed .receiverDropped)
    ∀ n, besides.work 0 ≤ n → ((goOn 0 closed)^[n] besides).calls =
      [(some "c", { name := "rain", payload := .null }),
        (none, { name := "rain", payload := .null })] := by
  intro closed n hn
  have hstarts : besides.Starts 0 ⟨"b"⟩ flapping :=
    ⟨⟨{ entries := flapping }, ⟨_, rfl, rfl, rfl⟩, rfl, rfl⟩, rfl, rfl⟩
  have hanswers : Answers closed := fun _ _ e heq => by
    obtain rfl := Except.error.inj heq
    rfl
  obtain ⟨_, _, hcalls⟩ := calls_follow_script hstarts .refl rfl
  have hrain (source : ServerId) (target : Option ClientId) :
      due? ⟨"b"⟩ (rain source target).encode =
        if source = ⟨"b"⟩ then none
        else some (target, { name := "rain", payload := .null }) := by
    have hlow : Time.Date.minYear ≤ Time.Timestamp.epoch.date.year := by decide
    have hhigh : Time.Timestamp.epoch.date.year ≤ Time.Date.maxYear := by decide
    rw [due?_encode ⟨"b"⟩ hlow hhigh, rain, Relay.Message.event_ofEvent _ _ _
      (by simp [Json.Valid]) (by decide), Event.carried_eq (by simp [Json.Valid]) (by decide)
      (by simp [Json.Exact])]
    rfl
  have hspoilt : due? ⟨"b"⟩ spoilt.encode = none := by
    have hevent : spoilt.event.toOption = none := by decide +kernel
    rw [due?_encode ⟨"b"⟩ (by decide) (by decide), if_neg (by decide), hevent, Option.map_none]
  have htext : due? ⟨"b"⟩ "rain" = none := by rfl
  have htexts : textsOf flapping = ["rain", (rain ⟨"b"⟩ none).encode,
      (rain ⟨"a"⟩ (some "c")).encode, spoilt.encode, (rain ⟨"a"⟩ none).encode] := by rfl
  have hforeign : (⟨"a"⟩ : ServerId) ≠ ⟨"b"⟩ := by decide
  have hdue (target : Option ClientId) := (hrain ⟨"a"⟩ target).trans (if_neg hforeign)
  have hown := (hrain ⟨"b"⟩ none).trans (if_pos rfl)
  rw [hcalls closed hanswers n hn, htexts, List.filterMap_cons_none htext,
    List.filterMap_cons_none hown, List.filterMap_cons_some (hdue (some "c")),
    List.filterMap_cons_none hspoilt, List.filterMap_cons_some (hdue none), List.filterMap_nil]

end Listener

end EventHub.Cluster
