import EventHub.Cluster.Subscriber
import Mathlib.Logic.Relation
/-!
# Servers that listen to a relay

A server whose relay follows a script, and the calls that its subscriber makes on the publisher of
its own connections. Nothing is asked of that publisher but that it cancels only when the service is
to stop: it may take its time, fail in any way, and do what it likes to the rest of the cluster.
`Turned` is all that one step of the subscriber may come to.
-/

namespace EventHub.Cluster

/-! ## Publishers -/

/-- One step of a publication to the own connections of a server, whoever does it. -/
abbrev Publish :=
  Cluster → LocalPublish → Cluster × Progress LocalPublish (Except Error Unit)

/-- The publication that the server `s` itself does. -/
def ownPublish (cancelled : Bool) (s : Nat) : Publish := fun c p => c.stepLocal cancelled s p

/-- One step of the subscriber of the server `s`, with a publisher in place of the server's own. -/
def listenWith (publish : Publish) (c : Cluster) (stopping stopFirst : Bool) (s : Nat) :
    Subscriber → Cluster × Progress Subscriber Unit
  | .handling feed (.publishing p) =>
    match publish c p with
    | (c, .blocked) => (c, .blocked)
    | (c, .moved p) => (c, .moved (.handling feed (.publishing p)))
    | (c, .done (.ok ())) => (c, .moved (.listening feed))
    | (c, .done (.error e)) =>
      if e.isCancelled then (c, .done ()) else (c, .moved (.listening feed))
  | x => c.stepSubscriber stopping stopFirst s x

/-- The subscriber that runs is the one with the server's own publisher. -/
theorem stepSubscriber_eq (c : Cluster) (stopping stopFirst : Bool) (s : Nat) (x : Subscriber) :
    c.stepSubscriber stopping stopFirst s x =
      c.listenWith (ownPublish stopping s) stopping stopFirst s x := by
  cases x with
  | handling feed h =>
    cases h with
    | fresh raw => rfl
    | publishing p =>
      simp only [stepSubscriber, stepHandling, listenWith, ownPublish]
      generalize c.stepLocal stopping s p = q
      obtain ⟨c', _ | p' | ⟨e | _⟩⟩ := q <;> rfl
  | _ => rfl

/-- What the relay of the server `s` sees of a cluster is as before. Time may have passed. -/
structure Undisturbed (s : Nat) (c c' : Cluster) : Prop where
  server : (c'.server? s).map (fun x => (x.id, x.link)) =
    (c.server? s).map fun x => (x.id, x.link)
  now : c.now ≤ c'.now

theorem Undisturbed.refl (s : Nat) (c : Cluster) : Undisturbed s c c := ⟨rfl, Nat.le_refl _⟩

/-- A publisher that leaves the relay alone and cancels only when the service is to stop. -/
structure Publish.Fair (publish : Publish) (s : Nat) (stopping : Bool) : Prop where
  undisturbed : ∀ c p, Undisturbed s c (publish c p).1
  stops : ∀ c p e, (publish c p).2 = .done (.error e) → e.isCancelled = true → stopping = true

/-! ## Scripts -/

def ScriptItem.text? : ScriptItem → Option String
  | .message text => some text
  | .failure _ => none

def ScriptEntry.texts : ScriptEntry → List String
  | .refuse => []
  | .accept items => items.filterMap ScriptItem.text?

def textsOf (script : List ScriptEntry) : List String := script.flatMap ScriptEntry.texts

/-- The call that a server owes its publisher for a text: one for each message of another server
whose payload can be read. -/
def due? (id : ServerId) (raw : String) : Option (Option ClientId × Event) :=
  match Relay.Message.decode raw with
  | .error _ => none
  | .ok m => if m.source = id then none else m.event.toOption.map (m.target, ·)

def Scripted (s : Nat) (id : ServerId) (script : Script) (c : Cluster) : Prop :=
  ∃ server, c.server? s = some server ∧ server.id = id ∧ server.link = .script script

def scriptAt (c : Cluster) (s : Nat) : Script :=
  match (c.server? s).map Server.link with
  | some (.script script) => script
  | _ => {}

theorem Scripted.scriptAt_eq {s : Nat} {id : ServerId} {script : Script} {c : Cluster}
    (hscripted : c.Scripted s id script) : c.scriptAt s = script := by
  obtain ⟨server, hserver, _, hlink⟩ := hscripted
  simp only [scriptAt, hserver, Option.map_some, hlink]

theorem Scripted.of_undisturbed {s : Nat} {id : ServerId} {script : Script} {c c' : Cluster}
    (hscripted : c.Scripted s id script) (hundisturbed : Undisturbed s c c') :
    c'.Scripted s id script := by
  obtain ⟨server, hserver, hid, hlink⟩ := hscripted
  have hmap := hundisturbed.server
  rw [hserver, Option.map_some, Option.map_eq_some_iff] at hmap
  obtain ⟨server', hserver', hpart⟩ := hmap
  simp only [Prod.mk.injEq] at hpart
  exact ⟨server', hserver', hpart.1.trans hid, hpart.2.trans hlink⟩

/-! ## One step of the subscriber -/

/-- What one step of a subscriber may come to at a time: what becomes of the script, and whether it
gets on. -/
inductive Turned (id : ServerId) (stopping : Bool) (now : Nat) (script : Script) :
    Subscriber → Script → Progress Subscriber Unit → Prop where
  | stopped (x : Subscriber) (hstopping : stopping = true) :
      Turned id stopping now script x script (.done ())
  | refused (pause : Nat) (channels : List String) (rest : List ScriptEntry)
      (hentries : script.entries = .refuse :: rest) :
      Turned id stopping now script (.subscribing pause)
        { script with attempts := script.attempts ++ [(now, channels)], entries := rest }
        (.moved (.resting (now + pause) (nextPause pause)))
  | accepted (pause : Nat) (channels : List String) (items : List ScriptItem)
      (rest : List ScriptEntry) (hentries : script.entries = .accept items :: rest) :
      Turned id stopping now script (.subscribing pause)
        { script with attempts := script.attempts ++ [(now, channels)], entries := rest }
        (.moved (.listening (.script items)))
  | exhausted (pause : Nat) (channels : List String) (hentries : script.entries = []) :
      Turned id stopping now script (.subscribing pause)
        { script with attempts := script.attempts ++ [(now, channels)], entries := [] }
        (.moved (.listening .silent))
  | rests (time pause : Nat) (htime : now < time) :
      Turned id stopping now script (.resting time pause) script .blocked
  | rested (time pause : Nat) (htime : time ≤ now) :
      Turned id stopping now script (.resting time pause) script (.moved (.subscribing pause))
  | quiet : Turned id stopping now script (.listening .silent) script .blocked
  | hears (text : String) (items : List ScriptItem) :
      Turned id stopping now script (.listening (.script (.message text :: items))) script
        (.moved (.handling (.script items) (.fresh text)))
  | loses (e : Error) (items : List ScriptItem) :
      Turned id stopping now script (.listening (.script (.failure e :: items))) script
        (.moved (.listening (.script items)))
  | ends : Turned id stopping now script (.listening (.script [])) script
        (.moved (.subscribing firstPause))
  | passes (feed : Feed) (raw : String) (hdue : due? id raw = none) :
      Turned id stopping now script (.handling feed (.fresh raw)) script (.moved (.listening feed))
  | calls (feed : Feed) (raw : String) (target : Option ClientId) (event : Event)
      (hdue : due? id raw = some (target, event)) :
      Turned id stopping now script (.handling feed (.fresh raw)) script
        (.moved (.handling feed (.publishing (.fresh target event))))
  | waits (feed : Feed) (p : LocalPublish) :
      Turned id stopping now script (.handling feed (.publishing p)) script .blocked
  | publishes (feed : Feed) (p p' : LocalPublish) :
      Turned id stopping now script (.handling feed (.publishing p)) script
        (.moved (.handling feed (.publishing p')))
  | published (feed : Feed) (p : LocalPublish) :
      Turned id stopping now script (.handling feed (.publishing p)) script
        (.moved (.listening feed))

variable {s : Nat} {id : ServerId} {script : Script} {c : Cluster} {stopping : Bool}

def Turns (s : Nat) (id : ServerId) (script : Script) (c : Cluster) (stopping : Bool)
    (x : Subscriber) (p : Cluster × Progress Subscriber Unit) : Prop :=
  ∃ script', p.1.Scripted s id script' ∧ c.now ≤ p.1.now ∧
    Turned id stopping c.now script x script' p.2

theorem Scripted.turns (hscripted : c.Scripted s id script) {x : Subscriber}
    {p : Progress Subscriber Unit} (hturned : Turned id stopping c.now script x script p) :
    Turns s id script c stopping x (c, p) :=
  ⟨script, hscripted, Nat.le_refl _, hturned⟩

theorem turns_subscribing (hscripted : c.Scripted s id script) (stopping stopFirst : Bool)
    (pause : Nat) : Turns s id script c stopping (.subscribing pause)
      (c.stepSubscriber stopping stopFirst s (.subscribing pause)) := by
  rw [stepSubscriber]
  split
  · next hstop => exact hscripted.turns (.stopped _ (Bool.and_eq_true_iff.mp hstop).1)
  · obtain ⟨server, hserver, hid, hlink⟩ := hscripted
    have hnoted (script' : Script) :
        (c.modifyServer s fun x => { x with link := .script script' }).Scripted s id script' := by
      refine ⟨{ server with link := .script script' }, ?_, hid, rfl⟩
      have hget : c.servers[s]? = some server := hserver
      rw [server?, modifyServer, List.getElem?_modify_eq, hget]
      rfl
    simp only [subscribe, hserver, hlink]
    cases hentries : script.entries with
    | nil => exact ⟨_, hnoted _, Nat.le_refl _, .exhausted pause _ hentries⟩
    | cons entry rest =>
      cases entry with
      | refuse => exact ⟨_, hnoted _, Nat.le_refl _, .refused pause _ rest hentries⟩
      | accept items =>
        exact ⟨_, hnoted _, Nat.le_refl _, .accepted pause _ items rest hentries⟩

theorem turns_resting (hscripted : c.Scripted s id script) (stopping stopFirst : Bool)
    (time pause : Nat) : Turns s id script c stopping (.resting time pause)
      (c.stepSubscriber stopping stopFirst s (.resting time pause)) := by
  simp only [stepSubscriber]
  split
  · next hstop => exact hscripted.turns (.stopped _ (Bool.and_eq_true_iff.mp hstop).1)
  · split
    · next htime => exact hscripted.turns (.rested time pause htime)
    · next htime => exact hscripted.turns (.rests time pause (Nat.not_le.mp htime))

def Feed.OfScript : Feed → Prop
  | .script _ | .silent => True
  | .ring _ => False

theorem turns_listening (hscripted : c.Scripted s id script) (stopping stopFirst : Bool)
    {feed : Feed} (hfeed : feed.OfScript) : Turns s id script c stopping (.listening feed)
      (c.stepSubscriber stopping stopFirst s (.listening feed)) := by
  simp only [stepSubscriber]
  split
  · next hstop => exact hscripted.turns (.stopped _ (Bool.and_eq_true_iff.mp hstop).1)
  · cases feed with
    | ring reader => exact hfeed.elim
    | silent =>
      simp only [Feed.next, if_true]
      split
      · next hstop => exact hscripted.turns (.stopped _ hstop)
      · exact hscripted.turns .quiet
    | script items =>
      cases items with
      | nil => exact hscripted.turns .ends
      | cons item items =>
        cases item with
        | message text => exact hscripted.turns (.hears text items)
        | failure e => exact hscripted.turns (.loses e items)

/-- A text that cannot be read, and one without a payload that can be, are passed over. -/
theorem turns_received (hscripted : c.Scripted s id script) (stopping stopFirst : Bool)
    (feed : Feed) (raw : String) : Turns s id script c stopping (.handling feed (.fresh raw))
      (c.stepSubscriber stopping stopFirst s (.handling feed (.fresh raw))) := by
  have hpass (hdue : due? id raw = none) :
      Turns s id script c stopping (.handling feed (.fresh raw))
        (c, .moved (.listening feed)) := hscripted.turns (.passes feed raw hdue)
  have hcall (target : Option ClientId) (event : Event)
      (hdue : due? id raw = some (target, event)) :
      Turns s id script c stopping (.handling feed (.fresh raw))
        (c, .moved (.handling feed (.publishing (.fresh target event)))) :=
    hscripted.turns (.calls feed raw target event hdue)
  obtain ⟨server, hserver, hid, _⟩ := hscripted
  simp only [stepSubscriber, stepHandling, hserver, received, hid]
  cases hdecoded : Relay.Message.decode raw with
  | error e =>
    have hkind : e.isCancelled = false := by
      unfold Relay.Message.decode at hdecoded
      cases hread : Relay.Message.read raw.toList <;> rw [hread] at hdecoded <;> cases hdecoded
      rfl
    simp only [hkind, Bool.false_eq_true, if_false]
    exact hpass (by simp only [due?, hdecoded])
  | ok m =>
    by_cases hown : m.source = id
    · simp only [if_pos hown]
      exact hpass (by simp only [due?, hdecoded, if_pos hown])
    · simp only [if_neg hown]
      cases hevent : m.event with
      | error e =>
        have hkind : e.isCancelled = false := by
          unfold Relay.Message.event at hevent
          split at hevent <;> cases hevent
          rfl
        simp only [hkind, Bool.false_eq_true, if_false]
        exact hpass (by simp only [due?, hdecoded, if_neg hown, hevent]; rfl)
      | ok event =>
        exact hcall m.target event (by simp only [due?, hdecoded, if_neg hown, hevent]; rfl)

theorem turns_publishing (hscripted : c.Scripted s id script) {stopping : Bool} {publish : Publish}
    (hfair : publish.Fair s stopping) (stopFirst : Bool) (feed : Feed) (p : LocalPublish) :
    Turns s id script c stopping (.handling feed (.publishing p))
      (c.listenWith publish stopping stopFirst s (.handling feed (.publishing p))) := by
  have hundisturbed := hfair.undisturbed c p
  have hstops := hfair.stops c p
  have hafter := hscripted.of_undisturbed hundisturbed
  have hnow := hundisturbed.now
  simp only [listenWith]
  generalize publish c p = q at hstops hafter hnow
  obtain ⟨c', _ | p' | ⟨e | _⟩⟩ := q
  · exact ⟨_, hafter, hnow, .waits feed p⟩
  · exact ⟨_, hafter, hnow, .publishes feed p p'⟩
  · dsimp only
    split
    · next hcancelled => exact ⟨_, hafter, hnow, .stopped _ (hstops e rfl hcancelled)⟩
    · exact ⟨_, hafter, hnow, .published feed p⟩
  · exact ⟨_, hafter, hnow, .published feed p⟩

def Subscriber.feed? : Subscriber → Option Feed
  | .subscribing _ | .resting .. => none
  | .listening feed | .handling feed _ => some feed

theorem Turned.fed {now : Nat} {script' : Script} {x y : Subscriber}
    (hturned : Turned id stopping now script x script' (.moved y))
    (hfed : ∀ feed, x.feed? = some feed → feed.OfScript) :
    ∀ feed, y.feed? = some feed → feed.OfScript := by
  intro feed hfeed
  cases hturned with
  | refused | rested | ends => cases hfeed
  | accepted | exhausted | hears | loses =>
    cases hfeed
    trivial
  | passes | calls | publishes | published => exact hfed feed hfeed

theorem listenWith_turns (hscripted : c.Scripted s id script) {stopping : Bool} {publish : Publish}
    (hfair : publish.Fair s stopping) (stopFirst : Bool) {x : Subscriber}
    (hfeed : ∀ feed, x.feed? = some feed → feed.OfScript) :
    Turns s id script c stopping x (c.listenWith publish stopping stopFirst s x) := by
  cases x with
  | subscribing pause => exact turns_subscribing hscripted stopping stopFirst pause
  | resting time pause => exact turns_resting hscripted stopping stopFirst time pause
  | listening feed => exact turns_listening hscripted stopping stopFirst (hfeed feed rfl)
  | handling feed h =>
    cases h with
    | fresh raw => exact turns_received hscripted stopping stopFirst feed raw
    | publishing p => exact turns_publishing hscripted hfair stopFirst feed p

end EventHub.Cluster
