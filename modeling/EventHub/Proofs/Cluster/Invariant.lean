import EventHub.Proofs.Cluster.Network
import EventHub.Proofs.Cluster.Stages
import EventHub.Proofs.Relay.Ring
/-!
# The invariant of a network

Every task keeps account of the frames that come from it: a publication of those it has written on
its own server, a subscriber of those of the message that it handles. A subscriber has no frames of
messages that it has not come to, and each message on the relay is one that a publication has put
there at its end.
-/

namespace EventHub.Cluster.Network

open Relay (Message)

/-! ## The record -/

def framesOf (n : Network) (source : Source) (h : Nat) : List String :=
  ((n.accepted h).filter (·.source = source)).map (·.frame)

variable {u : Setup} {n n' : Network}

theorem framesOf_append {source : Source} {h : Nat} {frames : List String}
    (haccepted : n'.accepted h = n.accepted h ++ frames.map fun frame => ⟨source, frame⟩)
    (σ : Source) :
    n'.framesOf σ h = n.framesOf σ h ++ if source = σ then frames else [] := by
  unfold framesOf
  rw [haccepted, List.filter_append, List.map_append, List.filter_map]
  split
  · next hσ => simp [Function.comp_def, hσ]
  · next hσ => simp [Function.comp_def, hσ]

theorem positions_append {source : Source} {h : Nat} {frames : List String}
    (haccepted : n'.accepted h = n.accepted h ++ frames.map fun frame => ⟨source, frame⟩) :
    n'.positions h = n.positions h ++ frames.filterMap fun _ => source.position? := by
  unfold positions
  rw [haccepted, List.filterMap_append, List.filterMap_map]
  rfl

theorem framesOf_eq_nil {h position : Nat} (hposition : position ∉ n.positions h) :
    n.framesOf (.message position) h = [] := by
  rw [framesOf, List.map_eq_nil_iff, List.filter_eq_nil_iff]
  intro m hm hsource
  refine hposition (List.mem_filterMap.mpr ⟨m, hm, ?_⟩)
  rw [of_decide_eq_true hsource]
  rfl

theorem not_mem_positions {h position : Nat}
    (hframes : n.framesOf (.message position) h = []) : position ∉ n.positions h := by
  intro hmem
  obtain ⟨m, hm, hposition⟩ := List.mem_filterMap.mp hmem
  rw [framesOf, List.map_eq_nil_iff, List.filter_eq_nil_iff] at hframes
  apply hframes m hm
  cases hsource : m.source with
  | task i => simp [hsource, Source.position?] at hposition
  | message p => simpa [hsource, Source.position?] using hposition

/-! ## Tasks -/

def Carries (u : Setup) (call : Call) (raw : String) : Prop :=
  ∃ id stamp, u.ids[call.server]? = some id ∧ StampOk stamp ∧
    raw = (Message.ofEvent id call.target call.event stamp).encode

def publicationStage (t : Task) : Publication → Stage
  | .publishing _ _ p => if t.outcome.isSome then .ended else p.stage
  | .relaying .. => .ended

def handlingStage (call : Call) : Handling → Stage
  | .fresh _ => .waiting call.target call.event.carried
  | .publishing p => p.stage

structure PublicationOk (u : Setup) (n : Network) (i : Nat) (t : Task) (s : Nat)
    (p : Publication) : Prop where
  cancelAt : t.cancelAt = none
  server : s < u.ids.length
  valid : p.event.payload.Valid
  depth : p.event.payload.depth < Json.maxDepth
  stage : (publicationStage t p).Ok u n.cluster s p.target p.event
  accounts : ∀ h, u.home h = s →
    (publicationStage t p).Accounts p.event.frame h (n.framesOf (.task i) h)

/-- A reader that hears every message, and whose server has no frames of those still to come. -/
structure ReaderOk (u : Setup) (n : Network) (s : Nat) (reader : Relay.Ring.Reader) : Prop where
  channels : u.channels.broadcast ∈ reader.channels
  position_le : reader.position ≤ n.cluster.ring.sent
  bound : ∀ h, u.home h = s → ∀ position ∈ n.positions h, position < reader.position

structure HandlingOk (u : Setup) (n : Network) (s position : Nat) (call : Call)
    (hd : Handling) : Prop where
  carries : ∀ raw, hd = .fresh raw → Carries u call raw
  foreign : ∀ p, hd = .publishing p → call.server ≠ s
  stage : (handlingStage call hd).Ok u n.cluster s call.target call.event.carried
  accounts : ∀ h, u.home h = s → (handlingStage call hd).Accounts call.event.carried.frame h
    (n.framesOf (.message position) h)

def IsCallAt (n : Network) (position : Nat) (call : Call) : Prop :=
  ∃ i, n.relayed[position]? = some i ∧ n.call? i = some call

def SubscriberOk (u : Setup) (n : Network) (s : Nat) (t : Task) : Subscriber → Prop
  | .subscribing _ => ∀ h, u.home h = s → n.positions h = []
  | .resting .. => False
  | .listening feed => ∃ reader, feed = .ring reader ∧ ReaderOk u n s reader
  | .handling feed hd => ∃ reader position, feed = .ring reader ∧ ReaderOk u n s reader ∧
      reader.position = position + 1 ∧ (t.outcome = none →
        ∃ call, n.IsCallAt position call ∧ HandlingOk u n s position call hd)

def TaskOk (u : Setup) (n : Network) (i : Nat) (t : Task) : Prop :=
  match t.activity with
  | .publication s p => PublicationOk u n i t s p
  | .subscriber s st =>
    s = i ∧ s < u.ids.length ∧ t.cancelAt = none ∧ SubscriberOk u n s t st
  | .add s h _ => u.home h = s
  | .removal .. => True
  | _ => False

/-! ## The whole -/

/-- What is on the relay, as far as it is kept, are the messages of the publications that have
ended, in order. -/
structure RingOk (u : Setup) (n : Network) : Prop where
  counted : n.cluster.ring.Counted
  sent : n.cluster.ring.sent = n.relayed.length
  messages : ∀ position m, n.cluster.ring.at? position = some m →
    m.1 = u.channels.broadcast ∧ ∃ call, n.IsCallAt position call ∧ Carries u call m.2
  nodup : n.relayed.Nodup
  ended : ∀ i ∈ n.relayed, ∃ t, n.tasks[i]? = some t ∧ t.outcome.isSome = true

/-- A frame is that of the event of the call that it comes from, and comes directly on the server
of the call and by the relay on the others. -/
def MarkOk (u : Setup) (n : Network) (h : Nat) (m : Mark) : Prop :=
  match m.source with
  | .task i => ∃ call, n.call? i = some call ∧ call.server = u.home h ∧
      m.frame = call.event.frame
  | .message position => ∃ call, n.IsCallAt position call ∧ call.server ≠ u.home h ∧
      m.frame = call.event.carried.frame

structure Inv (u : Setup) (n : Network) : Prop where
  good : Good u n.cluster
  stamp : StampOk n.cluster.stamp
  tasks : ∀ i t, n.tasks[i]? = some t → TaskOk u n i t
  subscribers : ∀ s < u.ids.length,
    ∃ t st, n.tasks[s]? = some t ∧ t.activity = .subscriber s st
  ring : RingOk u n
  marks : ∀ h, ∀ m ∈ n.accepted h, MarkOk u n h m
  ordered : ∀ h, (n.positions h).Pairwise (· < ·)

/-! ## What lasts -/

/-- What is true of a network after any number of steps, as far as the tasks rely on it. -/
structure Extends (n n' : Network) : Prop where
  later : Later n.cluster n'.cluster
  sent : n.cluster.ring.sent ≤ n'.cluster.ring.sent
  relayed : n.relayed <+: n'.relayed
  calls : ∀ i call, n.call? i = some call → n'.call? i = some call

theorem Extends.refl (n : Network) : Extends n n :=
  ⟨Later.refl _, Nat.le_refl _, List.prefix_refl _, fun _ _ h => h⟩

theorem IsCallAt.extends {position : Nat} {call : Call} (hcall : n.IsCallAt position call)
    (hextends : Extends n n') : n'.IsCallAt position call := by
  obtain ⟨i, hi, hcall⟩ := hcall
  obtain ⟨more, hmore⟩ := hextends.relayed
  refine ⟨i, ?_, hextends.calls i call hcall⟩
  rw [← hmore, List.getElem?_append_left (List.getElem?_eq_some_iff.mp hi).1, hi]

theorem MarkOk.extends {h : Nat} {m : Mark} (hm : MarkOk u n h m) (hextends : Extends n n') :
    MarkOk u n' h m := by
  unfold MarkOk at hm ⊢
  split at hm
  · obtain ⟨call, hcall, hrest⟩ := hm
    exact ⟨call, hextends.calls _ _ hcall, hrest⟩
  · obtain ⟨call, hcall, hrest⟩ := hm
    exact ⟨call, hcall.extends hextends, hrest⟩

def Undisturbed (u : Setup) (n n' : Network) (i : Nat) : Prop :=
  (∀ h, n'.framesOf (.task i) h = n.framesOf (.task i) h) ∧
    ∀ h, u.home h = i → n'.positions h = n.positions h ∧
      ∀ position, n'.framesOf (.message position) h = n.framesOf (.message position) h

theorem undisturbed_of_accepted (haccepted : n'.accepted = n.accepted) (i : Nat) :
    Undisturbed u n n' i := by
  unfold Undisturbed framesOf positions
  rw [haccepted]
  exact ⟨fun _ => rfl, fun _ _ => ⟨rfl, fun _ => rfl⟩⟩

theorem PublicationOk.extends {i s : Nat} {t : Task} {p : Publication}
    (hok : PublicationOk u n i t s p) (hextends : Extends n n') (hsame : Undisturbed u n n' i) :
    PublicationOk u n' i t s p where
  cancelAt := hok.cancelAt
  server := hok.server
  valid := hok.valid
  depth := hok.depth
  stage := hok.stage.later hextends.later
  accounts := fun h hh => hsame.1 h ▸ hok.accounts h hh

theorem ReaderOk.extends {s : Nat} {reader : Relay.Ring.Reader} (hok : ReaderOk u n s reader)
    (hextends : Extends n n') (hsame : Undisturbed u n n' s) : ReaderOk u n' s reader where
  channels := hok.channels
  position_le := Nat.le_trans hok.position_le hextends.sent
  bound := fun h hh => (hsame.2 h hh).1 ▸ hok.bound h hh

theorem SubscriberOk.extends {s : Nat} {t : Task} {st : Subscriber}
    (hok : SubscriberOk u n s t st) (hextends : Extends n n') (hsame : Undisturbed u n n' s) :
    SubscriberOk u n' s t st := by
  cases st with
  | subscribing pause => exact fun h hh => (hsame.2 h hh).1.trans (hok h hh)
  | resting time pause => exact hok
  | listening feed =>
    obtain ⟨reader, hfeed, hreader⟩ := hok
    exact ⟨reader, hfeed, hreader.extends hextends hsame⟩
  | handling feed hd =>
    obtain ⟨reader, position, hfeed, hreader, hposition, hhandling⟩ := hok
    refine ⟨reader, position, hfeed, hreader.extends hextends hsame, hposition, fun hlive => ?_⟩
    obtain ⟨call, hcall, hcarries, hforeign, hstage, haccounts⟩ := hhandling hlive
    exact ⟨call, hcall.extends hextends, hcarries, hforeign, hstage.later hextends.later,
      fun h hh => (hsame.2 h hh).2 position ▸ haccounts h hh⟩

theorem TaskOk.extends {i : Nat} {t : Task} (hok : TaskOk u n i t) (hextends : Extends n n')
    (hsame : Undisturbed u n n' i) : TaskOk u n' i t := by
  unfold TaskOk at hok ⊢
  split at hok
  · exact PublicationOk.extends hok hextends hsame
  · obtain ⟨rfl, hserver, hcancelAt, hsubscriber⟩ := hok
    exact ⟨rfl, hserver, hcancelAt, hsubscriber.extends hextends hsame⟩
  · exact hok
  · trivial
  · exact hok

/-- A step that puts nothing on the relay. -/
theorem RingOk.extends (hok : RingOk u n) (hextends : Extends n n')
    (hring : n'.cluster.ring = n.cluster.ring) (hrelayed : n'.relayed = n.relayed)
    (hended : ∀ (i : Nat) (t : Task), n.tasks[i]? = some t → t.outcome.isSome = true →
      n'.tasks[i]? = some t) :
    RingOk u n' where
  counted := hring ▸ hok.counted
  sent := by rw [hring, hrelayed, hok.sent]
  messages := by
    intro position m hm
    rw [hring] at hm
    obtain ⟨hchannel, call, hcall, hcarries⟩ := hok.messages position m hm
    exact ⟨hchannel, call, hcall.extends hextends, hcarries⟩
  nodup := hrelayed ▸ hok.nodup
  ended := by
    intro i hi
    rw [hrelayed] at hi
    obtain ⟨t, ht, hend⟩ := hok.ended i hi
    exact ⟨t, hended i t ht hend, hend⟩

/-- A step in which a task puts the message of its call on the relay and ends. -/
theorem RingOk.send (hok : RingOk u n) (hextends : Extends n n') {i : Nat} {call : Call}
    {raw : String} (hcall : n'.call? i = some call) (hcarries : Carries u call raw)
    (hring : n'.cluster.ring = n.cluster.ring.send u.channels.broadcast raw)
    (hrelayed : n'.relayed = n.relayed ++ [i])
    (hlive : ∀ t, n.tasks[i]? = some t → t.outcome = none)
    (hself : ∃ t, n'.tasks[i]? = some t ∧ t.outcome.isSome = true)
    (hended : ∀ (j : Nat) (t : Task), n.tasks[j]? = some t → t.outcome.isSome = true →
      n'.tasks[j]? = some t) : RingOk u n' where
  counted := hring ▸ hok.counted.send _ _
  sent := by
    rw [hring, hrelayed, List.length_append, List.length_singleton, ← hok.sent]
    rfl
  messages := by
    intro position m hm
    rw [hring] at hm
    rcases Relay.Ring.at?_send hok.counted _ _ hm with hm | ⟨rfl, rfl⟩
    · obtain ⟨hchannel, call, hcall, hcarries⟩ := hok.messages position m hm
      exact ⟨hchannel, call, hcall.extends hextends, hcarries⟩
    · refine ⟨rfl, call, ⟨i, ?_, hcall⟩, hcarries⟩
      rw [hrelayed, hok.sent, List.getElem?_append_right (Nat.le_refl _), Nat.sub_self]
      rfl
  nodup := by
    rw [hrelayed]
    refine List.nodup_append.mpr ⟨hok.nodup, List.nodup_singleton i, ?_⟩
    rintro j hj k hk rfl
    obtain ⟨t, ht, hend⟩ := hok.ended j hj
    rw [List.mem_singleton.mp hk] at ht
    rw [hlive t ht] at hend
    cases hend
  ended := by
    intro j hj
    rw [hrelayed, List.mem_append, List.mem_singleton] at hj
    rcases hj with hj | rfl
    · obtain ⟨t, ht, hend⟩ := hok.ended j hj
      exact ⟨t, hended j t ht hend, hend⟩
    · exact hself

/-- A step that keeps the invariant, and the account of the given tasks. -/
structure Kept (u : Setup) (n n' : Network) (others : Nat → Prop) : Prop where
  inv : Inv u n'
  lasting : Extends n n'
  undisturbed : ∀ j, others j → Undisturbed u n n' j

/-! ## Steps without a task -/

/-- The clock moves, or something happens to connections from outside. -/
theorem Inv.withCluster (hinv : Inv u n) {c : Cluster} (hgood : Good u c)
    (hlater : Later n.cluster c) (hstamp : StampOk c.stamp) (hring : c.ring = n.cluster.ring) :
    Kept u n (n.withCluster c) fun _ => True := by
  have hextends : Extends n (n.withCluster c) :=
    ⟨hlater, Nat.le_of_eq (congrArg _ hring.symm), List.prefix_refl _, fun _ _ h => h⟩
  refine ⟨?_, hextends, fun j _ => undisturbed_of_accepted rfl j⟩
  exact {
    good := hgood
    stamp := hstamp
    tasks := fun i t ht => (hinv.tasks i t ht).extends hextends (undisturbed_of_accepted rfl i)
    subscribers := hinv.subscribers
    ring := hinv.ring.extends hextends hring rfl fun _ _ ht _ => ht
    marks := fun h m hm => (hinv.marks h m hm).extends hextends
    ordered := hinv.ordered }

theorem getElem?_spawn (n : Network) (activity : Activity) (cancelAt : Option Nat) (i : Nat) :
    (n.spawn activity cancelAt).tasks[i]? =
      if i = n.tasks.length then some ⟨activity, cancelAt, none⟩ else n.tasks[i]? := by
  simp only [spawn, tasks]
  rw [List.getElem?_append]
  split
  · next hlt => rw [if_neg (Nat.ne_of_lt hlt)]
  · next hge =>
    split
    · next heq => simp [heq]
    · next hne =>
      rw [List.getElem?_eq_none (by simp; omega), List.getElem?_eq_none (by omega)]

theorem getElem?_spawn_of_some {activity : Activity} {cancelAt : Option Nat} {i : Nat} {t : Task}
    (ht : n.tasks[i]? = some t) : (n.spawn activity cancelAt).tasks[i]? = some t := by
  have hlt := (List.getElem?_eq_some_iff.mp ht).1
  rw [getElem?_spawn, if_neg (Nat.ne_of_lt hlt), ht]

theorem Inv.framesOf_task (hinv : Inv u n) {i : Nat} (hi : n.tasks[i]? = none) (h : Nat) :
    n.framesOf (.task i) h = [] := by
  rw [framesOf, List.map_eq_nil_iff, List.filter_eq_nil_iff]
  intro m hm hsource
  have hmark := hinv.marks h m hm
  rw [MarkOk, of_decide_eq_true hsource] at hmark
  obtain ⟨call, hcall, _⟩ := hmark
  rw [call?, hi, Option.bind_none] at hcall
  cases hcall

theorem Inv.spawn (hinv : Inv u n) {activity : Activity} {cancelAt : Option Nat}
    (hok : TaskOk u (n.spawn activity cancelAt) n.tasks.length ⟨activity, cancelAt, none⟩) :
    Kept u n (n.spawn activity cancelAt) fun _ => True := by
  have hextends : Extends n (n.spawn activity cancelAt) := by
    refine ⟨Later.refl _, Nat.le_refl _, List.prefix_refl _, fun i call hcall => ?_⟩
    cases ht : n.tasks[i]? with
    | none => simp [call?, ht] at hcall
    | some t =>
      rw [call?, getElem?_spawn_of_some ht]
      rwa [call?, ht] at hcall
  refine ⟨?_, hextends, fun j _ => undisturbed_of_accepted rfl j⟩
  exact {
    good := hinv.good
    stamp := hinv.stamp
    tasks := by
      intro i t ht
      rw [getElem?_spawn] at ht
      split at ht
      · next hi =>
        cases ht
        exact hi ▸ hok
      · exact (hinv.tasks i t ht).extends hextends (undisturbed_of_accepted rfl i)
    subscribers := by
      intro s hs
      obtain ⟨t, st, ht, hst⟩ := hinv.subscribers s hs
      exact ⟨t, st, getElem?_spawn_of_some ht, hst⟩
    ring := hinv.ring.extends hextends rfl rfl fun _ _ ht _ => getElem?_spawn_of_some ht
    marks := fun h m hm => (hinv.marks h m hm).extends hextends
    ordered := hinv.ordered }

end EventHub.Cluster.Network
