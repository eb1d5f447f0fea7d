import EventHub.Cluster.Subscriber
import EventHub.Proofs.Relay.Ring
import Mathlib.Algebra.Order.Ring.Nat
import Mathlib.Logic.Relation
/-!
# Streams of the relay

Messages are published on the relay, on any channels, while its listeners subscribe and ask their
streams for what comes next, in any order. `Course` says what has become of every message since a
listener subscribed: each one was yielded, was skipped because it is on another channel, was lost
and announced as lost, or is still unread.
-/

namespace EventHub.Relay

open Cluster (Feed Heard lagError)
open private Nat.nextPowerOfTwo.go from Init.Data.Nat.Power2.Basic

/-! ## What is kept -/

theorem le_nextPowerOfTwo_go (n power : Nat) (hpower : power > 0) :
    n ≤ Nat.nextPowerOfTwo.go n power hpower := by
  fun_induction Nat.nextPowerOfTwo.go n power hpower with
  | case1 power hpower hlt ih => exact ih
  | case2 power hpower hge => omega

/-- How many messages a relay with the capacity keeps: the capacity rounded up to a power of two. -/
def keeps (capacity : Nat) : Nat := (max capacity 1).nextPowerOfTwo

theorem le_keeps (capacity : Nat) : capacity ≤ keeps capacity :=
  Nat.le_trans (Nat.le_max_left capacity 1) (le_nextPowerOfTwo_go _ 1 Nat.one_pos)

/-! ## The relay with its listeners -/

/-- One that has subscribed, with what its stream has answered whenever it was asked. -/
structure Listener where
  channels : List String
  /-- The number of messages published before it subscribed. -/
  since : Nat
  reader : Ring.Reader
  answers : List Heard := []

structure Exchange where
  ring : Ring
  published : List (String × String) := []
  listeners : List Listener := []

namespace Exchange

/-- A relay before anything has happened. -/
def ofCapacity (capacity : Nat) : Exchange := { ring := .ofCapacity capacity }

inductive Step : Exchange → Exchange → Prop where
  | publish (x : Exchange) (channel message : String) :
      Step x { x with
        ring := x.ring.send channel message
        published := x.published ++ [(channel, message)] }
  | subscribe (x : Exchange) (channels : List String) :
      Step x { x with
        listeners := x.listeners ++
          [⟨channels, x.published.length, x.ring.subscribe channels, []⟩] }
  | poll (x : Exchange) {n : Nat} {l : Listener} {reader : Ring.Reader} {heard : Heard}
      (hl : x.listeners[n]? = some l)
      (hnext : (Feed.ring l.reader).next x.ring = (.ring reader, heard)) :
      Step x { x with
        listeners := x.listeners.set n
          { l with reader := reader, answers := l.answers ++ [heard] } }

def Run : Exchange → Exchange → Prop := Relation.ReflTransGen Step

def unread (x : Exchange) (l : Listener) : List (String × String) :=
  x.published.drop l.reader.position

end Exchange

/-! ## What becomes of messages -/

def isOn (channels : List String) (message : String × String) : Bool := channels.contains message.1

theorem isOn_iff {channels : List String} {message : String × String} :
    isOn channels message = true ↔ message.1 ∈ channels := by
  simp [isOn]

/-- What a stream has done about the messages that it came to. -/
inductive Passage where
  | yielded (message : String × String)
  /-- It is on another channel. -/
  | skipped (message : String × String)
  /-- So many were lost. -/
  | lost (count : Nat)

def Passage.size : Passage → Nat
  | .yielded _ | .skipped _ => 1
  | .lost count => count

def Passage.message? : Passage → Option (String × String)
  | .yielded message => some message
  | .skipped _ | .lost _ => none

/-- What the stream answers. A loss is announced by an error that has the number of messages. -/
def Passage.heard? : Passage → Option Heard
  | .yielded message => some (.text message.2)
  | .skipped _ => none
  | .lost count => some (.failure (lagError count))

/-- What becomes of the messages in a log from one position up to another. At the time of a loss
some number `sent` of them had been published, and those lost were the ones from the position on
that were not among the latest `kept`. -/
inductive Course (log : List (String × String)) (channels : List String) (kept since : Nat) :
    List Passage → Nat → Prop where
  | start : Course log channels kept since [] since
  | yields {passages : List Passage} {position : Nat} {message : String × String}
      (hbefore : Course log channels kept since passages position)
      (hmessage : log[position]? = some message) (hchannel : message.1 ∈ channels) :
      Course log channels kept since (passages ++ [.yielded message]) (position + 1)
  | skips {passages : List Passage} {position : Nat} {message : String × String}
      (hbefore : Course log channels kept since passages position)
      (hmessage : log[position]? = some message) (hchannel : message.1 ∉ channels) :
      Course log channels kept since (passages ++ [.skipped message]) (position + 1)
  | loses {passages : List Passage} {position : Nat} (count sent : Nat)
      (hbefore : Course log channels kept since passages position)
      (hcount : 0 < count) (hsent : sent ≤ log.length) (hkept : position + count + kept = sent) :
      Course log channels kept since (passages ++ [.lost count]) (position + count)

namespace Course

variable {log : List (String × String)} {channels : List String} {kept since position : Nat}
  {passages : List Passage}

/-- What is published later changes nothing about what has been read. -/
theorem append (hcourse : Course log channels kept since passages position)
    (more : List (String × String)) :
    Course (log ++ more) channels kept since passages position := by
  have hkeeps {i : Nat} {m : String × String} (hm : log[i]? = some m) :
      (log ++ more)[i]? = some m := by
    rwa [List.getElem?_append_left (List.getElem?_eq_some_iff.mp hm).1]
  induction hcourse with
  | start => exact .start
  | yields _ hmessage hchannel ih => exact ih.yields (hkeeps hmessage) hchannel
  | skips _ hmessage hchannel ih => exact ih.skips (hkeeps hmessage) hchannel
  | loses count sent _ hcount hsent hkept ih =>
    exact ih.loses count sent hcount (by rw [List.length_append]; omega) hkept

/-- Every message between the two positions is accounted for. -/
theorem size_eq (hcourse : Course log channels kept since passages position) :
    since + (passages.map Passage.size).sum = position := by
  induction hcourse with
  | start => rfl
  | yields _ _ _ ih | skips _ _ _ ih | loses _ _ _ _ _ _ ih =>
    rw [List.map_append, List.sum_append, List.map_singleton, List.sum_singleton, Passage.size]
    omega

theorem since_le (hcourse : Course log channels kept since passages position) :
    since ≤ position := by
  have hsize := hcourse.size_eq
  omega

theorem position_le (hcourse : Course log channels kept since passages position)
    (hsince : since ≤ log.length) : position ≤ log.length := by
  cases hcourse with
  | start => exact hsince
  | yields _ hmessage _ | skips _ hmessage _ => exact (List.getElem?_eq_some_iff.mp hmessage).1
  | loses count sent _ _ hsent hkept => omega

theorem drop_take_add (hsince : since ≤ position) (hposition : position ≤ log.length)
    (count : Nat) :
    (log.take (position + count)).drop since =
      (log.take position).drop since ++ (log.drop position).take count := by
  rw [List.take_add, List.drop_append_of_le_length]
  rw [List.length_take]
  omega

/-- The messages that are yielded are messages on the channels, each once and in the order in which
they were published. -/
theorem yielded_sublist (hcourse : Course log channels kept since passages position)
    (hsince : since ≤ log.length) :
    (passages.filterMap Passage.message?).Sublist
      (((log.take position).drop since).filter (isOn channels)) := by
  induction hcourse with
  | start => exact List.nil_sublist _
  | @yields passages position message hbefore hmessage hchannel ih =>
    have hnext : (log.drop position).take 1 = [message] := by
      rw [List.take_one, List.head?_drop, hmessage]
      rfl
    rw [drop_take_add hbefore.since_le (hbefore.position_le hsince), hnext, List.filterMap_append,
      List.filter_append]
    refine ih.append ?_
    rw [List.filter_cons_of_pos (isOn_iff.mpr hchannel)]
    exact List.Sublist.refl _
  | @skips passages position message hbefore hmessage hchannel ih =>
    rw [drop_take_add hbefore.since_le (hbefore.position_le hsince), List.filterMap_append,
      List.filter_append]
    exact ih.append (List.nil_sublist _)
  | @loses passages position count sent hbefore hcount hsent hkept ih =>
    rw [drop_take_add hbefore.since_le (hbefore.position_le hsince), List.filterMap_append,
      List.filter_append]
    exact ih.append (List.nil_sublist _)

/-- A stream that goes through what is unread skips messages up to one on its channels, or all of
them. The induction is on the messages that are unread. -/
theorem seek {reader : Ring.Reader} {rest : List (String × String)}
    (hcourse : Course log reader.channels kept since passages reader.position)
    (hrest : log.drop reader.position = rest) :
    ∃ more, Course log reader.channels kept since (passages ++ more)
        (Ring.seek reader rest).2.position ∧
      (Ring.seek reader rest).2.channels = reader.channels ∧
      more.filterMap Passage.heard? =
        ((rest.find? (isOn reader.channels)).map fun m => Heard.text m.2).toList := by
  induction rest generalizing reader passages with
  | nil => exact ⟨[], by rwa [List.append_nil], rfl, rfl⟩
  | cons m rest ih =>
    have hm : log[reader.position]? = some m := by
      rw [← List.head?_drop, hrest, List.head?_cons]
    by_cases hchannel : isOn reader.channels m = true
    · have hseek : Ring.seek reader (m :: rest) =
          (some (.message m.2), { reader with position := reader.position + 1 }) := if_pos hchannel
      rw [hseek, List.find?_cons_of_pos hchannel]
      exact ⟨[.yielded m], hcourse.yields hm (isOn_iff.mp hchannel), rfl, rfl⟩
    · have hseek : Ring.seek reader (m :: rest) =
          Ring.seek { reader with position := reader.position + 1 } rest := if_neg hchannel
      have hskips := hcourse.skips hm (mt isOn_iff.mpr hchannel)
      have hrest' : log.drop (reader.position + 1) = rest := by
        rw [← List.drop_drop, hrest, List.drop_one, List.tail_cons]
      obtain ⟨more, hmore, hchannels, hheard⟩ := @ih _ ⟨_, _⟩ hskips hrest'
      rw [List.append_assoc] at hmore
      rw [hseek, List.find?_cons_of_neg hchannel]
      exact ⟨.skipped m :: more, hmore, hchannels, hheard⟩

end Course

/-! ## What a stream answers -/

/-- The relay keeps the latest messages of the log. -/
structure Holds (ring : Ring) (log : List (String × String)) : Prop where
  sent_eq : ring.sent = log.length
  kept_eq : ring.kept = log.drop (log.length - ring.capacity)

namespace Holds

variable {ring : Ring} {log : List (String × String)} {reader : Ring.Reader}

theorem ofCapacity (capacity : Nat) : Holds (.ofCapacity capacity) [] :=
  ⟨rfl, List.drop_nil.symm⟩

theorem send (hholds : Holds ring log) (channel message : String) :
    Holds (ring.send channel message) (log ++ [(channel, message)]) := by
  constructor
  · rw [List.length_append, ← hholds.sent_eq]
    rfl
  · have hdrop : log.drop (log.length - ring.capacity) ++ [(channel, message)] =
        (log ++ [(channel, message)]).drop (log.length - ring.capacity) := by
      rw [List.drop_append_of_le_length (by omega)]
    simp only [Ring.send, hholds.kept_eq, hdrop, List.drop_drop, List.length_drop,
      List.length_append, List.length_singleton]
    congr 1
    omega

theorem oldest_eq (hholds : Holds ring log) : ring.oldest = log.length - ring.capacity := by
  rw [Ring.oldest, hholds.sent_eq, hholds.kept_eq, List.length_drop]
  omega

theorem seek_fst (reader : Ring.Reader) (rest : List (String × String)) :
    (Ring.seek reader rest).1 = (rest.find? (isOn reader.channels)).map fun m => .message m.2 := by
  induction rest generalizing reader with
  | nil => rfl
  | cons m rest ih =>
    by_cases hchannel : isOn reader.channels m = true
    · have hseek : Ring.seek reader (m :: rest) =
          (some (.message m.2), { reader with position := reader.position + 1 }) := if_pos hchannel
      rw [hseek, List.find?_cons_of_pos hchannel, Option.map_some]
    · have hseek : Ring.seek reader (m :: rest) =
          Ring.seek { reader with position := reader.position + 1 } rest := if_neg hchannel
      rw [hseek, ih, List.find?_cons_of_neg hchannel]

/-- Messages that are no longer kept are announced as lost, and the stream goes on with the oldest
one that is kept. -/
theorem next_behind (hholds : Holds ring log)
    (hbehind : reader.position + ring.capacity < log.length) :
    (Feed.ring reader).next ring =
      (.ring ⟨reader.channels, log.length - ring.capacity⟩,
        .failure (lagError (log.length - ring.capacity - reader.position))) := by
  have hlow : reader.position < ring.oldest := by
    rw [hholds.oldest_eq]
    omega
  rw [Feed.next, Ring.next, if_pos hlow, hholds.oldest_eq]

/-- Otherwise the answer is the first unread message on the channels. -/
theorem next_current (hholds : Holds ring log)
    (hcurrent : log.length ≤ reader.position + ring.capacity) :
    (Feed.ring reader).next ring =
      (.ring (Ring.seek reader (log.drop reader.position)).2,
        ((log.drop reader.position).find? (isOn reader.channels)).elim .nothing
          fun m => .text m.2) := by
  have hhigh : ¬ reader.position < ring.oldest := by
    rw [hholds.oldest_eq]
    omega
  have hunread : ring.kept.drop (reader.position - ring.oldest) = log.drop reader.position := by
    rw [hholds.kept_eq, List.drop_drop, hholds.oldest_eq]
    congr 1
    omega
  have hnext : ring.next reader = Ring.seek reader (log.drop reader.position) := by
    rw [Ring.next, if_neg hhigh, hunread]
  have hitem := seek_fst reader (log.drop reader.position)
  rw [Feed.next, hnext]
  generalize Ring.seek reader (log.drop reader.position) = r at hitem
  obtain ⟨item, reader'⟩ := r
  cases hfind : (log.drop reader.position).find? (isOn reader.channels) with
  | none =>
    rw [hfind] at hitem
    obtain rfl : item = none := hitem
    rfl
  | some m =>
    rw [hfind] at hitem
    obtain rfl : item = some (.message m.2) := hitem
    rfl

end Holds

/-! ## Every listener's account -/

/-- What the stream of a listener has come to, and what it has answered about that. -/
structure Listener.Accounts (x : Exchange) (kept : Nat) (l : Listener) (passages : List Passage) :
    Prop where
  course : Course x.published l.channels kept l.since passages l.reader.position
  channels_eq : l.reader.channels = l.channels
  answers_eq : l.answers.filter (· ≠ .nothing) = passages.filterMap Passage.heard?
  since_le : l.since ≤ x.published.length

namespace Exchange

structure Inv (capacity : Nat) (x : Exchange) : Prop where
  capacity_eq : x.ring.capacity = keeps capacity
  holds : Holds x.ring x.published
  listeners : ∀ l ∈ x.listeners, ∃ passages, l.Accounts x (keeps capacity) passages

theorem inv_ofCapacity (capacity : Nat) : (ofCapacity capacity).Inv capacity := by
  refine ⟨rfl, Holds.ofCapacity capacity, fun l hl => ?_⟩
  exact absurd hl List.not_mem_nil

end Exchange

variable {capacity : Nat} {x x' : Exchange} {l : Listener} {passages : List Passage}

/-- What is published later changes nothing about an account. -/
theorem Listener.Accounts.publish {kept : Nat} (haccounts : l.Accounts x kept passages)
    (ring : Ring) (m : String × String) :
    l.Accounts { x with ring := ring, published := x.published ++ [m] } kept passages := by
  refine ⟨haccounts.course.append [m], haccounts.channels_eq, haccounts.answers_eq, ?_⟩
  exact Nat.le_trans haccounts.since_le (by simp)

theorem Listener.Accounts.poll (haccounts : l.Accounts x x.ring.capacity passages)
    (hholds : Holds x.ring x.published) {reader : Ring.Reader} {heard : Heard}
    (hnext : (Feed.ring l.reader).next x.ring = (.ring reader, heard)) :
    ∃ passages',
      ({ l with reader := reader, answers := l.answers ++ [heard] } : Listener).Accounts
      x x.ring.capacity passages' := by
  have hcourse := haccounts.course
  rw [← haccounts.channels_eq] at hcourse
  rcases Nat.lt_or_ge (l.reader.position + x.ring.capacity) x.published.length with hlt | hge
  · rw [hholds.next_behind hlt, Prod.mk.injEq, Feed.ring.injEq] at hnext
    obtain ⟨rfl, rfl⟩ := hnext
    have hposition : l.reader.position +
        (x.published.length - x.ring.capacity - l.reader.position) =
          x.published.length - x.ring.capacity := by omega
    have hloses := haccounts.course.loses
      (x.published.length - x.ring.capacity - l.reader.position) x.published.length
      (by omega) (Nat.le_refl _) (by omega)
    rw [hposition] at hloses
    refine ⟨_, hloses, haccounts.channels_eq, ?_, haccounts.since_le⟩
    rw [List.filter_append, haccounts.answers_eq, List.filterMap_append]
    rfl
  · rw [hholds.next_current hge, Prod.mk.injEq, Feed.ring.injEq] at hnext
    obtain ⟨rfl, rfl⟩ := hnext
    obtain ⟨more, hmore, hchannels, hheard⟩ := hcourse.seek rfl
    rw [haccounts.channels_eq] at hmore hchannels
    refine ⟨_, hmore, hchannels, ?_, haccounts.since_le⟩
    rw [List.filter_append, haccounts.answers_eq, List.filterMap_append, hheard]
    cases (x.published.drop l.reader.position).find? (isOn l.reader.channels) <;> rfl

namespace Exchange

theorem Inv.step (hinv : x.Inv capacity) (hstep : Step x x') : x'.Inv capacity := by
  cases hstep with
  | publish channel message =>
    refine ⟨hinv.capacity_eq, hinv.holds.send channel message, fun l hl => ?_⟩
    obtain ⟨passages, haccounts⟩ := hinv.listeners l hl
    exact ⟨passages, haccounts.publish _ _⟩
  | subscribe channels =>
    refine ⟨hinv.capacity_eq, hinv.holds, fun l hl => ?_⟩
    rcases List.mem_append.mp hl with hl | hl
    · obtain ⟨passages, haccounts⟩ := hinv.listeners l hl
      exact ⟨passages, haccounts.course, haccounts.channels_eq, haccounts.answers_eq,
        haccounts.since_le⟩
    · obtain rfl := List.mem_singleton.mp hl
      refine ⟨[], ?_, rfl, rfl, Nat.le_refl _⟩
      rw [show (x.ring.subscribe channels).position = x.published.length from hinv.holds.sent_eq]
      exact .start
  | @poll n l reader heard hl hnext =>
    refine ⟨hinv.capacity_eq, hinv.holds, fun l' hl' => ?_⟩
    obtain ⟨passages, haccounts⟩ : ∃ passages, l'.Accounts x (keeps capacity) passages := by
      rcases List.mem_or_eq_of_mem_set hl' with hl' | rfl
      · exact hinv.listeners l' hl'
      · obtain ⟨passages, haccounts⟩ := hinv.listeners l (List.mem_of_getElem? hl)
        rw [← hinv.capacity_eq] at haccounts ⊢
        exact haccounts.poll hinv.holds hnext
    exact ⟨passages, haccounts.course, haccounts.channels_eq, haccounts.answers_eq,
      haccounts.since_le⟩

theorem Run.inv (hrun : Run (ofCapacity capacity) x) : x.Inv capacity := by
  induction hrun with
  | refl => exact inv_ofCapacity capacity
  | tail _ hstep ih => exact ih.step hstep

/-- Whatever is published, and however its listeners subscribe and are polled, a relay keeps the
latest messages, no fewer than its capacity. Every stream comes past all messages published since
its listener subscribed: it yields those on its channels in order and once each, skips the others,
and announces at its place each loss with the number of messages that were overwritten, so that
all these and the unread messages together are the published ones. As long as no more messages
than are kept are unread, its next answer is the first of them on its channels; otherwise it is
the number of those that are kept no longer. -/
theorem messages_accounted (hrun : Run (ofCapacity capacity) x) {n : Nat} {l : Listener}
    (hl : x.listeners[n]? = some l) :
    capacity ≤ keeps capacity ∧
    (∃ passages,
      Course x.published l.channels (keeps capacity) l.since passages l.reader.position ∧
      l.answers.filter (· ≠ .nothing) = passages.filterMap Passage.heard? ∧
      (passages.filterMap Passage.message?).Sublist
        ((x.published.drop l.since).filter (isOn l.channels)) ∧
      (passages.map Passage.size).sum + (x.unread l).length =
        (x.published.drop l.since).length) ∧
    ((x.unread l).length ≤ keeps capacity →
      ((Feed.ring l.reader).next x.ring).2 =
        ((x.unread l).find? (isOn l.channels)).elim .nothing fun m => .text m.2) ∧
    (keeps capacity < (x.unread l).length →
      (Feed.ring l.reader).next x.ring =
        (.ring ⟨l.channels, x.published.length - keeps capacity⟩,
          .failure (lagError ((x.unread l).length - keeps capacity)))) := by
  have hinv := hrun.inv
  obtain ⟨passages, haccounts⟩ := hinv.listeners l (List.mem_of_getElem? hl)
  have hposition := haccounts.course.position_le haccounts.since_le
  have hunread : (x.unread l).length = x.published.length - l.reader.position := List.length_drop
  refine ⟨le_keeps capacity,
    ⟨passages, haccounts.course, haccounts.answers_eq, ?_, ?_⟩, ?_, ?_⟩
  · refine (haccounts.course.yielded_sublist haccounts.since_le).trans ?_
    exact ((List.take_sublist _ _).drop _).filter _
  · have hsize := haccounts.course.size_eq
    rw [hunread, List.length_drop]
    omega
  · intro hcurrent
    rw [hunread, ← hinv.capacity_eq] at hcurrent
    rw [hinv.holds.next_current (by omega), haccounts.channels_eq, unread]
  · intro hbehind
    rw [hunread] at hbehind
    have hcapacity := hinv.capacity_eq
    have hlost : x.published.length - keeps capacity - l.reader.position =
        (x.unread l).length - keeps capacity := by omega
    rw [hinv.holds.next_behind (by omega), haccounts.channels_eq, hcapacity, hlost]

/-- A relay that keeps two messages, with a listener to the channel `a`, after three messages. -/
def crowded : Exchange where
  ring := { capacity := 2, sent := 3, kept := [("b", "2"), ("a", "3")] }
  published := [("a", "1"), ("b", "2"), ("a", "3")]
  listeners := [⟨["a"], 0, ⟨["a"], 0⟩, []⟩]

theorem run_crowded : Run (ofCapacity 2) crowded := by
  have hring : Ring.ofCapacity 2 = { capacity := 2 } := by decide +kernel
  rw [ofCapacity, hring]
  have hsubscribed : Run { ring := { capacity := 2 } } _ := .single (.subscribe _ ["a"])
  exact ((hsubscribed.tail (.publish _ "a" "1")).tail (.publish _ "b" "2")).tail
    (.publish _ "a" "3")

/-- The first message is lost, the second is on another channel, and the third is yielded. -/
theorem messages_accounted_crowded :
    ∃ x l, Run (ofCapacity 2) x ∧ x.listeners[0]? = some l ∧
      l.answers = [.failure (lagError 1), .text "3", .nothing] ∧
      ∃ passages, Course x.published ["a"] (keeps 2) 0 passages 3 ∧
        l.answers.filter (· ≠ .nothing) = passages.filterMap Passage.heard? ∧
        (passages.map Passage.size).sum = 3 := by
  have hlost := run_crowded.tail (.poll _ (n := 0) rfl rfl)
  have hyielded := hlost.tail (.poll _ (n := 0) rfl rfl)
  have hwaits := hyielded.tail (.poll _ (n := 0) rfl rfl)
  obtain ⟨_, ⟨passages, hcourse, hanswers, _, hsum⟩, _⟩ :=
    messages_accounted hwaits (n := 0) rfl
  exact ⟨_, _, hwaits, rfl, rfl, passages, hcourse, hanswers, hsum⟩

end Exchange

end EventHub.Relay
