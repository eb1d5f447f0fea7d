import EventHub.Proofs.Relay.Streams
import EventHub.Proofs.Text.Utf8
import EventHub.Relay.Broker
/-!
# A broker and a relay in memory

Servers may share a broker or a relay in memory. Whoever listens cannot tell which of them it is, as
long as the one in memory loses nothing: both yield the messages on the listener's channels, whole,
once each and in the order in which they were published.
-/

namespace EventHub.Relay

open Cluster (Feed Heard lagError)

/-! ## A broker and its subscriber -/

theorem deliveredText_encode (message : String) :
    deliveredText (Text.Utf8.encode message.toList) = .ok message := by
  rw [deliveredText, Text.Utf8.decode?_encode]
  exact congrArg Except.ok String.ofList_toList

namespace Broker

variable {b : Broker} {channels messages : List String}

theorem push_replaced (b : Broker) (channel : String) (message : List UInt8) :
    (b.push channel message).1.replaced = b.replaced := by
  rw [push]
  split <;> rfl

/-- Publishing succeeds, also if nobody listens to the channel. -/
theorem publish_ok (hreachable : b.reachable = true)
    (hreplaced : b.replaced.find? "PUBLISH" = none) (channel message : String) :
    (b.publish channel message).2 = .ok () := by
  rw [← push_replaced b channel (Text.Utf8.encode message.toList)] at hreplaced
  rw [publish, if_pos hreachable, publishCommand, receive, perform]
  dsimp only [List.headD_cons]
  rw [hreplaced]
  rfl

structure Offers (b : Broker) (channels messages : List String) : Prop where
  reachable : b.reachable = true
  channels_eq : b.channels = channels
  waiting_eq : b.waiting = messages.map fun message => Text.Utf8.encode message.toList

/-- A reply that is replaced changes nothing about what its command does. -/
theorem Offers.of_perform {command : List String}
    (hoffers : (b.perform command).1.Offers channels messages) :
    (b.receive command).1.Offers channels messages := by
  rw [receive]
  dsimp only
  split
  · exact hoffers
  · exact ⟨hoffers.reachable, hoffers.channels_eq, hoffers.waiting_eq⟩

theorem Offers.push (hoffers : b.Offers channels messages) (channel message : String) :
    (b.push channel (Text.Utf8.encode message.toList)).1.Offers channels
      (if channel ∈ channels then messages ++ [message] else messages) := by
  have hcontains : b.channels.contains channel = true ↔ channel ∈ channels := by
    rw [hoffers.channels_eq, List.contains_iff_mem]
  by_cases hchannel : channel ∈ channels
  · rw [Broker.push, if_pos (hcontains.mpr hchannel), if_pos hchannel]
    refine ⟨hoffers.reachable, hoffers.channels_eq, ?_⟩
    rw [hoffers.waiting_eq, List.map_append, List.map_singleton]
  · rwa [Broker.push, if_neg (mt hcontains.mp hchannel), if_neg hchannel]

theorem Offers.publish (hoffers : b.Offers channels messages) (channel message : String) :
    (b.publish channel message).1.Offers channels
      (if channel ∈ channels then messages ++ [message] else messages) := by
  rw [Broker.publish, if_pos hoffers.reachable]
  exact Offers.of_perform (hoffers.push channel message)

theorem Offers.receiveAll (hoffers : b.Offers channels []) (more : List String) :
    (b.receiveAll (subscribeCommands more)).Offers (channels ++ more) [] := by
  -- On the channels that are still to be subscribed to, whatever the others are.
  induction more generalizing b channels with
  | nil => rwa [List.append_nil]
  | cons channel more ih =>
    have hsubscribed : (b.receive ["SUBSCRIBE", channel]).1.Offers (channels ++ [channel]) [] := by
      refine Offers.of_perform ⟨hoffers.reachable, ?_, hoffers.waiting_eq⟩
      exact congrArg (· ++ [channel]) hoffers.channels_eq
    have hall := ih hsubscribed
    rwa [List.append_assoc, List.singleton_append] at hall

/-- A subscription begins without messages, whatever there was before. -/
theorem offers_subscribe (hreachable : b.reachable = true) (channels : List String) :
    (b.subscribe channels).1.Offers channels [] := by
  rw [subscribe, if_pos hreachable]
  have hfresh : ({ b with channels := [], waiting := [] } : Broker).Offers [] [] :=
    ⟨hreachable, rfl, rfl⟩
  exact hfresh.receiveAll channels

theorem Offers.read (hoffers : b.Offers channels messages) :
    b.read.1.Offers channels messages.tail ∧ b.read.2 = messages.head?.map .ok := by
  have hwaiting := hoffers.waiting_eq
  cases messages with
  | nil =>
    rw [Broker.read, hwaiting]
    exact ⟨hoffers, rfl⟩
  | cons message messages =>
    rw [Broker.read, hwaiting]
    refine ⟨⟨hoffers.reachable, hoffers.channels_eq, rfl⟩, ?_⟩
    exact congrArg some (deliveredText_encode message)

end Broker

/-! ## Listening -/

/-- What happens on a relay that somebody listens to. -/
inductive Act where
  | publish (channel message : String)
  | read

def heardOf : Option (Except Error String) → Heard
  | none => .nothing
  | some (.ok text) => .text text
  | some (.error e) => .failure e

def Broker.told (b : Broker) : List Act → List Heard
  | [] => []
  | .publish channel message :: acts => (b.publish channel message).1.told acts
  | .read :: acts => heardOf b.read.2 :: b.read.1.told acts

/-- What a listener to a relay in memory hears in turn. -/
def Ring.told (ring : Ring) (feed : Feed) : List Act → List Heard
  | [] => []
  | .publish channel message :: acts => (ring.send channel message).told feed acts
  | .read :: acts => (feed.next ring).2 :: ring.told (feed.next ring).1 acts

def textsOn (channels : List String) (messages : List (String × String)) : List String :=
  (messages.filter (isOn channels)).map (·.2)

/-- A stream goes through the unread messages as far as the first one on its channels. -/
theorem seek_spec (reader : Ring.Reader) (rest : List (String × String)) :
    ∃ passed, passed ≤ rest.length ∧
      (Ring.seek reader rest).2 = ⟨reader.channels, reader.position + passed⟩ ∧
      textsOn reader.channels (rest.drop passed) = (textsOn reader.channels rest).tail := by
  induction rest generalizing reader with
  | nil => exact ⟨0, Nat.le_refl 0, rfl, rfl⟩
  | cons m rest ih =>
    by_cases hchannel : isOn reader.channels m = true
    · refine ⟨1, Nat.succ_le_succ (Nat.zero_le _), ?_, ?_⟩
      · rw [show Ring.seek reader (m :: rest) = (some (.message m.2), _) from if_pos hchannel]
      · rw [textsOn, textsOn, List.filter_cons_of_pos hchannel]
        rfl
    · obtain ⟨passed, hpassed, hseek, htexts⟩ :=
        ih { reader with position := reader.position + 1 }
      refine ⟨passed + 1, Nat.succ_le_succ hpassed, ?_, ?_⟩
      · rw [show Ring.seek reader (m :: rest) = Ring.seek _ rest from if_neg hchannel, hseek,
          Nat.add_right_comm, Nat.add_assoc]
      · rw [textsOn, textsOn, List.filter_cons_of_neg hchannel]
        exact htexts

/-- The broker offers what the listener to the relay in memory has not read. -/
structure Alike (b : Broker) (ring : Ring) (reader : Ring.Reader) (log : List (String × String)) :
    Prop where
  holds : Holds ring log
  position_le : reader.position ≤ log.length
  offers : b.Offers reader.channels (textsOn reader.channels (log.drop reader.position))

variable {b : Broker} {ring : Ring} {reader : Ring.Reader} {log : List (String × String)}

theorem Alike.publish (halike : Alike b ring reader log) (channel message : String) :
    Alike (b.publish channel message).1 (ring.send channel message) reader
      (log ++ [(channel, message)]) := by
  have hposition := halike.position_le
  refine ⟨halike.holds.send channel message, ?_, ?_⟩
  · rw [List.length_append]
    omega
  · have hoffers := halike.offers.publish channel message
    rw [List.drop_append_of_le_length hposition, textsOn, List.filter_append, List.map_append]
    split at hoffers
    · next hchannel =>
      rwa [List.filter_cons_of_pos (isOn_iff.mpr hchannel)]
    · next hchannel =>
      rwa [List.filter_cons_of_neg (mt isOn_iff.mp hchannel), List.filter_nil, List.map_nil,
        List.append_nil]

/-- A listener that is not behind reads the same from both. -/
theorem Alike.read (halike : Alike b ring reader log)
    (hcurrent : log.length ≤ reader.position + ring.capacity) :
    ∃ reader', (Feed.ring reader).next ring = (.ring reader', heardOf b.read.2) ∧
      Alike b.read.1 ring reader' log := by
  obtain ⟨passed, hpassed, hseek, htexts⟩ := seek_spec reader (log.drop reader.position)
  obtain ⟨hoffers, hheard⟩ := halike.offers.read
  have hposition := halike.position_le
  refine ⟨⟨reader.channels, reader.position + passed⟩, ?_, halike.holds, ?_, ?_⟩
  · rw [halike.holds.next_current hcurrent, hseek, hheard, textsOn, List.head?_map,
      List.head?_filter]
    cases (log.drop reader.position).find? (isOn reader.channels) <;> rfl
  · rw [List.length_drop] at hpassed
    show reader.position + passed ≤ log.length
    omega
  · rwa [← List.drop_drop, htexts]

theorem Alike.told_eq (halike : Alike b ring reader log) (acts : List Act)
    (hkept : ∀ lost, .failure (lagError lost) ∉ ring.told (.ring reader) acts) :
    b.told acts = ring.told (.ring reader) acts := by
  -- Both stay alike with each act. A reader that were behind would be told of a loss.
  induction acts generalizing b ring reader log with
  | nil => rfl
  | cons act acts ih =>
    cases act with
    | publish channel message => exact ih (halike.publish channel message) hkept
    | read =>
      rw [Ring.told] at hkept
      rcases Nat.lt_or_ge (reader.position + ring.capacity) log.length with hbehind | hcurrent
      · rw [halike.holds.next_behind hbehind] at hkept
        exact absurd List.mem_cons_self (hkept _)
      · obtain ⟨reader', hnext, halike'⟩ := halike.read hcurrent
        rw [hnext] at hkept
        rw [Broker.told, Ring.told, hnext,
          ih halike' fun lost hlost => hkept lost (List.mem_cons_of_mem _ hlost)]

/-- Whatever is published once somebody has subscribed, and whenever it reads, it hears the same
from a broker as from a relay in memory, unless it is told by the latter that messages were lost. -/
theorem told_subscribe (hreachable : b.reachable = true) (hholds : Holds ring log)
    (channels : List String) (acts : List Act)
    (hkept : ∀ lost,
      .failure (lagError lost) ∉ ring.told (.ring (ring.subscribe channels)) acts) :
    (b.subscribe channels).1.told acts = ring.told (.ring (ring.subscribe channels)) acts := by
  have hposition : (ring.subscribe channels).position = log.length := hholds.sent_eq
  refine Alike.told_eq ⟨hholds, Nat.le_of_eq hposition, ?_⟩ acts hkept
  rw [hposition, List.drop_length]
  exact Broker.offers_subscribe hreachable channels

example : (({} : Broker).subscribe ["a"]).1.told
    [.publish "a" "1", .publish "b" "2", .publish "a" "3", .read, .read, .read] =
      [.text "1", .text "3", .nothing] := by decide +kernel

end EventHub.Relay
