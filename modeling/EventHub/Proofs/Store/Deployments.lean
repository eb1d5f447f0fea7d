import EventHub.Proofs.Identity
import EventHub.Proofs.Registry.Tables
import EventHub.Relay.Ring
import EventHub.Settings.Channels
import EventHub.Store.Commands
import EventHub.Store.Loopback
/-!
# Deployments that share a store

Every key and every channel of a deployment begins with the prefix of the deployment, which may be
any text, also one that looks like a part of a key. So a key is read from its end: its last
character tells what it is the key of, and what stands behind the prefix is of one length for each
kind, as long as names are made up by the service. Hence no two deployments have a key or a channel
in common.
-/

namespace EventHub

/-- Two texts that agree do so in front of ends of one length, and in these ends. -/
theorem append_inj_of_length {p q s t : String} (heq : p ++ s = q ++ t)
    (hlength : s.length = t.length) : p = q ∧ s = t := by
  have hlists := congrArg String.toList heq
  rw [String.toList_append, String.toList_append] at hlists
  rw [← String.length_toList, ← String.length_toList] at hlength
  obtain ⟨hfront, hback⟩ := List.append_inj' hlists hlength
  exact ⟨String.toList_inj.mp hfront, String.toList_inj.mp hback⟩

/-- A prefix and a made-up name with a mark between them can be told apart. -/
theorem marked_inj {p q mark name name' : String} (hname : isGenerated name = true)
    (hname' : isGenerated name' = true) (heq : p ++ mark ++ name = q ++ mark ++ name') :
    p = q ∧ name = name' := by
  obtain ⟨hfront, rfl⟩ := append_inj_of_length heq
    ((length_of_isGenerated hname).trans (length_of_isGenerated hname').symm)
  exact ⟨(append_inj_of_length hfront rfl).1, rfl⟩

/-! ## Keys -/

namespace Store

/-- What a deployment keeps in the store, under its prefix. -/
inductive Key where
  | connection (keyPrefix : String) (id : ConnectionId)
  | server (keyPrefix : String) (id : ServerId)
  | count (keyPrefix : String)
deriving DecidableEq, Repr

namespace Key

inductive Kind where
  | connection
  | server
  | count

def kind : Key → Kind
  | connection .. => .connection
  | server .. => .server
  | count _ => .count

def text : Key → String
  | connection keyPrefix id => connectionKey keyPrefix id
  | server keyPrefix id => serverKey keyPrefix id
  | count keyPrefix => countKey keyPrefix

def keyPrefix : Key → String
  | connection keyPrefix _ | server keyPrefix _ | count keyPrefix => keyPrefix

/-- The name in the key, if there is one, is made up. -/
def Generated : Key → Prop
  | connection _ id => isGenerated id.text = true
  | server _ id => isGenerated id.text = true
  | count _ => True

def Kind.closes : Kind → Char → Bool
  | connection, c => isHexDigit c
  | server, c => c = 's'
  | count, c => c = 't'

/-- Neither closing letter is a hexadecimal digit. -/
theorem Kind.eq_of_closes {a b : Kind} {c : Char} (ha : a.closes c = true)
    (hb : b.closes c = true) : a = b := by
  have hs : isHexDigit 's' = false := by decide
  have ht : isHexDigit 't' = false := by decide
  cases a <;> cases b <;> simp_all [Kind.closes]

variable {k k' : Key}

theorem exists_closing (hk : k.Generated) :
    ∃ c, k.text.toList.getLast? = some c ∧ k.kind.closes c = true := by
  cases k with
  | connection keyPrefix id =>
    obtain ⟨d, hlast, hdigit⟩ := exists_getLast?_of_isGenerated hk
    exact ⟨d, getLast?_append _ hlast, hdigit⟩
  | server keyPrefix id => exact ⟨'s', getLast?_append _ rfl, rfl⟩
  | count keyPrefix => exact ⟨'t', getLast?_append _ rfl, rfl⟩

/-- A key with a made-up name tells what it is the key of. -/
theorem eq_of_text_eq (hk : k.Generated) (hk' : k'.Generated) (htext : k.text = k'.text) :
    k = k' := by
  obtain ⟨c, hlast, hcloses⟩ := exists_closing hk
  obtain ⟨c', hlast', hcloses'⟩ := exists_closing hk'
  obtain rfl : c = c' := Option.some.inj (hlast.symm.trans (htext ▸ hlast'))
  have hkind : k.kind = k'.kind := Kind.eq_of_closes hcloses hcloses'
  cases k with
  | connection p id =>
    obtain ⟨q, id'⟩ | _ | _ := k' <;> cases hkind
    obtain ⟨rfl, hid⟩ := marked_inj hk hk' htext
    exact congrArg _ (congrArg ConnectionId.mk hid)
  | server p id =>
    obtain _ | ⟨q, id'⟩ | _ := k' <;> cases hkind
    obtain ⟨rfl, hid⟩ := marked_inj hk hk' (append_inj_of_length htext rfl).1
    exact congrArg _ (congrArg ServerId.mk hid)
  | count p =>
    obtain _ | _ | q := k' <;> cases hkind
    exact congrArg _ (append_inj_of_length htext rfl).1

end Key

/-! ## Commands -/

def keyOf? (command : List String) : Option String := command[1]?

def Call.Generated : Call → Prop
  | register r _ => isGenerated r.connection.text = true ∧ isGenerated r.server.text = true
  | unregister server id => isGenerated id.text = true ∧ isGenerated server.text = true
  | count => True
  | refresh server ids _ => (∀ id ∈ ids, isGenerated id.text = true) ∧
      isGenerated server.text = true

variable {keyPrefix key : String} {connectedAt : Time.Timestamp} {lifetime : Time.Duration}

theorem keyOf?_transaction {commands : List (List String)} {command : List String}
    (hcommand : command ∈ transaction commands) (hkey : keyOf? command = some key) :
    command ∈ commands := by
  rw [transaction, List.cons_append, List.mem_cons, List.mem_append, List.mem_singleton] at hcommand
  obtain rfl | hin | rfl := hcommand
  · cases hkey
  · exact hin
  · cases hkey

theorem exists_key_of_named {call : Call} (hcall : call.Generated) {command : List String}
    (hcommand : command ∈ call.commands keyPrefix connectedAt lifetime)
    (hkey : keyOf? command = some key) :
    ∃ k : Key, k.Generated ∧ k.keyPrefix = keyPrefix ∧ k.text = key := by
  cases call with
  | register r n =>
    have hin := keyOf?_transaction hcommand hkey
    simp only [List.mem_cons, List.not_mem_nil, or_false] at hin
    obtain rfl | rfl | rfl | rfl | rfl := hin <;> cases hkey
    · exact ⟨.connection keyPrefix r.connection, hcall.1, rfl, rfl⟩
    · exact ⟨.connection keyPrefix r.connection, hcall.1, rfl, rfl⟩
    · exact ⟨.server keyPrefix r.server, hcall.2, rfl, rfl⟩
    · exact ⟨.server keyPrefix r.server, hcall.2, rfl, rfl⟩
    · exact ⟨.count keyPrefix, trivial, rfl, rfl⟩
  | unregister server id =>
    have hin := keyOf?_transaction hcommand hkey
    simp only [List.mem_cons, List.not_mem_nil, or_false] at hin
    obtain rfl | rfl | rfl := hin <;> cases hkey
    · exact ⟨.connection keyPrefix id, hcall.1, rfl, rfl⟩
    · exact ⟨.server keyPrefix server, hcall.2, rfl, rfl⟩
    · exact ⟨.count keyPrefix, trivial, rfl, rfl⟩
  | count =>
    obtain rfl := List.mem_singleton.mp hcommand
    cases hkey
    exact ⟨.count keyPrefix, trivial, rfl, rfl⟩
  | refresh server ids n =>
    obtain hin | hin := List.mem_append.mp hcommand
    · obtain ⟨id, hid, rfl⟩ := List.mem_map.mp hin
      cases hkey
      exact ⟨.connection keyPrefix id, hcall.1 id hid, rfl, rfl⟩
    · obtain rfl := List.mem_singleton.mp hin
      cases hkey
      exact ⟨.server keyPrefix server, hcall.2, rfl, rfl⟩

/-! ## What is kept under the keys -/

/-- A store that takes requests of several commands keeps everything under keys: a request leaves
alone what is kept under a key that none of its commands names. -/
def Keyed {σ κ : Type} (send : σ → List (List String) → σ)
    (look : σ → String → κ) : Prop :=
  ∀ s request key, (∀ command ∈ request, keyOf? command ≠ some key) →
    look (send s request) key = look s key

namespace Loopback

theorem find?_add (s : Loopback) {key k : String} (n : Int) (hkey : key ≠ k) :
    (s.add key n).1.counters.find? k = s.counters.find? k :=
  (Table.find?_set ..).trans (if_neg hkey)

theorem find?_perform (s : Loopback) {command : List String} {k : String}
    (hkey : keyOf? command ≠ some k) :
    (s.perform command).1.counters.find? k = s.counters.find? k := by
  unfold perform
  split
  · exact find?_add s _ fun h => hkey (congrArg some h)
  · exact find?_add s _ fun h => hkey (congrArg some h)
  · rfl
  · rfl

theorem find?_answer (s : Loopback) {command : List String} {k : String}
    (hkey : keyOf? command ≠ some k) :
    (s.answer command).1.counters.find? k = s.counters.find? k := by
  unfold answer
  split
  · rfl
  · rfl
  · exact find?_perform s hkey
  · exact find?_perform s hkey

theorem find?_receive (s : Loopback) {command : List String} {k : String}
    (hkey : keyOf? command ≠ some k) :
    (s.receive command).1.counters.find? k = s.counters.find? k := by
  rw [← find?_answer s hkey]
  cases hfind : (s.answer command).1.replaced.find? (command.headD "") <;>
    simp only [receive, hfind]

theorem keyed_receiveAll :
    Keyed (fun s request => (receiveAll s request).1) fun s key => s.counters.find? key := by
  intro s request key hnamed
  induction request generalizing s with
  | nil => rfl
  | cons command rest ih =>
    exact (ih _ fun c hc => hnamed c (List.mem_cons_of_mem _ hc)).trans
      (find?_receive s (hnamed command List.mem_cons_self))

end Loopback

def sendCalls {σ : Type} (send : σ → List (List String) → σ) (keyPrefix : String)
    (lifetime : Time.Duration) : σ → List (Call × Time.Timestamp) → σ :=
  List.foldl fun s call => send s (call.1.commands keyPrefix call.2 lifetime)

/-- Calls of a deployment change nothing under the keys of others. -/
theorem look_sendCalls {σ κ : Type} {send : σ → List (List String) → σ}
    {look : σ → String → κ} (hkeyed : Keyed send look) {calls : List (Call × Time.Timestamp)}
    (hcalls : ∀ call ∈ calls, call.1.Generated) (s : σ) {k : Key} (hk : k.Generated)
    (hother : keyPrefix ≠ k.keyPrefix) :
    look (sendCalls send keyPrefix lifetime s calls) k.text = look s k.text := by
  induction calls generalizing s with
  | nil => rfl
  | cons call rest ih =>
    refine (ih (fun c hc => hcalls c (List.mem_cons_of_mem _ hc)) _).trans ?_
    refine hkeyed s _ _ fun command hcommand hkey => hother ?_
    obtain ⟨k', hk', rfl, htext⟩ :=
      exists_key_of_named (hcalls call List.mem_cons_self) hcommand hkey
    rw [Key.eq_of_text_eq hk' hk htext]

end Store

/-! ## Channels -/

namespace Relay

open Settings (Channels)

inductive Channel where
  | broadcast (channels : Channels)
  | server (channels : Channels) (id : ServerId)
deriving DecidableEq, Repr

namespace Channel

def channels : Channel → Channels
  | broadcast channels | server channels _ => channels

def text : Channel → String
  | broadcast channels => channels.broadcast
  | server channels id => channels.server id

/-- The name in the channel, if there is one, is made up. -/
def Generated : Channel → Prop
  | broadcast _ => True
  | server _ id => isGenerated id.text = true

variable {c c' : Channel}

theorem broadcast_ne_server {p q : Channels} {id : ServerId} (hid : isGenerated id.text = true) :
    p.broadcast ≠ q.server id := by
  intro heq
  obtain ⟨d, hlast, hdigit⟩ := exists_getLast?_of_isGenerated hid
  have ht : p.broadcast.toList.getLast? = some 't' := getLast?_append _ rfl
  rw [heq, Channels.server, getLast?_append _ hlast] at ht
  obtain rfl := Option.some.inj ht
  cases hdigit

/-- A channel with a made-up name tells whose it is. -/
theorem eq_of_text_eq (hc : c.Generated) (hc' : c'.Generated) (htext : c.text = c'.text) :
    c = c' := by
  cases c with
  | broadcast p =>
    cases c' with
    | broadcast q => exact congrArg _ (congrArg Channels.mk (append_inj_of_length htext rfl).1)
    | server q id => exact absurd htext (broadcast_ne_server hc')
  | server p id =>
    cases c' with
    | broadcast q => exact absurd htext.symm (broadcast_ne_server hc)
    | server q id' =>
      obtain ⟨hfront, hid⟩ := marked_inj hc hc' htext
      exact congrArg₂ _ (congrArg Channels.mk hfront) (congrArg ServerId.mk hid)

theorem exists_of_mem_heardBy {channels : Channels} {id : ServerId}
    (hid : isGenerated id.text = true) {channel : String} (hin : channel ∈ channels.heardBy id) :
    ∃ c : Channel, c.Generated ∧ c.channels = channels ∧ c.text = channel := by
  simp only [Channels.heardBy, List.mem_cons, List.not_mem_nil, or_false] at hin
  obtain rfl | rfl := hin
  · exact ⟨.broadcast channels, trivial, rfl, rfl⟩
  · exact ⟨.server channels id, hid, rfl, rfl⟩

end Channel

namespace Ring

theorem exists_of_seek {reader : Reader} {kept : List (String × String)} {message : String}
    (hseek : (seek reader kept).1 = some (.message message)) :
    ∃ channel ∈ reader.channels, (channel, message) ∈ kept := by
  induction kept generalizing reader with
  | nil => cases hseek
  | cons entry rest ih =>
    obtain ⟨channel, text⟩ := entry
    rw [seek] at hseek
    split at hseek
    · next hin =>
      cases hseek
      exact ⟨channel, List.contains_iff_mem.mp hin, List.mem_cons_self⟩
    · obtain ⟨channel', hreader, hkept⟩ := ih hseek
      exact ⟨channel', hreader, List.mem_cons_of_mem _ hkept⟩

theorem exists_of_next {ring : Ring} {reader : Reader} {message : String}
    (hnext : (ring.next reader).1 = some (.message message)) :
    ∃ channel ∈ reader.channels, (channel, message) ∈ ring.kept := by
  rw [next] at hnext
  split at hnext
  · cases hnext
  · obtain ⟨channel, hreader, hkept⟩ := exists_of_seek hnext
    exact ⟨channel, hreader, List.mem_of_mem_drop hkept⟩

end Ring

end Relay

/-! ## Deployments -/

open Relay (Channel)
open Settings (Channels)
open Store (Key)

/-- The deployment under one prefix touches nothing of the deployment under another. -/
structure Apart (mine other : String) : Prop where
  keys : ∀ k k' : Key, k.Generated → k'.Generated → k.keyPrefix = mine →
    k'.keyPrefix = other →
    k.text ≠ k'.text
  /-- Whatever is called, everything under the other's keys stays as it is. -/
  kept : ∀ (σ κ : Type) (send : σ → List (List String) → σ) (look : σ → String → κ),
    Store.Keyed send look →
    ∀ (lifetime : Time.Duration) (calls : List (Store.Call × Time.Timestamp)),
    (∀ call ∈ calls, call.1.Generated) → ∀ (s : σ) (k : Key), k.Generated →
      k.keyPrefix = other →
    look (Store.sendCalls send mine lifetime s calls) k.text = look s k.text
  channels : ∀ c c' : Channel, c.Generated → c'.Generated → c.channels = ⟨mine⟩ →
    c'.channels = ⟨other⟩ → c.text ≠ c'.text
  /-- A message that a server of the other reads was sent on none of the channels. -/
  heard : ∀ (ring : Relay.Ring) (reader : Relay.Ring.Reader) (id : ServerId) (message : String),
    isGenerated id.text = true → reader.channels = (Channels.mk other).heardBy id →
    (ring.next reader).1 = some (.message message) →
    ∃ channel, (channel, message) ∈ ring.kept ∧
      ∀ c : Channel, c.Generated → c.channels = ⟨mine⟩ → c.text ≠ channel

theorem apart_of_ne {mine other : String} (hne : mine ≠ other) : Apart mine other where
  keys k k' hk hk' hmine hother htext := by
    obtain rfl := Key.eq_of_text_eq hk hk' htext
    exact hne (hmine.symm.trans hother)
  kept σ κ send look hkeyed lifetime calls hcalls s k hk hother :=
    Store.look_sendCalls hkeyed hcalls s hk (hother ▸ hne)
  channels c c' hc hc' hmine hother htext := by
    obtain rfl := Channel.eq_of_text_eq hc hc' htext
    exact hne (congrArg Channels.channelPrefix (hmine.symm.trans hother))
  heard ring reader id message hid hreader hnext := by
    obtain ⟨channel, hin, hkept⟩ := Relay.Ring.exists_of_next hnext
    refine ⟨channel, hkept, fun c hc hmine htext => ?_⟩
    obtain ⟨c', hc', hother, htext'⟩ := Channel.exists_of_mem_heardBy hid (hreader ▸ hin)
    obtain rfl := Channel.eq_of_text_eq hc hc' (htext.trans htext'.symm)
    exact hne (congrArg Channels.channelPrefix (hmine.symm.trans hother))

/-- The names that the service makes up have the form of made-up names; with such names, keys and
channels are the same only if they are made in the same way from the same prefix and name. So
deployments with different prefixes have nothing to do with each other. -/
theorem prefixes_part_deployments :
    (∀ n, isGenerated (generated n) = true) ∧
    (∀ k k' : Key, k.Generated → k'.Generated → (k.text = k'.text ↔ k = k')) ∧
    (∀ c c' : Channel, c.Generated → c'.Generated → (c.text = c'.text ↔ c = c')) ∧
    ∀ p q : String, p ≠ q → Apart p q :=
  ⟨isGenerated_generated,
    fun _ _ hk hk' => ⟨Key.eq_of_text_eq hk hk', congrArg Key.text⟩,
    fun _ _ hc hc' => ⟨Channel.eq_of_text_eq hc hc', congrArg Channel.text⟩,
    fun _ _ => apart_of_ne⟩

/-- A deployment whose prefix looks like the keys of another one. -/
theorem lookalike_prefix_parted :
    (Key.server "a" ⟨generated 7⟩).text ≠ (Key.server "a:server:x" ⟨generated 7⟩).text ∧
    (Channel.server ⟨"a"⟩ ⟨generated 7⟩).text ≠
      (Channel.server ⟨"a:server:x"⟩ ⟨generated 7⟩).text ∧
    (Store.sendCalls (fun s request => (Store.Loopback.receiveAll s request).1) "a" (.ofMillis 1)
        { counters := [(Store.countKey "a:server:x", 5)] }
        [(.unregister ⟨generated 7⟩ ⟨generated 9⟩, .epoch)]).counters.find?
      (Store.countKey "a:server:x") = some 5 := by
  obtain ⟨hmade, hkeys, hchannels, hapart⟩ := prefixes_part_deployments
  refine ⟨fun h => ?_, fun h => ?_, ?_⟩
  · have heq := (hkeys (.server "a" ⟨generated 7⟩)
      (.server "a:server:x" ⟨generated 7⟩) (hmade 7)
      (hmade 7)).mp h
    simp at heq
  · have heq := (hchannels (.server ⟨"a"⟩ ⟨generated 7⟩)
      (.server ⟨"a:server:x"⟩ ⟨generated 7⟩)
      (hmade 7) (hmade 7)).mp h
    simp at heq
  · exact (hapart "a" "a:server:x" (by decide)).kept _ _ _ _ Store.Loopback.keyed_receiveAll _ _
      (by simp [Store.Call.Generated, hmade]) _ (.count "a:server:x") trivial rfl

/-- Names of any other form do not keep keys apart. -/
example : Store.connectionKey "a" ⟨"b:connections:count"⟩ =
    Store.countKey "a:connection:b" := by
  decide

end EventHub
