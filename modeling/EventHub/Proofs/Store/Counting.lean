import EventHub.Proofs.Json.Digits
import EventHub.Proofs.Registry.Tables
import EventHub.Store.Loopback
/-!
# Counting by commands

A call on the store is sent as commands, and its result is read off their replies. A store that
carries the commands out lets every call come to the result that the shared store gives it: counting
answers the registrations less those that were undone, and never fewer than none.
-/

namespace EventHub.Store

open Numeric (limit)

/-! ## Results -/

theorem Reply.readInteger_of_allDigits {digits : List Char} (hdigits : Json.AllDigits digits) :
    readInteger digits = (Text.digitsValue? digits).map fun n => (n : Int) := by
  unfold readInteger
  split
  · cases (Json.allDigits_cons.mp hdigits).1
  · cases (Json.allDigits_cons.mp hdigits).1
  · rfl

theorem Reply.readInteger_toString (n : Int) : readInteger (toString n).toList = some n := by
  cases n with
  | ofNat m =>
    change readInteger (toString m).toList = _
    rw [Nat.toString_eq_ofList_toDigits, String.toList_ofList,
      readInteger_of_allDigits (Json.allDigits_toDigits m), Json.digitsValue?_toDigits]
    rfl
  | negSucc m =>
    change readInteger ("-" ++ toString (m + 1)).toList = _
    rw [String.toList_append, Nat.toString_eq_ofList_toDigits, String.toList_ofList,
      String.toList_ofList, List.singleton_append, readInteger, Json.digitsValue?_toDigits]
    rfl

theorem countResult_text {n : Int} (hlow : -(limit 63 : Int) ≤ n) (hhigh : n < limit 63) :
    countResult (.text (toString n)) = .ok (floorCount n) := by
  rw [countResult, Reply.readInteger_toString]
  simp only [decide_eq_true hlow, decide_eq_true hhigh, Bool.and_true, if_true]

theorem firstErrorIn?_eq_none {replies : List Reply}
    (hreplies : ∀ r ∈ replies, r.firstError? = none) : Reply.firstErrorIn? replies = none := by
  induction replies with
  | nil => rfl
  | cons r replies ih =>
    obtain ⟨hr, hreplies⟩ := List.forall_mem_cons.mp hreplies
    rw [Reply.firstErrorIn?, hr, ih hreplies]
    rfl

theorem pipelineResult_ok {replies : List Reply}
    (hreplies : ∀ r ∈ replies, r.firstError? = none) : pipelineResult replies = .ok () := by
  rw [pipelineResult, firstErrorIn?_eq_none hreplies]

/-! ## Carrying commands out -/

namespace Loopback

variable {s : Loopback} {keyPrefix : String} {commands : List (List String)}

def withQueued (s : Loopback) (replies : Option (List Reply)) : Loopback :=
  { s with queued := replies }

def performAll (s : Loopback) : List (List String) → Loopback × List Reply
  | [] => (s, [])
  | command :: rest =>
    let (s, reply) := s.perform command
    let (s, replies) := performAll s rest
    (s, reply :: replies)

theorem perform_get (s : Loopback) (key : String) :
    s.perform ["GET", key] =
      (s, ((s.counters.find? key).map fun n => .text (toString n)).getD .nil) := by
  simp only [perform]
  cases s.counters.find? key <;> rfl

theorem firstError?_perform (s : Loopback) (command : List String) :
    (s.perform command).2.firstError? = none := by
  unfold perform
  split
  · rfl
  · rfl
  · dsimp only
    split <;> rfl
  · rfl

theorem perform_withQueued (s : Loopback) (replies : Option (List Reply))
    (command : List String) :
    (s.withQueued replies).perform command =
      ((s.perform command).1.withQueued replies, (s.perform command).2) := by
  unfold perform
  split <;> rfl

theorem queued_perform (s : Loopback) (command : List String) :
    (s.perform command).1.queued = s.queued := by
  unfold perform
  split <;> rfl

theorem replaced_perform (s : Loopback) (command : List String) :
    (s.perform command).1.replaced = s.replaced := by
  unfold perform
  split <;> rfl

theorem firstError?_performAll (s : Loopback) (commands : List (List String)) :
    ∀ r ∈ (s.performAll commands).2, r.firstError? = none := by
  induction commands generalizing s with
  | nil => exact List.forall_mem_nil _
  | cons command rest ih =>
    exact List.forall_mem_cons.mpr ⟨firstError?_perform s command, ih _⟩

theorem performAll_idle (hidle : ∀ command ∈ commands, (s.perform command).1 = s) :
    (s.performAll commands).1 = s := by
  induction commands with
  | nil => rfl
  | cons command rest ih =>
    obtain ⟨hcommand, hrest⟩ := List.forall_mem_cons.mp hidle
    rw [performAll]
    dsimp only
    rw [hcommand, ih hrest]

/-! ## What is received -/

/-- No transaction is under way, and replies are the usual ones. -/
structure Usual (s : Loopback) : Prop where
  queued : s.queued = none
  replaced : s.replaced = []

theorem Usual.perform (husual : s.Usual) (command : List String) :
    (s.perform command).1.Usual :=
  ⟨(queued_perform s command).trans husual.queued,
    (replaced_perform s command).trans husual.replaced⟩

theorem receive_eq (hreplaced : s.replaced = []) (command : List String) :
    s.receive command = s.answer command := by
  have hkept : (s.answer command).1.replaced = [] := by
    unfold answer
    split
    · exact hreplaced
    · exact hreplaced
    · exact (replaced_perform s _).trans hreplaced
    · exact (replaced_perform s _).trans hreplaced
  have hfind : (s.answer command).1.replaced.find? (command.headD "") = none := by
    rw [hkept]
    rfl
  simp only [receive, hfind]

def Plain (command : List String) : Prop := command ≠ ["MULTI"] ∧ command ≠ ["EXEC"]

theorem answer_plain (hqueued : s.queued = none) {command : List String}
    (hplain : Plain command) : s.answer command = s.perform command := by
  unfold answer
  rw [hqueued]
  split
  · exact absurd rfl hplain.1
  · next heq => cases heq
  · next heq => cases heq
  · rfl

theorem answer_withQueued (s : Loopback) (replies : List Reply) {command : List String}
    (hplain : Plain command) :
    (s.withQueued (some replies)).answer command =
      ((s.perform command).1.withQueued (some (replies ++ [(s.perform command).2])),
        .status "QUEUED") := by
  unfold answer
  split
  · exact absurd rfl hplain.1
  · exact absurd rfl hplain.2
  · next heq =>
    cases heq
    rw [perform_withQueued]
    rfl
  · next heq => cases heq

theorem receiveAll_cons (s : Loopback) (hreplaced : s.replaced = []) (command : List String)
    (rest : List (List String)) :
    s.receiveAll (command :: rest) =
      (((s.answer command).1.receiveAll rest).1,
        (s.answer command).2 :: ((s.answer command).1.receiveAll rest).2) := by
  rw [receiveAll, receive_eq hreplaced]

/-- The commands of a transaction come one by one, and their replies at its end. -/
theorem receiveAll_withQueued (hreplaced : s.replaced = []) (hplain : ∀ c ∈ commands, Plain c)
    (replies : List Reply) :
    (s.withQueued (some replies)).receiveAll (commands ++ [["EXEC"]]) =
      ((s.performAll commands).1.withQueued none,
        List.replicate commands.length (.status "QUEUED") ++
          [.list (replies ++ (s.performAll commands).2)]) := by
  induction commands generalizing s replies with
  | nil =>
    rw [List.nil_append, receiveAll_cons (s.withQueued (some replies)) hreplaced, performAll,
      List.append_nil]
    rfl
  | cons command rest ih =>
    obtain ⟨hcommand, hrest⟩ := List.forall_mem_cons.mp hplain
    have hkept := (replaced_perform s command).trans hreplaced
    rw [List.cons_append, receiveAll_cons (s.withQueued (some replies)) hreplaced,
      answer_withQueued s replies hcommand, ih hkept hrest, List.append_assoc]
    rfl

theorem receiveAll_transaction (husual : s.Usual) (hplain : ∀ c ∈ commands, Plain c) :
    s.receiveAll (transaction commands) =
      ((s.performAll commands).1.withQueued none,
        (.status "OK" :: List.replicate commands.length (.status "QUEUED")) ++
          [.list (s.performAll commands).2]) := by
  rw [transaction, List.cons_append, receiveAll_cons s husual.replaced]
  change (((s.withQueued (some [])).receiveAll _).1,
    _ :: ((s.withQueued (some [])).receiveAll _).2) = _
  rw [receiveAll_withQueued husual.replaced hplain]
  rfl

theorem receiveAll_plain (husual : s.Usual) (hplain : ∀ c ∈ commands, Plain c) :
    s.receiveAll commands = s.performAll commands := by
  induction commands generalizing s with
  | nil => rfl
  | cons command rest ih =>
    obtain ⟨hcommand, hrest⟩ := List.forall_mem_cons.mp hplain
    rw [receiveAll_cons s husual.replaced, answer_plain husual.queued hcommand,
      ih (husual.perform command) hrest]
    rfl

/-! ## Calls -/

variable {connectedAt : Time.Timestamp} {lifetime : Time.Duration}

theorem Usual.add (husual : s.Usual) (key : String) (n : Int) : (s.add key n).1.Usual :=
  ⟨husual.queued, husual.replaced⟩

theorem Usual.withQueued_none (husual : s.Usual) : s.withQueued none = s := by
  rw [withQueued, ← husual.queued]

theorem transactionResult_ok {before replies : List Reply}
    (hbefore : ∀ r ∈ before, r.firstError? = none)
    (hreplies : ∀ r ∈ replies, r.firstError? = none) :
    transactionResult before (.list replies) = .ok () := by
  unfold transactionResult
  rw [pipelineResult_ok hbefore]
  refine pipelineResult_ok (List.forall_mem_singleton.mpr ?_)
  exact firstErrorIn?_eq_none hreplies

/-- A call that is sent as a transaction succeeds. -/
theorem call_of_transaction (husual : s.Usual) {c : Call}
    (hcommands : c.commands keyPrefix connectedAt lifetime = transaction commands)
    (hresult : ∀ replies, c.result replies =
      (transactionResult replies.dropLast (replies.getLast?.getD .nil)).map fun _ => 0)
    (hplain : ∀ c ∈ commands, Plain c) :
    s.call keyPrefix connectedAt lifetime c =
      ((s.performAll commands).1.withQueued none, .ok 0) := by
  have hbefore : ∀ r ∈ Reply.status "OK" :: List.replicate commands.length (.status "QUEUED"),
      r.firstError? = none := by
    refine List.forall_mem_cons.mpr ⟨rfl, fun r hr => ?_⟩
    rw [(List.mem_replicate.mp hr).2]
    rfl
  rw [call, hcommands, receiveAll_transaction husual hplain]
  dsimp only
  rw [hresult, List.dropLast_concat, List.getLast?_concat, Option.getD_some,
    transactionResult_ok hbefore (firstError?_performAll s commands)]
  rfl

theorem call_register (husual : s.Usual) (r : Record) (n : Nat) :
    s.call keyPrefix connectedAt lifetime (.register r n) =
      ((s.add (countKey keyPrefix) 1).1, .ok 0) := by
  rw [call_of_transaction husual rfl (fun _ => rfl) (by simp [Plain])]
  exact congrArg (·, _) (husual.add _ _).withQueued_none

theorem call_unregister (husual : s.Usual) (server : ServerId) (id : ConnectionId) :
    s.call keyPrefix connectedAt lifetime (.unregister server id) =
      ((s.add (countKey keyPrefix) (-1)).1, .ok 0) := by
  rw [call_of_transaction husual rfl (fun _ => rfl) (by simp [Plain])]
  exact congrArg (·, _) (husual.add _ _).withQueued_none

theorem call_refresh (husual : s.Usual) (server : ServerId) (ids : List ConnectionId) (n : Nat) :
    s.call keyPrefix connectedAt lifetime (.refresh server ids n) = (s, .ok 0) := by
  have hidle : ∀ command ∈ refreshCommands keyPrefix server ids lifetime,
      Plain command ∧ (s.perform command).1 = s := by
    intro command hcommand
    rcases List.mem_append.mp hcommand with hcommand | hcommand
    · obtain ⟨id, _, rfl⟩ := List.mem_map.mp hcommand
      exact ⟨by simp [Plain], rfl⟩
    · rw [List.mem_singleton.mp hcommand]
      exact ⟨by simp [Plain], rfl⟩
  rw [call, Call.commands, receiveAll_plain husual fun c hc => (hidle c hc).1]
  dsimp only
  rw [performAll_idle fun c hc => (hidle c hc).2, Call.result,
    pipelineResult_ok (firstError?_performAll s _)]
  rfl

theorem call_count (husual : s.Usual) {n : Int}
    (hcounter : (s.counters.find? (countKey keyPrefix)).getD 0 = n)
    (hlow : -(limit 63 : Int) ≤ n) (hhigh : n < limit 63) :
    s.call keyPrefix connectedAt lifetime .count = (s, .ok (floorCount n)) := by
  rw [call, Call.commands, countCommands, receiveAll_plain husual (by simp [Plain]), performAll,
    perform_get]
  dsimp only [performAll, Call.result, List.headD_cons]
  cases hfind : s.counters.find? (countKey keyPrefix) with
  | none =>
    rw [hfind] at hcounter
    subst hcounter
    rfl
  | some m =>
    rw [hfind, Option.getD_some] at hcounter
    subst hcounter
    exact congrArg (Prod.mk s) (countResult_text hlow hhigh)

end Loopback

/-! ## Any calls -/

/-- A call with what else is sent along. -/
structure Sent where
  call : Call
  connectedAt : Time.Timestamp
  lifetime : Time.Duration

def Loopback.results (s : Loopback) (keyPrefix : String) : List Sent → List (Except Error Nat)
  | [] => []
  | x :: rest =>
    let (s, result) := s.call keyPrefix x.connectedAt x.lifetime x.call
    result :: s.results keyPrefix rest

def results (s : Store) : List Call → List Nat
  | [] => []
  | c :: rest =>
    let (s, result) := s.perform c
    result :: s.results rest

/-- What is counted under the prefix is what the store counts. -/
structure Loopback.Counts (s : Loopback) (keyPrefix : String) (store : Store) : Prop where
  usual : s.Usual
  counter : (s.counters.find? (countKey keyPrefix)).getD 0 = store.counter

variable {s : Loopback} {keyPrefix : String} {store : Store}

theorem Loopback.Counts.add (hcounts : s.Counts keyPrefix store) {store' : Store} {n : Int}
    (hcounter : store'.counter = store.counter + n) :
    (s.add (countKey keyPrefix) n).1.Counts keyPrefix store' := by
  refine ⟨hcounts.usual.add _ _, ?_⟩
  rw [Loopback.add, Table.find?_set, if_pos rfl, Option.getD_some, hcounts.counter, hcounter]

theorem Loopback.Counts.call (hcounts : s.Counts keyPrefix store) (x : Sent)
    (hbounds : store.counter.natAbs < limit 63) :
    (s.call keyPrefix x.connectedAt x.lifetime x.call).2 = .ok (store.perform x.call).2 ∧
      (s.call keyPrefix x.connectedAt x.lifetime x.call).1.Counts keyPrefix
        (store.perform x.call).1 := by
  obtain ⟨c, connectedAt, lifetime⟩ := x
  cases c with
  | register r n =>
    rw [call_register hcounts.usual]
    exact ⟨rfl, hcounts.add rfl⟩
  | unregister server id =>
    rw [call_unregister hcounts.usual]
    exact ⟨rfl, hcounts.add rfl⟩
  | count =>
    rw [call_count hcounts.usual hcounts.counter (by omega) (by omega)]
    exact ⟨rfl, hcounts⟩
  | refresh server ids n =>
    rw [call_refresh hcounts.usual]
    exact ⟨rfl, hcounts⟩

theorem natAbs_counter_perform (store : Store) (c : Call) :
    (store.perform c).1.counter.natAbs ≤ store.counter.natAbs + 1 := by
  cases c <;> simp only [perform] <;> omega

theorem Loopback.Counts.results_eq (hcounts : s.Counts keyPrefix store) (calls : List Sent)
    (hfew : store.counter.natAbs + calls.length ≤ limit 63) :
    s.results keyPrefix calls = (store.results (calls.map Sent.call)).map .ok := by
  -- A call moves the counter by one at most, so it stays within its width to the end.
  induction calls generalizing s store with
  | nil => rfl
  | cons x rest ih =>
    rw [List.length_cons] at hfew
    obtain ⟨hresult, hcounts'⟩ := hcounts.call x (by omega)
    have hstep := natAbs_counter_perform store x.call
    rw [Loopback.results, List.map_cons, Store.results, List.map_cons]
    dsimp only
    rw [hresult, ih hcounts' (by omega)]

/-- Carried out by a store in memory, the commands of any calls come to the results that the shared
store gives, as long as the counter fits its width. -/
theorem results_eq (keyPrefix : String) (calls : List Sent) (hfew : calls.length ≤ limit 63) :
    ({} : Loopback).results keyPrefix calls =
      (({} : Store).results (calls.map Sent.call)).map .ok :=
  Loopback.Counts.results_eq ⟨⟨rfl, rfl⟩, rfl⟩ calls (by simpa using hfew)

/-- More may be undone than has been registered. -/
example :
    (({} : Loopback).results "sse" [⟨.unregister ⟨"s"⟩ ⟨"c"⟩, .epoch, ⟨0⟩⟩,
      ⟨.count, .epoch, ⟨0⟩⟩]).map Except.toOption = [some 0, some 0] := by
  decide +kernel

end EventHub.Store
