import EventHub.Proofs.Connection.Acts
import Mathlib.Data.List.Nodup
/-!
# Frames leave in the order of the line

While a connection has a receiver, the frames taken and the frames queued are exactly those of the
calls that returned without an error, in the order in which these asked for the outbox. The
invariant ties the turns in line to the calls that hold them: the call behind a turn is the one
that asked when the turn was given, and every call that has succeeded asked before all those that
stand in line.
-/

namespace EventHub.Connection.Traffic

open Outbox (Turn)

variable {t t' : Traffic} {capacity : Nat}

/-! ## The frames of some calls -/

def framesOf (calls : List Call) (asked : List Nat) : List String :=
  asked.filterMap fun i => calls[i]?.bind Call.acceptedFrame?

theorem accepted_eq (t : Traffic) : t.accepted = framesOf t.calls t.asked := rfl

theorem acceptedFrame_of_not_succeeded {c : Call} (hc : ¬ c.Succeeded) :
    c.acceptedFrame? = none := by
  unfold Call.acceptedFrame?
  split
  · next hstage => exact absurd hstage hc
  · rfl

theorem not_fresh_of_turn {c : Call} {id : Nat} (hturn : c.turn? = some id) : ¬ c.IsFresh := by
  rintro (hstage | hstage) <;> simp [Call.turn?, hstage] at hturn

theorem not_succeeded_of_turn {c : Call} {id : Nat} (hturn : c.turn? = some id) :
    ¬ c.Succeeded := by
  intro hstage
  rw [Call.Succeeded] at hstage
  simp [Call.turn?, hstage] at hturn

theorem not_succeeded_of_fresh {c : Call} (hfresh : c.IsFresh) : ¬ c.Succeeded := by
  intro hsucceeded
  rcases hfresh with hstage | hstage <;> simp [Call.Succeeded, hstage] at hsucceeded

theorem framesOf_append (calls : List Call) (left right : List Nat) :
    framesOf calls (left ++ right) = framesOf calls left ++ framesOf calls right :=
  List.filterMap_append

/-- Frames do not change with a call that does not count before or after. -/
theorem framesOf_congr {calls calls' : List Call} {asked : List Nat}
    (hsame : ∀ i ∈ asked, calls'[i]?.bind Call.acceptedFrame? =
      calls[i]?.bind Call.acceptedFrame?) :
    framesOf calls' asked = framesOf calls asked :=
  List.filterMap_congr hsame

theorem framesOf_fail {i : Nat} {c d : Call} (hc : t.calls[i]? = some c)
    (hpending : ¬ c.Succeeded) (hfailed : ¬ d.Succeeded) :
    framesOf (t.calls.set i d) t.asked = framesOf t.calls t.asked := by
  apply framesOf_congr
  intro j _
  by_cases hij : i = j
  · subst hij
    have hlt : i < t.calls.length := (List.getElem?_eq_some_iff.mp hc).1
    rw [List.getElem?_set_self hlt, hc, Option.bind_some, Option.bind_some,
      acceptedFrame_of_not_succeeded hpending, acceptedFrame_of_not_succeeded hfailed]
  · rw [List.getElem?_set_ne hij]

/-- A call that asks for the outbox has not succeeded yet. -/
theorem accepted_enter {i : Nat} {c : Call} (hc : t.calls[i]? = some c) (hfresh : c.IsFresh) :
    (t.enter i c).accepted = t.accepted := by
  have hpending : ¬ (c.withTurn t.outbox.nextTurn).Succeeded :=
    not_succeeded_of_turn (turn_withTurn c _)
  have hlt : i < t.calls.length := (List.getElem?_eq_some_iff.mp hc).1
  have hsame : framesOf (t.enter i c).calls t.asked = framesOf t.calls t.asked :=
    framesOf_fail hc (not_succeeded_of_fresh hfresh) hpending
  have hnone : framesOf (t.enter i c).calls [i] = [] := by
    simp [framesOf, hlt, acceptedFrame_of_not_succeeded hpending]
  rw [accepted_eq, accepted_eq, asked_enter, framesOf_append, hsame, hnone, List.append_nil]

/-- The call that succeeds last among those that have asked adds its frame at the end. -/
theorem framesOf_succeed {calls : List Call} {asked : List Nat} (hnodup : asked.Nodup)
    {id i : Nat} (hid : asked[id]? = some i) {c : Call} (hc : calls[i]? = some c)
    (hpending : ¬ c.Succeeded)
    (hlast : ∀ j k : Nat, asked[k]? = some j → id < k → ∀ d, calls[j]? = some d →
      ¬ d.Succeeded) :
    framesOf (calls.set i { c with stage := .returned (.ok ()) }) asked =
      framesOf calls asked ++ [c.frame] := by
  obtain ⟨hlt, hget⟩ := List.getElem?_eq_some_iff.mp hid
  obtain ⟨hi, _⟩ := List.getElem?_eq_some_iff.mp hc
  have hsplit : asked = asked.take id ++ i :: asked.drop (id + 1) := by
    rw [← hget, ← List.drop_eq_getElem_cons hlt, List.take_append_drop]
  have hafter : framesOf calls (asked.drop (id + 1)) = [] := by
    apply List.filterMap_eq_nil_iff.mpr
    intro j hj
    obtain ⟨k, hk⟩ := List.mem_iff_getElem?.mp hj
    rw [List.getElem?_drop] at hk
    cases hd : calls[j]? with
    | none => rfl
    | some d => exact acceptedFrame_of_not_succeeded (hlast j _ hk (by omega) d hd)
  have hother (part : List Nat) (hpart : i ∉ part) :
      framesOf (calls.set i { c with stage := .returned (.ok ()) }) part =
        framesOf calls part := by
    apply framesOf_congr
    intro j hj
    have hij : i ≠ j := fun hij => hpart (by rw [hij]; exact hj)
    rw [List.getElem?_set_ne hij]
  rw [hsplit] at hnodup
  have hbefore : i ∉ asked.take id := fun hmem =>
    List.disjoint_of_nodup_append hnodup hmem List.mem_cons_self
  have hbehind : i ∉ asked.drop (id + 1) :=
    (List.nodup_cons.mp (List.nodup_append.mp hnodup).2.1).1
  have hself : framesOf (calls.set i { c with stage := .returned (.ok ()) }) [i] = [c.frame] := by
    simp [framesOf, hi, Call.acceptedFrame?]
  have hnone : framesOf calls [i] = [] := by
    simp [framesOf, hc, acceptedFrame_of_not_succeeded hpending]
  rw [hsplit, ← List.singleton_append]
  simp only [framesOf_append, hother _ hbefore, hother _ hbehind, hself, hnone, hafter,
    List.append_nil]

/-! ## The invariant -/

/-- Each turn in line is held by the call that asked for it, the calls in line asked after all
those that have succeeded, and the frames delivered are those of the latter. -/
structure Orderly (capacity : Nat) (t : Traffic) : Prop extends Sound t where
  capacity_eq : t.outbox.capacity = capacity
  queue_le : t.outbox.queue.length ≤ capacity
  asked_length : t.asked.length = t.outbox.nextTurn
  asked_nodup : t.asked.Nodup
  sorted : t.outbox.turns.Pairwise (·.1 < ·.1)
  holder : ∀ p ∈ t.outbox.turns, ∃ (i : Nat) (c : Call), t.asked[p.1]? = some i ∧
    t.calls[i]? = some c ∧ c.turn? = some p.1 ∧ c.frame = p.2
  turn : ∀ (i : Nat) (c : Call) (id : Nat), t.calls[i]? = some c → c.turn? = some id →
    t.asked[id]? = some i
  begun : ∀ i ∈ t.asked, ∃ c : Call, t.calls[i]? = some c ∧ ¬ c.IsFresh
  succeeded : ∀ (i : Nat) (c : Call), t.calls[i]? = some c → c.Succeeded →
    ∃ id : Nat, t.asked[id]? = some i ∧ ∀ p ∈ t.outbox.turns, id < p.1
  shut : t.outbox.senderGone = true → t.outbox.disposed = true ∧ t.outbox.line = []
  delivered : t.outbox.receiverGone = false →
    t.received ++ t.outbox.queue = framesOf t.calls t.asked

theorem Orderly.turn_lt (horderly : t.Orderly capacity) {p : Nat × String}
    (hp : p ∈ t.outbox.turns) : p.1 < t.outbox.nextTurn := by
  obtain ⟨i, c, hasked, _⟩ := horderly.holder p hp
  rw [← horderly.asked_length]
  exact (List.getElem?_eq_some_iff.mp hasked).1

theorem Orderly.not_asked (horderly : t.Orderly capacity) {i : Nat} {c : Call}
    (hc : t.calls[i]? = some c) (hfresh : c.IsFresh) : i ∉ t.asked := by
  intro hmem
  obtain ⟨d, hd, hbegun⟩ := horderly.begun i hmem
  rw [hc, Option.some.injEq] at hd
  exact hbegun (hd ▸ hfresh)

/-- A call before or behind the end to which another one has been added. -/
theorem of_getElem?_append {calls : List Call} {i : Nat} {c d : Call}
    (hc : (calls ++ [d])[i]? = some c) : calls[i]? = some c ∨ c = d := by
  rcases Nat.lt_or_ge i calls.length with hi | hi
  · rw [List.getElem?_append_left hi] at hc
    exact Or.inl hc
  · rw [List.getElem?_append_right hi, List.getElem?_singleton] at hc
    split at hc
    · exact Or.inr (Option.some.inj hc).symm
    · simp at hc

theorem accepted_call (horderly : t.Orderly capacity) (frame : String) (direct : Bool) :
    framesOf (t.calls ++ [.fresh frame direct]) t.asked = framesOf t.calls t.asked := by
  refine framesOf_congr fun i hi => ?_
  obtain ⟨c, hc, _⟩ := horderly.begun i hi
  rw [List.getElem?_append_left (List.getElem?_eq_some_iff.mp hc).1]

theorem orderly_call (horderly : t.Orderly capacity) (frame : String) (direct : Bool) :
    Orderly capacity { t with calls := t.calls ++ [.fresh frame direct] } := by
  have hfresh : (Call.fresh frame direct).IsFresh := by
    cases direct
    · exact Or.inl rfl
    · exact Or.inr rfl
  have hold (i : Nat) (c : Call) (hc : t.calls[i]? = some c) :
      (t.calls ++ [.fresh frame direct])[i]? = some c := by
    rw [List.getElem?_append_left (List.getElem?_eq_some_iff.mp hc).1]
    exact hc
  refine { horderly with
    writer := horderly.writer, placed := ?placed, holder := ?holder, turn := ?turn,
    begun := ?begun, succeeded := ?succeeded, delivered := ?delivered }
  case placed =>
    intro i c hc
    rcases of_getElem?_append hc with hc | rfl
    · exact horderly.placed i c hc
    · exact Or.inl hfresh
  case holder =>
    intro p hp
    obtain ⟨i, c, hasked, hc, hturn, hframe⟩ := horderly.holder p hp
    exact ⟨i, c, hasked, hold i c hc, hturn, hframe⟩
  case turn =>
    intro i c id hc hturn
    rcases of_getElem?_append hc with hc | rfl
    · exact horderly.turn i c id hc hturn
    · exact absurd hfresh (not_fresh_of_turn hturn)
  case begun =>
    intro i hi
    obtain ⟨c, hc, hbegun⟩ := horderly.begun i hi
    exact ⟨c, hold i c hc, hbegun⟩
  case succeeded =>
    intro i c hc hsucceeded
    rcases of_getElem?_append hc with hc | rfl
    · exact horderly.succeeded i c hc hsucceeded
    · exact absurd hsucceeded (not_succeeded_of_fresh hfresh)
  case delivered =>
    intro hreceiver
    exact (horderly.delivered hreceiver).trans (accepted_call horderly frame direct).symm

theorem of_getElem?_set {calls : List Call} {i j : Nat} {c d : Call}
    (hd : (calls.set i c)[j]? = some d) : i = j ∧ d = c ∨ i ≠ j ∧ calls[j]? = some d := by
  rw [List.getElem?_set] at hd
  split at hd
  · next hij =>
    split at hd
    · exact Or.inl ⟨hij, (Option.some.inj hd).symm⟩
    · cases hd
  · next hij => exact Or.inr ⟨hij, hd⟩

theorem turns_enter (t : Traffic) (i : Nat) (c : Call) :
    (t.enter i c).outbox.turns = t.outbox.turns ++ [(t.outbox.nextTurn, c.frame)] := by
  simp [Outbox.turns, Outbox.enter]

theorem Orderly.asked_nextTurn (horderly : t.Orderly capacity) (i : Nat) (c : Call) :
    (t.enter i c).asked[t.outbox.nextTurn]? = some i := by
  rw [asked_enter, ← horderly.asked_length, List.getElem?_append_right (Nat.le_refl _)]
  simp

/-- The turns given before stay those of the calls that asked for them. -/
theorem asked_enter_of_asked {i j id : Nat} (c : Call) (hj : t.asked[id]? = some j) :
    (t.enter i c).asked[id]? = some j := by
  rw [asked_enter, List.getElem?_append_left (List.getElem?_eq_some_iff.mp hj).1]
  exact hj

theorem orderly_enter (horderly : t.Orderly capacity) {i : Nat} {c : Call}
    (hc : t.calls[i]? = some c) (hfresh : c.IsFresh) (hopen : t.outbox.disposed = false) :
    Orderly capacity (t.enter i c) := by
  have hasked : i ∉ t.asked := horderly.not_asked hc hfresh
  have hnew := horderly.asked_nextTurn i c
  have hself : (t.enter i c).calls[i]? = some (c.withTurn t.outbox.nextTurn) := by
    simp [(List.getElem?_eq_some_iff.mp hc).1]
  have hother {j : Nat} (hj : j ∈ t.asked) : (t.enter i c).calls[j]? = t.calls[j]? := by
    rw [calls_enter, List.getElem?_set_ne]
    rintro rfl
    exact hasked hj
  refine {
    writer := ⟨_, rfl⟩, placed := ?placed, capacity_eq := horderly.capacity_eq,
    queue_le := horderly.queue_le, asked_length := ?asked_length, asked_nodup := ?asked_nodup,
    sorted := ?sorted, holder := ?holder, turn := ?turn, begun := ?begun,
    succeeded := ?succeeded, shut := ?shut, delivered := ?delivered }
  case placed =>
    intro j d hd
    rcases of_getElem?_set hd with ⟨_, rfl⟩ | ⟨_, hd⟩
    · exact Or.inr (Or.inl ⟨_, turn_withTurn c _⟩)
    · exact horderly.placed j d hd
  case asked_length =>
    rw [asked_enter, List.length_append, horderly.asked_length]
    rfl
  case asked_nodup => exact List.nodup_append.mpr ⟨horderly.asked_nodup, by simp, by grind⟩
  case sorted =>
    rw [turns_enter]
    refine List.pairwise_append.mpr ⟨horderly.sorted, by simp, ?_⟩
    intro p hp q hq
    rw [List.mem_singleton.mp hq]
    exact horderly.turn_lt hp
  case holder =>
    rw [turns_enter]
    intro p hp
    rcases List.mem_append.mp hp with hp | hp
    · obtain ⟨j, d, hj, hd, hturn, hframe⟩ := horderly.holder p hp
      exact ⟨j, d, asked_enter_of_asked c hj, (hother (List.mem_of_getElem? hj)).trans hd, hturn,
        hframe⟩
    · rw [List.mem_singleton.mp hp]
      exact ⟨i, _, hnew, hself, turn_withTurn c _, frame_withTurn c _⟩
  case turn =>
    intro j d id hd hturn
    rcases of_getElem?_set hd with ⟨rfl, rfl⟩ | ⟨_, hd⟩
    · rw [turn_withTurn, Option.some.injEq] at hturn
      rw [← hturn]
      exact hnew
    · exact asked_enter_of_asked c (horderly.turn j d id hd hturn)
  case begun =>
    intro j hj
    rcases List.mem_append.mp hj with hj | hj
    · obtain ⟨d, hd, hbegun⟩ := horderly.begun j hj
      exact ⟨d, (hother hj).trans hd, hbegun⟩
    · rw [List.mem_singleton.mp hj]
      exact ⟨_, hself, not_fresh_of_turn (turn_withTurn c _)⟩
  case succeeded =>
    rw [turns_enter]
    intro j d hd hsucceeded
    rcases of_getElem?_set hd with ⟨_, rfl⟩ | ⟨_, hd⟩
    · exact absurd hsucceeded (not_succeeded_of_turn (turn_withTurn c _))
    · obtain ⟨id, hid, hbefore⟩ := horderly.succeeded j d hd hsucceeded
      refine ⟨id, asked_enter_of_asked c hid, fun p hp => ?_⟩
      rcases List.mem_append.mp hp with hp | hp
      · exact hbefore p hp
      · -- The new turn comes after all that have been given out.
        rw [List.mem_singleton.mp hp]
        change id < t.outbox.nextTurn
        rw [← horderly.asked_length]
        exact (List.getElem?_eq_some_iff.mp hid).1
  case shut =>
    intro hsender
    rw [(horderly.shut hsender).1] at hopen
    simp at hopen
  case delivered =>
    intro hreceiver
    exact (horderly.delivered hreceiver).trans (accepted_enter hc hfresh).symm

/-- A call comes to its end, and the turn that it may have held is no longer in line. -/
theorem orderly_end (horderly : t.Orderly capacity) {i : Nat} {c d : Call}
    (hc : t.calls[i]? = some c) (hended : d.Ended) {o : Outbox}
    (hcapacity : o.capacity = t.outbox.capacity) (hnext : o.nextTurn = t.outbox.nextTurn)
    (hqueue : o.queue.length ≤ capacity) (hsub : o.turns.Sublist t.outbox.turns)
    (hgone : ∀ id, c.turn? = some id → ∀ p ∈ o.turns, p.1 ≠ id)
    (hshut : o.senderGone = true → o.disposed = true ∧ o.line = [])
    (hsucceeds : d.Succeeded → ∃ id, c.turn? = some id ∧ ∀ p ∈ o.turns, id < p.1)
    (hdelivered : o.receiverGone = false →
      t.received ++ o.queue = framesOf (t.calls.set i d) t.asked) :
    Orderly capacity ((t.setOutbox o).setCall i d) := by
  have hlt : i < t.calls.length := (List.getElem?_eq_some_iff.mp hc).1
  have hself : (t.calls.set i d)[i]? = some d := by simp [hlt]
  have hnoturn : d.turn? = none := by
    rcases hended with hstage | ⟨r, hstage⟩ <;> simp [Call.turn?, hstage]
  refine {
    writer := ⟨o, rfl⟩, placed := ?placed, capacity_eq := hcapacity.trans horderly.capacity_eq,
    queue_le := hqueue, asked_length := horderly.asked_length.trans hnext.symm,
    asked_nodup := horderly.asked_nodup, sorted := horderly.sorted.sublist hsub,
    holder := ?holder, turn := ?turn, begun := ?begun, succeeded := ?succeeded, shut := hshut,
    delivered := hdelivered }
  case placed =>
    intro j e he
    rcases of_getElem?_set he with ⟨_, rfl⟩ | ⟨_, he⟩
    · exact Or.inr (Or.inr hended)
    · exact horderly.placed j e he
  case holder =>
    intro p hp
    obtain ⟨j, e, hj, he, hturn, hframe⟩ := horderly.holder p (hsub.subset hp)
    have hij : i ≠ j := by
      rintro rfl
      rw [hc, Option.some.injEq] at he
      exact hgone p.1 (he ▸ hturn) p hp rfl
    exact ⟨j, e, hj, (List.getElem?_set_ne hij).trans he, hturn, hframe⟩
  case turn =>
    intro j e id he hturn
    rcases of_getElem?_set he with ⟨_, rfl⟩ | ⟨_, he⟩
    · rw [hnoturn] at hturn
      cases hturn
    · exact horderly.turn j e id he hturn
  case begun =>
    intro j hj
    by_cases hij : i = j
    · subst hij
      refine ⟨d, hself, ?_⟩
      rintro (hfresh | hfresh) <;>
        rcases hended with hstage | ⟨r, hstage⟩ <;> simp [hfresh] at hstage
    · obtain ⟨e, he, hbegun⟩ := horderly.begun j hj
      exact ⟨e, (List.getElem?_set_ne hij).trans he, hbegun⟩
  case succeeded =>
    intro j e he hsucceeded
    rcases of_getElem?_set he with ⟨rfl, rfl⟩ | ⟨_, he⟩
    · obtain ⟨id, hturn, hbefore⟩ := hsucceeds hsucceeded
      exact ⟨id, horderly.turn i c id hc hturn, hbefore⟩
    · obtain ⟨id, hid, hbefore⟩ := horderly.succeeded j e he hsucceeded
      exact ⟨id, hid, fun p hp => hbefore p (hsub.subset hp)⟩

theorem orderly_end_fresh (horderly : t.Orderly capacity) {i : Nat} {c d : Call}
    (hc : t.calls[i]? = some c) (hfresh : c.IsFresh) (hended : d.Ended)
    (hfailed : ¬ d.Succeeded) : Orderly capacity (t.setCall i d) := by
  rw [← congrArg (·.setCall i d) (setOutbox_outbox horderly.toSound)]
  refine orderly_end horderly hc hended rfl rfl horderly.queue_le (List.Sublist.refl _)
    ?_ horderly.shut ?_ ?_
  · intro id hturn
    exact absurd hfresh (not_fresh_of_turn hturn)
  · exact fun hsucceeded => absurd hsucceeded hfailed
  · intro hreceiver
    rw [framesOf_fail hc (not_succeeded_of_fresh hfresh) hfailed]
    exact horderly.delivered hreceiver

/-- The turns behind the first one in line were given later. -/
theorem Orderly.first_lt (horderly : t.Orderly capacity) {x : Turn} {rest : List Turn}
    (hline : t.outbox.line = x :: rest) :
    ∀ p ∈ rest.map fun t => (t.id, t.frame), x.id < p.1 := by
  have hsorted := horderly.sorted
  rw [Outbox.turns_cons hline] at hsorted
  exact (List.pairwise_cons.mp hsorted).1

theorem shut_of_nonempty (horderly : t.Orderly capacity) {x : Turn} {rest : List Turn}
    (hline : t.outbox.line = x :: rest) : t.outbox.senderGone = false := by
  cases hsender : t.outbox.senderGone with
  | false => rfl
  | true => simp [(horderly.shut hsender).2] at hline

/-- The first in line adds its frame at the end of those accepted. -/
theorem framesOf_accept (horderly : t.Orderly capacity) {i : Nat} {c : Call}
    (hc : t.calls[i]? = some c) {x : Turn} (hturn : c.turn? = some x.id) {rest : List Turn}
    (hline : t.outbox.line = x :: rest) :
    framesOf (t.calls.set i { c with stage := .returned (.ok ()) }) t.asked =
      framesOf t.calls t.asked ++ [x.frame] := by
  have hmem : (x.id, x.frame) ∈ t.outbox.turns := by
    rw [Outbox.turns_cons hline]
    exact List.mem_cons_self
  have hframe : c.frame = x.frame := by
    obtain ⟨j, d, hj, hd, _, hframe⟩ := horderly.holder _ hmem
    rw [horderly.turn i c x.id hc hturn, Option.some.injEq] at hj
    subst hj
    rw [hc, Option.some.injEq] at hd
    exact hd ▸ hframe
  -- No call that asked after the first in line can have succeeded already.
  have hlast : ∀ j k : Nat, t.asked[k]? = some j → x.id < k → ∀ d, t.calls[j]? = some d →
      ¬ d.Succeeded := by
    intro j k hk hlater d hd hsucceeded
    obtain ⟨k', hk', hbefore⟩ := horderly.succeeded j d hd hsucceeded
    have hx := hbefore _ hmem
    have hlt := (List.getElem?_eq_some_iff.mp hk).1
    have hkk := (List.getElem?_inj hlt horderly.asked_nodup).mp (hk.trans hk'.symm)
    omega
  rw [framesOf_succeed horderly.asked_nodup (horderly.turn i c x.id hc hturn) hc
    (not_succeeded_of_turn hturn) hlast, hframe]

theorem orderly_accept (horderly : t.Orderly capacity) {i : Nat} {c : Call}
    (hc : t.calls[i]? = some c) {x : Turn} (hturn : c.turn? = some x.id) {rest : List Turn}
    (hline : t.outbox.line = x :: rest)
    (hroom : t.outbox.queue.length < t.outbox.capacity) :
    Orderly capacity ((t.setOutbox
      { t.outbox with line := rest, queue := t.outbox.queue ++ [x.frame] }).setCall i
        { c with stage := .returned (.ok ()) }) := by
  have hfirst := horderly.first_lt hline
  refine orderly_end horderly hc (Or.inr ⟨_, rfl⟩) rfl rfl ?_ ?_ ?_ ?_ ?_ ?_
  · rw [List.length_append, List.length_singleton, ← horderly.capacity_eq]
    exact hroom
  · rw [Outbox.turns_cons hline]
    exact List.sublist_cons_self _ _
  · intro id hid p hp
    rw [hturn, Option.some.injEq] at hid
    have := hfirst p hp
    omega
  · intro hsender
    rw [shut_of_nonempty horderly hline] at hsender
    simp at hsender
  · exact fun _ => ⟨x.id, hturn, hfirst⟩
  · intro hreceiver
    rw [framesOf_accept horderly hc hturn hline, ← horderly.delivered hreceiver,
      List.append_assoc]

theorem orderly_fail (horderly : t.Orderly capacity) {i : Nat} {c d : Call}
    (hc : t.calls[i]? = some c) {x : Turn} (hturn : c.turn? = some x.id) {rest : List Turn}
    (hline : t.outbox.line = x :: rest) (hended : d.Ended) (hfailed : ¬ d.Succeeded) :
    Orderly capacity ((t.setOutbox { t.outbox with line := rest }).setCall i d) := by
  refine orderly_end horderly hc hended rfl rfl horderly.queue_le ?_ ?_ ?_ ?_ ?_
  · rw [Outbox.turns_cons hline]
    exact List.sublist_cons_self _ _
  · intro id hid p hp
    rw [hturn, Option.some.injEq] at hid
    have := horderly.first_lt hline p hp
    omega
  · intro hsender
    rw [shut_of_nonempty horderly hline] at hsender
    simp at hsender
  · exact fun hsucceeded => absurd hsucceeded hfailed
  · intro hreceiver
    rw [framesOf_fail hc (not_succeeded_of_turn hturn) hfailed]
    exact horderly.delivered hreceiver

theorem turns_abandon (o : Outbox) (id : Nat) :
    (o.abandon id).turns = o.turns.filter fun p => p.1 ≠ id := by
  simp only [Outbox.turns, Outbox.abandon, List.filter_map]
  rfl

theorem orderly_leave (horderly : t.Orderly capacity) {i : Nat} {c d : Call}
    (hc : t.calls[i]? = some c) {id : Nat} (hturn : c.turn? = some id) (hended : d.Ended)
    (hfailed : ¬ d.Succeeded) :
    Orderly capacity ((t.setOutbox (t.outbox.abandon id)).setCall i d) := by
  refine orderly_end horderly hc hended rfl rfl horderly.queue_le ?_ ?_ ?_ ?_ ?_
  · rw [turns_abandon]
    exact List.filter_sublist
  · intro id' hid p hp
    rw [hturn, Option.some.injEq] at hid
    subst hid
    rw [turns_abandon] at hp
    simpa using (List.mem_filter.mp hp).2
  · intro hsender
    obtain ⟨hdisposed, hline⟩ := horderly.shut hsender
    exact ⟨hdisposed, by simp [Outbox.abandon, hline]⟩
  · exact fun hsucceeded => absurd hsucceeded hfailed
  · intro hreceiver
    rw [framesOf_fail hc (not_succeeded_of_turn hturn) hfailed]
    exact horderly.delivered hreceiver

/-! ## What keeps the invariant -/

theorem orderly_wait (horderly : t.Orderly capacity) {line : List Turn}
    (hturns : Outbox.turns { t.outbox with line := line } = t.outbox.turns) :
    Orderly capacity (t.setOutbox { t.outbox with line := line }) := by
  have hline (hnil : t.outbox.line = []) : line = [] := by
    simpa [Outbox.turns, hnil] using hturns
  exact { horderly with
    writer := ⟨_, rfl⟩
    sorted := by rw [outbox_setOutbox, hturns]; exact horderly.sorted
    holder := by rw [outbox_setOutbox, hturns]; exact horderly.holder
    succeeded := by rw [outbox_setOutbox, hturns]; exact horderly.succeeded
    shut := fun hsender => (horderly.shut hsender).imp_right hline }

theorem orderly_dispose (horderly : t.Orderly capacity) (closing : Bool) :
    Orderly capacity (t.dispose closing) := by
  obtain ⟨o, hwriter⟩ := horderly.writer
  have houtbox : (t.dispose closing).outbox = t.outbox.dispose :=
    outbox_dispose horderly.toSound closing
  refine { horderly with
    writer := ⟨_, writer_dispose hwriter closing⟩, capacity_eq := ?_, queue_le := ?_,
    asked_length := ?_, sorted := ?_, holder := ?_, succeeded := ?_, shut := ?_,
    delivered := ?_ }
  · rw [houtbox]
    exact horderly.capacity_eq
  · rw [houtbox]
    exact horderly.queue_le
  · rw [houtbox]
    exact horderly.asked_length
  · rw [houtbox]
    exact horderly.sorted
  · rw [houtbox]
    exact horderly.holder
  · rw [houtbox]
    exact horderly.succeeded
  · rw [houtbox]
    intro hsender
    refine ⟨rfl, ?_⟩
    rcases Bool.or_eq_true_iff.mp hsender with hsender | hempty
    · exact (horderly.shut hsender).2
    · exact List.isEmpty_iff.mp hempty
  · rw [houtbox]
    exact horderly.delivered

theorem orderly_receive (horderly : t.Orderly capacity) : Orderly capacity t.receive := by
  rcases hqueue : t.outbox.queue with _ | ⟨f, rest⟩
  · rw [receive_nil horderly.toSound hqueue]
    exact horderly
  · have hlength := horderly.queue_le
    rw [hqueue, List.length_cons] at hlength
    rw [receive_cons hqueue]
    exact { horderly with
      writer := ⟨_, rfl⟩
      queue_le := Nat.le_of_succ_le hlength
      delivered := by
        intro hreceiver
        have hdelivered := horderly.delivered hreceiver
        rw [hqueue, List.append_cons] at hdelivered
        exact hdelivered }

theorem Act.orderly {t t' : Traffic} (hact : Act t t') (horderly : t.Orderly capacity) :
    t'.Orderly capacity := by
  cases hact with
  | call frame direct => exact orderly_call horderly frame direct
  | enter i c hc hfresh hopen => exact orderly_enter horderly hc hfresh hopen
  | refuse i c hc hfresh e _ =>
    exact orderly_end_fresh horderly hc hfresh (Or.inr ⟨_, rfl⟩) (by simp [Call.Succeeded])
  | wait line hturns => exact orderly_wait horderly hturns
  | accept i c hc x hturn rest hline hroom =>
    exact orderly_accept horderly hc hturn hline hroom
  | fail i c hc x hturn rest hline e =>
    exact orderly_fail horderly hc hturn hline (Or.inr ⟨_, rfl⟩) (by simp [Call.Succeeded])
  | leave i c hc id hturn stage hstage =>
    refine orderly_leave horderly hc hturn (hstage.imp_right fun h => ⟨_, h⟩) ?_
    rcases hstage with rfl | rfl <;> simp [Call.Succeeded]
  | forget i c hc hfresh =>
    exact orderly_end_fresh horderly hc hfresh (Or.inl rfl) (by simp [Call.Succeeded])
  | dispose closing => exact orderly_dispose horderly closing
  | markDead => exact { horderly with }
  | receive => exact orderly_receive horderly
  | dropReceiver =>
    exact { horderly with
      writer := ⟨_, rfl⟩
      queue_le := Nat.zero_le _
      delivered := by simp [Outbox.dropReceiver] }
  | clock time => exact { horderly with }

theorem Acts.orderly {t t' : Traffic} (hacts : Acts t t') (horderly : t.Orderly capacity) :
    t'.Orderly capacity := by
  induction hacts with
  | refl => exact horderly
  | tail _ hact ih => exact hact.orderly ih

theorem Reachable.orderly {buffer patience : Nat} (hreachable : Reachable buffer patience t) :
    t.Orderly (max buffer 1) := by
  induction hreachable with
  | opened now x hwriter =>
    have houtbox : x.outbox = .ofSettings buffer patience := by
      simp [Connection.outbox, hwriter]
    have hsound : Sound { now := now, connection := x } := ⟨⟨_, hwriter⟩, by simp⟩
    constructor
    case toSound => exact hsound
    all_goals simp [outbox, houtbox, Outbox.ofSettings, Outbox.turns, framesOf]
  | step _ hstep ih => exact (hstep.acts ih.toSound).orderly ih

/-! ## Order and capacity -/

/-- The outbox has room for one frame, which is taken; two calls stand in line. -/
def crowded : Traffic where
  now := 0
  connection :=
    { id := ⟨"1"⟩
      client := "reader"
      writer := .outbox
        { capacity := 1
          patience := 5000
          queue := ["full"]
          line := [⟨1, "a", some 5000⟩, ⟨2, "b", none⟩]
          nextTurn := 3 } }
  calls := [⟨"full", .returned (.ok ())⟩, ⟨"a", .write (some (.turn 1))⟩,
    ⟨"b", .send (.writing (.turn 2))⟩]
  asked := [0, 1, 2]

theorem reachable_crowded : Reachable 1 5000 crowded := by
  have hopened : Reachable 1 5000 _ := .opened 0
    { id := ⟨"1"⟩, client := "reader", writer := .outbox (.ofSettings 1 5000) } rfl
  have hfull := (hopened.step (.call _ "full" true)).step (.poll _ 0 _ rfl false)
  have hfirst := (hfull.step (.call _ "a" true)).step (.poll _ 1 _ rfl false)
  have hsecond := (hfirst.step (.call _ "b" false)).step (.poll _ 2 _ rfl false)
  exact hsecond

/-- While there is a receiver, the frames that it has taken and those that wait for it are exactly
the frames of the calls that returned without an error, each once and in the order in which the
calls asked for the outbox. A call that ended otherwise left no frame, and the queue never holds
more frames than there is room for. -/
theorem received_append_queue {buffer patience : Nat} (hreachable : Reachable buffer patience t) :
    (t.outbox.receiverGone = false → t.received ++ t.outbox.queue = t.accepted) ∧
      t.asked.Nodup ∧
      (∀ (i : Nat) (c : Call), t.calls[i]? = some c → c.Succeeded → i ∈ t.asked) ∧
      t.outbox.queue.length ≤ max buffer 1 := by
  have horderly := hreachable.orderly
  refine ⟨horderly.delivered, horderly.asked_nodup, ?_, horderly.queue_le⟩
  intro i c hc hsucceeded
  obtain ⟨id, hid, _⟩ := horderly.succeeded i c hc hsucceeded
  exact List.mem_of_getElem? hid

theorem received_append_queue_crowded : ∃ t : Traffic, Reachable 1 5000 t ∧
    t.received ++ t.outbox.queue = ["full", "a"] ∧ t.outbox.queue.length ≤ 1 := by
  have hreachable := (reachable_crowded.step (.receive _)).step (.poll _ 1 _ rfl false)
  obtain ⟨hdelivered, _, _, hroom⟩ := received_append_queue hreachable
  exact ⟨_, hreachable, hdelivered rfl, hroom⟩

end EventHub.Connection.Traffic
