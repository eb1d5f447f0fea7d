import EventHub.Connection.Outbox
/-!
# Steps of an outbox

What each operation of an outbox does to its line and to its queue. Only the first in line gets
on, and the only way into the queue is its success.
-/

namespace EventHub.Outbox

def turns (o : Outbox) : List (Nat × String) := o.line.map fun t => (t.id, t.frame)

theorem turns_cons {o : Outbox} {t : Turn} {rest : List Turn} (hline : o.line = t :: rest) :
    o.turns = (t.id, t.frame) :: rest.map fun t => (t.id, t.frame) := by
  simp [turns, hline]

inductive Resumed (o : Outbox) (id : Nat) : Outbox → Option (Except Error Unit) → Prop where
  /-- The write has to wait. -/
  | waits (line : List Turn) (hturns : turns { o with line := line } = o.turns) :
      Resumed o id { o with line := line } none
  | accepted (t : Turn) (rest : List Turn) (hline : o.line = t :: rest) (hid : t.id = id)
      (hroom : o.queue.length < o.capacity) :
      Resumed o id { o with line := rest, queue := o.queue ++ [t.frame] } (some (.ok ()))
  | failed (t : Turn) (rest : List Turn) (hline : o.line = t :: rest) (hid : t.id = id)
      (e : Error)
      (herror : (e = closedError ∧ o.receiverGone = true) ∨ e = timeoutError ∨
        (e = disposedError ∧ o.senderGone = true)) :
      Resumed o id { o with line := rest } (some (.error e))

theorem attempt_resumed (o : Outbox) (now deadline : Nat) {t : Turn} {rest : List Turn}
    (hline : o.line = t :: rest) :
    Resumed o t.id (o.attempt now t deadline rest).1 (o.attempt now t deadline rest).2 := by
  unfold attempt
  split
  · next hgone => exact .failed t rest hline rfl _ (Or.inl ⟨rfl, hgone⟩)
  · split
    · next hroom => exact .accepted t rest hline rfl hroom
    · split
      · exact .failed t rest hline rfl _ (Or.inr (Or.inl rfl))
      · exact .waits _ (by simp [turns, hline])

theorem resume_resumed (o : Outbox) (now id : Nat) :
    Resumed o id (o.resume now id).1 (o.resume now id).2 := by
  unfold resume
  split
  · exact .waits o.line rfl
  · next t rest hline =>
    split
    · exact .waits o.line rfl
    · next hid =>
      rw [ne_eq, Decidable.not_not] at hid
      subst hid
      split
      · exact attempt_resumed o now _ hline
      · split
        · next hsender => exact .failed t rest hline rfl _ (Or.inr (Or.inr ⟨rfl, hsender⟩))
        · exact attempt_resumed o now _ hline

/-- A write that has to wait is not the first in line, or waits for room until its patience runs
out; nothing changes but that its deadline is set. -/
theorem resume_waits {o o' : Outbox} {now id : Nat} (hresume : o.resume now id = (o', none)) :
    (o' = o ∧ ∀ x rest, o.line = x :: rest → x.id ≠ id) ∨
      ∃ x rest, o.line = x :: rest ∧ x.id = id ∧ o.receiverGone = false ∧
        o.capacity ≤ o.queue.length ∧ now < x.deadline.getD (now + o.patience) ∧
        o' = { o with
          line := { x with deadline := some (x.deadline.getD (now + o.patience)) } :: rest } := by
  have hattempt {x : Turn} {rest : List Turn} {deadline : Nat}
      (h : o.attempt now x deadline rest = (o', none)) :
      o.receiverGone = false ∧ o.capacity ≤ o.queue.length ∧ now < deadline ∧
        o' = { o with line := { x with deadline := some deadline } :: rest } := by
    unfold attempt at h
    split at h
    · cases h
    · next hreceiver =>
      split at h
      · cases h
      · next hfull =>
        split at h
        · cases h
        · next hdeadline =>
          cases h
          exact ⟨Bool.eq_false_iff.mpr hreceiver, Nat.not_lt.mp hfull,
            Nat.not_le.mp hdeadline, rfl⟩
  unfold resume at hresume
  split at hresume
  · next hline =>
    cases hresume
    exact .inl ⟨rfl, by simp [hline]⟩
  · next x rest hline =>
    split at hresume
    · next hid =>
      cases hresume
      refine .inl ⟨rfl, fun y rest' hline' => ?_⟩
      rw [hline, List.cons.injEq] at hline'
      exact hline'.1 ▸ hid
    · next hid =>
      refine .inr ⟨x, rest, hline, Decidable.not_not.mp hid, ?_⟩
      split at hresume
      · next hdeadline => simpa [hdeadline] using hattempt hresume
      · next hdeadline =>
        split at hresume
        · cases hresume
        · simpa [hdeadline] using hattempt hresume

theorem Resumed.nextTurn_eq {o o' : Outbox} {id : Nat} {r : Option (Except Error Unit)}
    (hresumed : Resumed o id o' r) : o'.nextTurn = o.nextTurn := by
  cases hresumed <;> rfl

theorem Resumed.not_cancelled {o o' : Outbox} {id : Nat} {e : Error}
    (hresumed : Resumed o id o' (some (.error e))) : e.isCancelled = false := by
  cases hresumed with
  | failed t rest hline hid e herror => rcases herror with ⟨rfl, _⟩ | rfl | ⟨rfl, _⟩ <;> rfl

/-- The first in line gets on as soon as there is room. -/
theorem resume_first {o : Outbox} (now : Nat) {t : Turn} {rest : List Turn}
    (hline : o.line = t :: rest) (hsender : o.senderGone = false)
    (hreceiver : o.receiverGone = false) (hroom : o.queue.length < o.capacity) :
    o.resume now t.id =
      ({ o with line := rest, queue := o.queue ++ [t.frame] }, some (.ok ())) := by
  unfold resume
  rw [hline]
  simp only [ne_eq, not_true_eq_false, if_false]
  split <;> simp [attempt, hsender, hreceiver, hroom]

theorem resume_first_closed {o : Outbox} (now : Nat) {t : Turn} {rest : List Turn}
    (hline : o.line = t :: rest) (hsender : o.senderGone = false)
    (hreceiver : o.receiverGone = true) :
    o.resume now t.id = ({ o with line := rest }, some (.error closedError)) := by
  unfold resume
  rw [hline]
  simp only [ne_eq, not_true_eq_false, if_false]
  split <;> simp [attempt, hsender, hreceiver]

theorem resume_first_full {o : Outbox} (now : Nat) {t : Turn} {rest : List Turn}
    (hline : o.line = t :: rest) (hdeadline : t.deadline = none) (hsender : o.senderGone = false)
    (hreceiver : o.receiverGone = false) (hfull : o.capacity ≤ o.queue.length)
    (hpatience : 0 < o.patience) :
    o.resume now t.id =
      ({ o with line := { t with deadline := some (now + o.patience) } :: rest }, none) := by
  have hlater : ¬ now + o.patience ≤ now := by omega
  unfold resume
  rw [hline]
  simp only [ne_eq, not_true_eq_false, if_false, hdeadline, hsender, Bool.false_eq_true, attempt,
    hreceiver, Nat.not_lt.mpr hfull, hlater]

theorem start_of_not_disposed {o : Outbox} (hdisposed : o.disposed = false) (now : Nat)
    (frame : String) : o.start now frame = (o.enter frame).resume now o.nextTurn := by
  simp [start, hdisposed]

theorem start_of_disposed {o : Outbox} (hdisposed : o.disposed = true) (now : Nat)
    (frame : String) : o.start now frame = (o, some (.error disposedError)) := by
  simp [start, hdisposed]

end EventHub.Outbox
