import EventHub.Proofs.Connection.Writes
/-!
# Sends that have a connection to themselves

While nobody else writes to a connection, and its stream takes no frame, a send has one outcome: how
long it waits and how often it is polled make no difference to it. `sendAlone` is that outcome, and
depends on nothing but the connection and the frame.
-/

namespace EventHub

/-! ## Outboxes -/

namespace Outbox

variable {o : Outbox}

def writeAlone (o : Outbox) (frame : String) : Outbox × Except Error Unit :=
  if o.disposed then (o, .error disposedError)
  else
    let o := { o with nextTurn := o.nextTurn + 1 }
    if o.senderGone then (o, .error disposedError)
    else if o.receiverGone then (o, .error closedError)
    else if o.queue.length < o.capacity then ({ o with queue := o.queue ++ [frame] }, .ok ())
    else (o, .error timeoutError)

/-- The outbox takes frames, but has no room for one. -/
structure Stuck (o : Outbox) : Prop where
  disposed : o.disposed = false
  senderGone : o.senderGone = false
  receiverGone : o.receiverGone = false
  full : o.capacity ≤ o.queue.length

def awaiting (o : Outbox) (frame : String) (deadline : Nat) : Outbox :=
  { o with line := [⟨o.nextTurn, frame, some deadline⟩], nextTurn := o.nextTurn + 1 }

theorem Stuck.writeAlone_eq (hstuck : o.Stuck) (frame : String) :
    o.writeAlone frame = ({ o with nextTurn := o.nextTurn + 1 }, .error timeoutError) := by
  simp [writeAlone, hstuck.disposed, hstuck.senderGone, hstuck.receiverGone,
    Nat.not_lt.mpr hstuck.full]

theorem start_alone (hline : o.line = []) (now : Nat) (frame : String) :
    o.start now frame = ((o.writeAlone frame).1, some (o.writeAlone frame).2) ∨
      o.Stuck ∧ o.start now frame = (o.awaiting frame (now + o.patience), none) := by
  have hsame : { o with line := ([] : List Turn) } = o := by rw [← hline]
  cases hdisposed : o.disposed with
  | true => exact Or.inl (by simp [start, writeAlone, hdisposed])
  | false =>
    have hstart : o.start now frame = if o.senderGone then
        ({ o with line := [], nextTurn := o.nextTurn + 1 }, some (.error disposedError))
        else (o.enter frame).attempt now ⟨o.nextTurn, frame, none⟩ (now + o.patience) [] := by
      simp [start, hdisposed, resume, enter, hline]
    cases hsender : o.senderGone with
    | true =>
      left
      rw [hstart, if_pos hsender]
      simp [writeAlone, hdisposed, hsender, hline]
    | false =>
      rw [hstart, if_neg (by simp [hsender])]
      cases hreceiver : o.receiverGone with
      | true =>
        left
        simp [attempt, enter, writeAlone, hdisposed, hsender, hreceiver, hline]
      | false =>
        by_cases hroom : o.queue.length < o.capacity
        · left
          simp [attempt, enter, writeAlone, hdisposed, hsender, hreceiver, hroom, hline]
        · have hstuck : o.Stuck := ⟨hdisposed, hsender, hreceiver, Nat.not_lt.mp hroom⟩
          by_cases hpatience : now + o.patience ≤ now
          · left
            rw [hstuck.writeAlone_eq]
            simp only [attempt, enter, hreceiver, hroom, hpatience, if_true, if_false,
              Bool.false_eq_true, hline]
          · right
            refine ⟨hstuck, ?_⟩
            simp only [attempt, enter, hreceiver, hroom, hpatience, if_false, Bool.false_eq_true,
              awaiting]

theorem Stuck.resume_awaiting (hstuck : o.Stuck) (hline : o.line = []) (frame : String)
    (deadline now : Nat) : (o.awaiting frame deadline).resume now o.nextTurn =
      if deadline ≤ now then ((o.writeAlone frame).1, some (o.writeAlone frame).2)
      else (o.awaiting frame deadline, none) := by
  rw [hstuck.writeAlone_eq]
  simp only [resume, awaiting, attempt, hstuck.receiverGone, Nat.not_lt.mpr hstuck.full, ne_eq,
    not_true_eq_false, if_false, Bool.false_eq_true, hline]

end Outbox

/-! ## Writers -/

namespace Writer

variable {w w' : Writer} {frame : String}

def writeAlone (w : Writer) (frame : String) : Writer × Except Error Unit :=
  match w with
  | .outbox o => (.outbox (o.writeAlone frame).1, (o.writeAlone frame).2)
  | .recorder r => (.recorder (r.finish frame).1, (r.finish frame).2)

/-- Nothing is being written, and a recorder does not fail as if cancelled. -/
def Idle : Writer → Prop
  | .outbox o => o.line = []
  | .recorder r => ∀ e, r.failure = some e → e.isCancelled = false

/-- Writing the frame has taken a writer to another one, where the write stands until a time. -/
inductive Underway (frame : String) : Writer → Writer → Writing → Nat → Prop where
  | outbox (o : Outbox) (hline : o.line = []) (hstuck : o.Stuck) (deadline : Nat) :
      Underway frame (.outbox o) (.outbox (o.awaiting frame deadline)) (.turn o.nextTurn) deadline
  | recorder (r : Recorder) (time : Nat) :
      Underway frame (.recorder r) (.recorder r) (.until time) time

theorem start_alone (hidle : w.Idle) (now : Nat) (frame : String) :
    w.start now frame = ((w.writeAlone frame).1, .inr (w.writeAlone frame).2) ∨
      ∃ w' s time, w.start now frame = (w', .inl s) ∧ Underway frame w w' s time := by
  cases w with
  | outbox o =>
    rcases Outbox.start_alone hidle now frame with hstart | ⟨hstuck, hstart⟩
    · exact Or.inl (by simp only [start, hstart, writeAlone])
    · exact Or.inr ⟨_, _, now + o.patience, by simp only [start, hstart],
        .outbox o hidle hstuck _⟩
  | recorder r =>
    by_cases hdelay : r.delay = 0
    · exact Or.inl (by simp only [start, hdelay, if_true, writeAlone])
    · exact Or.inr ⟨_, _, now + r.delay, by simp only [start, hdelay, if_false], .recorder r _⟩

theorem Underway.resume {s : Writing} {time : Nat} (hunderway : Underway frame w w' s time)
    (now : Nat) : w'.resume now frame s =
      if time ≤ now then ((w.writeAlone frame).1, some (w.writeAlone frame).2)
      else (w', none) := by
  cases hunderway with
  | outbox o hline hstuck =>
    simp only [Writer.resume, hstuck.resume_awaiting hline, writeAlone]
    split <;> rfl
  | recorder r =>
    simp only [Writer.resume, writeAlone]

theorem writeAlone_wrote (hidle : w.Idle) (frame : String) :
    Wrote w.held (w.writeAlone frame).1.held frame (w.writeAlone frame).2 := by
  cases w with
  | outbox o =>
    simp only [writeAlone, Outbox.writeAlone]
    split
    · exact ⟨rfl, rfl⟩
    · split
      · exact ⟨rfl, rfl⟩
      · split
        · exact ⟨rfl, rfl⟩
        · split
          · rfl
          · exact ⟨rfl, rfl⟩
  | recorder r => exact (finish_recorder hidle frame).2

end Writer

/-! ## Connections -/

namespace Connection

variable {x y : Connection} {frame : String}

/-- What a send on a live connection comes to that has the connection to itself. -/
def sendAlone (x : Connection) (frame : String) : Connection × Except Error Unit :=
  ({ x with writer := (x.writer.writeAlone frame).1 }.finish (x.writer.writeAlone frame).2,
    (x.writer.writeAlone frame).2)

def Written (x x' : Connection) (frame : String) : Except Error Unit → Prop
  | .ok () => x'.held = x.held ++ [frame] ∧ ∃ w, x' = { x with writer := w }
  | .error e => x'.held = x.held ∧ e.isCancelled = false ∧
    ∃ w, x' = { x with writer := w }.close

theorem sendAlone_written (hidle : x.writer.Idle) (frame : String) :
    x.Written (x.sendAlone frame).1 frame (x.sendAlone frame).2 := by
  have hwrote := Writer.writeAlone_wrote hidle frame
  unfold sendAlone
  generalize x.writer.writeAlone frame = p at hwrote
  obtain ⟨w, ⟨e⟩ | _⟩ := p
  · obtain ⟨hheld, hcancelled⟩ := hwrote
    refine ⟨?_, hcancelled, w, by simp [finish, hcancelled]⟩
    simpa [finish, hcancelled, close, held, Writer.held_dispose] using hheld
  · exact ⟨hwrote, w, rfl⟩

theorem sendAlone_id (x : Connection) (frame : String) : (x.sendAlone frame).1.id = x.id := by
  unfold sendAlone finish
  split
  · rfl
  · split <;> rfl

/-- Sending the frame has taken a connection to another one, where the send stands until a time. -/
inductive Sends (x : Connection) (frame : String) : Connection → Sending → Nat → Prop where
  | fresh : Sends x frame x .fresh 0
  | writing {w : Writer} {s : Writing} {time : Nat}
      (hunderway : Writer.Underway frame x.writer w s time) :
      Sends x frame { x with writer := w } (.writing s) time

inductive SendsOn (x : Connection) (frame : String) (now : Nat) (y : Connection) (s : Sending)
    (time : Nat) : Connection × Progress Sending (Except Error Unit) → Prop where
  | blocked (hfresh : s ≠ .fresh) (htime : now < time) :
      SendsOn x frame now y s time (y, .blocked)
  | moved {y' : Connection} {s' : Sending} {time' : Nat} (hsends : Sends x frame y' s' time')
      (hfresh : s = .fresh) (hfresh' : s' ≠ .fresh) :
      SendsOn x frame now y s time (y', .moved s')
  | done : SendsOn x frame now y s time ((x.sendAlone frame).1, .done (x.sendAlone frame).2)

theorem stepSend_alone (hlive : x.live = true) (hidle : x.writer.Idle) {s : Sending} {time : Nat}
    (hsends : Sends x frame y s time) (now : Nat) :
    SendsOn x frame now y s time (y.stepSend now false frame s) := by
  cases hsends with
  | fresh =>
    rw [stepSend, if_neg (by simp [hlive]), if_neg Bool.false_ne_true]
    rcases Writer.start_alone hidle now frame with hstart | ⟨w, s, time, hstart, hunderway⟩
    · rw [hstart]
      exact .done
    · rw [hstart]
      exact .moved (.writing hunderway) rfl (by simp)
  | writing hunderway =>
    simp only [stepSend, Bool.false_eq_true, if_false, hunderway.resume now]
    split
    · next p hp =>
      split at hp
      · cases hp
      · next htime =>
        cases hp
        exact .blocked (by simp) (Nat.not_le.mp htime)
    · next p hp =>
      split at hp
      · cases hp
        exact .done
      · cases hp

end Connection

end EventHub
