import EventHub.Proofs.Connection.Outbox
import EventHub.Connection.Basic
/-!
# Connections on their way out

Once its stream is told to end, a connection stays so, and only the frames that were under way by
then can still come. A send never leaves a connection dead without telling its stream to end.
-/

namespace EventHub

/-! ## Outboxes -/

namespace Outbox

variable {o o' : Outbox}

/-- The frames that a stream may still get from an outbox that takes no new ones. -/
def backlog (o : Outbox) : Nat := o.queue.length + o.line.length

def Fades (o o' : Outbox) : Prop :=
  o.disposed = true → o'.disposed = true ∧ o'.backlog ≤ o.backlog

theorem Fades.refl (o : Outbox) : Fades o o := fun hdisposed => ⟨hdisposed, Nat.le_refl _⟩

theorem Fades.trans {o'' : Outbox} (h : Fades o o') (h' : Fades o' o'') : Fades o o'' := by
  intro hdisposed
  obtain ⟨hdisposed', hle⟩ := h hdisposed
  obtain ⟨hdisposed'', hle'⟩ := h' hdisposed'
  exact ⟨hdisposed'', Nat.le_trans hle' hle⟩

theorem Resumed.fades {id : Nat} {r : Option (Except Error Unit)} (hresumed : Resumed o id o' r) :
    Fades o o' := by
  cases hresumed with
  | waits line hturns =>
    have hlength : line.length = o.line.length := by simpa [turns] using congrArg List.length hturns
    exact fun hdisposed => ⟨hdisposed, by simp [backlog, hlength]⟩
  | accepted t rest hline hid hroom =>
    exact fun hdisposed => ⟨hdisposed, by simp [backlog, hline]; omega⟩
  | failed t rest hline hid e herror =>
    exact fun hdisposed => ⟨hdisposed, by simp [backlog, hline]⟩

theorem fades_resume (o : Outbox) (now id : Nat) : Fades o (o.resume now id).1 :=
  (resume_resumed o now id).fades

theorem fades_start (o : Outbox) (now : Nat) (frame : String) : Fades o (o.start now frame).1 := by
  intro hdisposed
  rw [start_of_disposed hdisposed]
  exact ⟨hdisposed, Nat.le_refl _⟩

theorem fades_abandon (o : Outbox) (id : Nat) : Fades o (o.abandon id) :=
  fun hdisposed => ⟨hdisposed, Nat.add_le_add_left (List.length_filter_le _ _) _⟩

theorem fades_dispose (o : Outbox) : Fades o o.dispose := fun _ => ⟨rfl, Nat.le_refl _⟩

theorem fades_dropReceiver (o : Outbox) : Fades o o.dropReceiver :=
  fun hdisposed => ⟨hdisposed, by simp [backlog, dropReceiver]⟩

theorem fades_receive (o : Outbox) : Fades o o.receive.1 := by
  intro hdisposed
  unfold receive
  split
  · next f rest hqueue => exact ⟨hdisposed, by simp [backlog, hqueue]⟩
  · exact ⟨hdisposed, Nat.le_refl _⟩

/-- A frame that a stream takes is one less to come. -/
theorem backlog_receive {text : String} (hframe : o.receive.2 = .frame text) :
    o.receive.1.backlog < o.backlog := by
  unfold receive at hframe ⊢
  split
  · next f rest hqueue => simp [backlog, hqueue]
  · next hqueue => cases hsender : o.senderGone <;> simp [hqueue, hsender] at hframe

end Outbox

/-! ## Writers -/

namespace Writer

variable {w w' : Writer}

def Fades : Writer → Writer → Prop
  | .outbox o, .outbox o' => o.Fades o'
  | .recorder _, .recorder _ => True
  | _, _ => False

theorem Fades.refl (w : Writer) : Fades w w := by
  cases w with
  | outbox o => exact Outbox.Fades.refl o
  | recorder r => trivial

theorem Fades.trans {w'' : Writer} (h : Fades w w') (h' : Fades w' w'') : Fades w w'' := by
  cases w <;> cases w' <;> cases w'' <;> simp only [Fades] at h h' ⊢
  exact h.trans h'

theorem fades_start (w : Writer) (now : Nat) (frame : String) :
    Fades w (w.start now frame).1 := by
  cases w with
  | outbox o =>
    have hstart := Outbox.fades_start o now frame
    simp only [start]
    generalize o.start now frame = p at hstart
    obtain ⟨o', _ | r⟩ := p <;> exact hstart
  | recorder r =>
    simp only [start]
    split <;> trivial

theorem fades_resume (w : Writer) (now : Nat) (frame : String) (s : Writing) :
    Fades w (w.resume now frame s).1 := by
  cases w with
  | outbox o =>
    cases s with
    | turn id => exact Outbox.fades_resume o now id
    | «until» time => exact Fades.refl _
  | recorder r =>
    cases s with
    | turn id => trivial
    | «until» time =>
      simp only [resume]
      split <;> trivial

theorem fades_abandon (w : Writer) (s : Writing) : Fades w (w.abandon s) := by
  cases w with
  | outbox o =>
    cases s with
    | turn id => exact Outbox.fades_abandon o id
    | «until» time => exact Fades.refl _
  | recorder r => trivial

theorem fades_dispose (w : Writer) : Fades w w.dispose := by
  cases w with
  | outbox o => exact Outbox.fades_dispose o
  | recorder r => trivial

end Writer

/-! ## Connections -/

namespace Connection

variable {x x' : Connection}

/-- The connection writes to the outbox of a stream, which is told to end once the connection is
dead. -/
def Streams (x : Connection) : Prop :=
  ∃ o, x.writer = .outbox o ∧ (x.live = false → o.disposed = true)

/-- What a send or the end of its stream makes of a connection. -/
structure Fades (x x' : Connection) : Prop where
  id_eq : x'.id = x.id
  client_eq : x'.client = x.client
  dead : x.live = false → x'.live = false
  streams : x.Streams → x'.Streams
  writer : x.writer.Fades x'.writer

theorem Fades.refl (x : Connection) : Fades x x :=
  ⟨rfl, rfl, fun h => h, fun h => h, Writer.Fades.refl _⟩

theorem Fades.trans {x'' : Connection} (h : Fades x x') (h' : Fades x' x'') : Fades x x'' :=
  ⟨h'.id_eq.trans h.id_eq, h'.client_eq.trans h.client_eq, h'.dead ∘ h.dead,
    h'.streams ∘ h.streams, h.writer.trans h'.writer⟩

theorem fades_writer {w : Writer} (hwriter : x.writer.Fades w) :
    Fades x { x with writer := w } := by
  refine ⟨rfl, rfl, fun h => h, ?_, hwriter⟩
  rintro ⟨o, ho, hdisposed⟩
  rw [ho] at hwriter
  cases w with
  | outbox o' => exact ⟨o', rfl, fun hdead => (hwriter (hdisposed hdead)).1⟩
  | recorder r => exact hwriter.elim

theorem fades_close (x : Connection) : Fades x x.close := by
  refine ⟨rfl, rfl, fun _ => rfl, ?_, Writer.fades_dispose _⟩
  rintro ⟨o, ho, _⟩
  exact ⟨o.dispose, by rw [close, ho]; rfl, fun _ => rfl⟩

theorem fades_finish (x : Connection) (r : Except Error Unit) : Fades x (x.finish r) := by
  unfold finish
  split
  · exact Fades.refl x
  · split
    · exact Fades.refl x
    · exact fades_close x

theorem fades_abandon (x : Connection) (s : Sending) : Fades x (x.abandon s) := by
  cases s with
  | fresh => exact Fades.refl x
  | writing w => exact fades_writer (Writer.fades_abandon _ w)

theorem fades_stepSend (x : Connection) (now : Nat) (cancelled : Bool) (frame : String)
    (s : Sending) : Fades x (x.stepSend now cancelled frame s).1 := by
  cases s with
  | fresh =>
    have hstart := fades_writer (Writer.fades_start x.writer now frame)
    rw [stepSend]
    split
    · exact Fades.refl x
    · split
      · exact Fades.refl x
      · generalize x.writer.start now frame = p at hstart
        obtain ⟨w, s | r⟩ := p
        · exact hstart
        · exact hstart.trans (fades_finish _ r)
  | writing s =>
    have hresume := fades_writer (Writer.fades_resume x.writer now frame s)
    rw [stepSend]
    split
    · exact fades_abandon x (.writing s)
    · generalize x.writer.resume now frame s = p at hresume
      obtain ⟨w, _ | r⟩ := p
      · exact hresume
      · exact hresume.trans (fades_finish _ r)

/-- A send that fails closes its connection, unless it was cancelled or the connection was dead when
it started. -/
theorem closed_of_stepSend {now : Nat} {cancelled : Bool} {frame : String} {s : Sending} {e : Error}
    (herror : (x.stepSend now cancelled frame s).2 = .done (.error e))
    (hcancelled : e.isCancelled = false) :
    (x.live = false ∧ e = notLiveError ∧ (x.stepSend now cancelled frame s).1 = x) ∨
      ∃ w, (x.stepSend now cancelled frame s).1 = { x with writer := w }.close := by
  have hfinish (y : Connection) : y.finish (.error e) = y.close := by
    simp [finish, hcancelled]
  cases s with
  | fresh =>
    rw [stepSend] at herror ⊢
    split at herror
    · next hlive =>
      cases herror
      rw [if_pos hlive]
      exact .inl ⟨by simpa using hlive, rfl, rfl⟩
    · next hlive =>
      rw [if_neg hlive]
      split at herror
      · cases herror
        cases hcancelled
      · next hnot =>
        rw [if_neg hnot]
        generalize x.writer.start now frame = p at herror
        obtain ⟨w, s | r⟩ := p
        · cases herror
        · cases herror
          exact .inr ⟨w, hfinish _⟩
  | writing s =>
    rw [stepSend] at herror ⊢
    split at herror
    · cases herror
      cases hcancelled
    · next hnot =>
      rw [if_neg hnot]
      generalize x.writer.resume now frame s = p at herror
      obtain ⟨w, _ | r⟩ := p
      · cases herror
      · cases herror
        exact .inr ⟨w, hfinish _⟩

/-- A send that fails leaves its connection dead, unless it was cancelled. -/
theorem dead_of_stepSend {now : Nat} {cancelled : Bool} {frame : String} {s : Sending} {e : Error}
    (herror : (x.stepSend now cancelled frame s).2 = .done (.error e))
    (hcancelled : e.isCancelled = false) : (x.stepSend now cancelled frame s).1.live = false := by
  rcases closed_of_stepSend herror hcancelled with ⟨hdead, _, hsame⟩ | ⟨w, hclosed⟩
  · rw [hsame, hdead]
  · rw [hclosed]
    rfl

end Connection

end EventHub
