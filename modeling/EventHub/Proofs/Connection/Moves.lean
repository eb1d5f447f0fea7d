import EventHub.Proofs.Connection.Traffic
/-!
# What writes are made of

Whatever a write does to an outbox, from its beginning to its end, and whatever comes of its end,
is one of four things: a write joins the line, the first in line gets on, a write leaves the line,
and the outbox is disposed.
-/

namespace EventHub

namespace Outbox

inductive Move (now : Nat) : Outbox → Outbox → Prop where
  | enter (o : Outbox) (frame : String) (hopen : o.disposed = false) : Move now o (o.enter frame)
  | resume (o : Outbox) (id : Nat) : Move now o (o.resume now id).1
  | abandon (o : Outbox) (id : Nat) : Move now o (o.abandon id)
  | dispose (o : Outbox) : Move now o o.dispose

def Moves (now : Nat) : Outbox → Outbox → Prop := Relation.ReflTransGen (Move now)

theorem moves_start (o : Outbox) (now : Nat) (frame : String) :
    Moves now o (o.start now frame).1 := by
  cases hdisposed : o.disposed with
  | true =>
    rw [start_of_disposed hdisposed]
    exact .refl
  | false =>
    rw [start_of_not_disposed hdisposed]
    exact .tail (.single (.enter o frame hdisposed)) (.resume (o.enter frame) o.nextTurn)

end Outbox

namespace Writer

def Moves (now : Nat) : Writer → Writer → Prop
  | .outbox o, .outbox o' => o.Moves now o'
  | .recorder _, .recorder _ => True
  | _, _ => False

variable {now : Nat} (w : Writer)

theorem Moves.refl (now : Nat) : Moves now w w := by
  cases w with
  | outbox o => exact .refl
  | recorder r => trivial

theorem Moves.trans {w w' w'' : Writer} (h : Moves now w w') (h' : Moves now w' w'') :
    Moves now w w'' := by
  cases w <;> cases w' <;> cases w'' <;> simp only [Moves] at h h' ⊢
  exact Relation.ReflTransGen.trans h h'

theorem moves_start (now : Nat) (frame : String) : Moves now w (w.start now frame).1 := by
  cases w with
  | outbox o =>
    have hstart := o.moves_start now frame
    simp only [start]
    generalize o.start now frame = p at hstart
    obtain ⟨o', _ | r⟩ := p <;> exact hstart
  | recorder r =>
    simp only [start]
    split <;> trivial

theorem moves_resume (now : Nat) (frame : String) (s : Writing) :
    Moves now w (w.resume now frame s).1 := by
  cases w with
  | outbox o =>
    cases s with
    | turn id => exact .single (.resume o id)
    | «until» time => exact Moves.refl _ now
  | recorder r =>
    cases s with
    | turn id => trivial
    | «until» time =>
      simp only [resume]
      split <;> trivial

theorem moves_abandon (now : Nat) (s : Writing) : Moves now w (w.abandon s) := by
  cases w with
  | outbox o =>
    cases s with
    | turn id => exact .single (.abandon o id)
    | «until» time => exact Moves.refl _ now
  | recorder r => trivial

theorem moves_dispose (now : Nat) : Moves now w w.dispose := by
  cases w with
  | outbox o => exact .single (.dispose o)
  | recorder r => trivial

end Writer

namespace Connection

variable (x : Connection) (now : Nat)

variable {x now} in
theorem moves_finish {w : Writer} (hmoves : x.writer.Moves now w) (r : Except Error Unit) :
    x.writer.Moves now ({ x with writer := w }.finish r).writer := by
  unfold finish
  split
  · exact hmoves
  · split
    · exact hmoves
    · exact hmoves.trans (w.moves_dispose now)

theorem moves_abandon (s : Sending) : x.writer.Moves now (x.abandon s).writer := by
  cases s with
  | fresh => exact .refl _ now
  | writing w => exact x.writer.moves_abandon now w

theorem moves_stepSend (cancelled : Bool) (frame : String) (s : Sending) :
    x.writer.Moves now (x.stepSend now cancelled frame s).1.writer := by
  cases s with
  | fresh =>
    have hstart := x.writer.moves_start now frame
    rw [stepSend]
    split
    · exact .refl _ now
    · split
      · exact .refl _ now
      · generalize x.writer.start now frame = p at hstart
        obtain ⟨w, s | r⟩ := p
        · exact hstart
        · exact moves_finish hstart r
  | writing s =>
    have hresume := x.writer.moves_resume now frame s
    rw [stepSend]
    split
    · exact x.moves_abandon now (.writing s)
    · generalize x.writer.resume now frame s = p at hresume
      obtain ⟨w, _ | r⟩ := p
      · exact hresume
      · exact moves_finish hresume r

theorem moves_stepWrite (frame : String) (w : Option Writing) :
    x.writer.Moves now (x.stepWrite now frame w).1.writer := by
  cases w with
  | none =>
    have hstart := x.writer.moves_start now frame
    rw [stepWrite]
    generalize x.writer.start now frame = p at hstart
    obtain ⟨w, s | r⟩ := p <;> exact hstart
  | some s =>
    have hresume := x.writer.moves_resume now frame s
    rw [stepWrite]
    generalize x.writer.resume now frame s = p at hresume
    obtain ⟨w, _ | r⟩ := p <;> exact hresume

theorem Call.moves_poll (cancelled : Bool) (c : Call) :
    x.writer.Moves now (c.poll x now cancelled).1.writer := by
  unfold Call.poll
  split
  · next s _ =>
    have hsend := x.moves_stepSend now cancelled c.frame s
    generalize x.stepSend now cancelled c.frame s = p at hsend
    obtain ⟨y, _ | _ | _⟩ := p <;> exact hsend
  · next w _ =>
    have hwrite := x.moves_stepWrite now c.frame w
    generalize x.stepWrite now c.frame w = p at hwrite
    obtain ⟨y, _ | _ | _⟩ := p <;> exact hwrite
  · exact .refl _ now

theorem Call.moves_drop (c : Call) : x.writer.Moves now (c.drop x).1.writer := by
  unfold Call.drop
  split
  · next s _ => exact x.moves_abandon now s
  · next w _ => exact x.writer.moves_abandon now w
  · exact .refl _ now
  · exact .refl _ now

end Connection

end EventHub
