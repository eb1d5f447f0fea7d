import EventHub.Connection.Basic
import EventHub.Proofs.Connection.Outbox
/-!
# Writes among others

What one step of a send does to its connection, whatever else is written to it, and what stays true
of a connection while others use it: the turn of a write stands for its own frame until it has left
the line, and a dead connection stays dead.
-/

namespace EventHub

/-! ## Outboxes -/

namespace Outbox

def Orderly (o : Outbox) : Prop := ∀ t ∈ o.turns, t.1 < o.nextTurn

/-- A turn that has been given out stands for the frame, if it is still in line. -/
def Expects (o : Outbox) (id : Nat) (frame : String) : Prop :=
  id < o.nextTurn ∧ ∀ t ∈ o.turns, t.1 = id → t.2 = frame

/-- What an outbox may become: turns leave the line, and new ones join it. -/
structure Later (o o' : Outbox) : Prop where
  nextTurn_le : o.nextTurn ≤ o'.nextTurn
  turns : ∀ t ∈ o'.turns, t ∈ o.turns ∨ o.nextTurn ≤ t.1

theorem Later.refl (o : Outbox) : Later o o := ⟨Nat.le_refl _, fun _ => Or.inl⟩

theorem Later.trans {o o' o'' : Outbox} (h : Later o o') (h' : Later o' o'') : Later o o'' := by
  refine ⟨Nat.le_trans h.nextTurn_le h'.nextTurn_le, fun t ht => ?_⟩
  rcases h'.turns t ht with ht | hle
  · exact h.turns t ht
  · exact Or.inr (Nat.le_trans h.nextTurn_le hle)

theorem Expects.later {o o' : Outbox} {id : Nat} {frame : String} (hexpects : o.Expects id frame)
    (hlater : Later o o') : o'.Expects id frame := by
  refine ⟨Nat.lt_of_lt_of_le hexpects.1 hlater.nextTurn_le, fun t ht hid => ?_⟩
  rcases hlater.turns t ht with ht | hle
  · exact hexpects.2 t ht hid
  · have := hexpects.1
    omega

theorem later_of_subset {o o' : Outbox} (hnext : o'.nextTurn = o.nextTurn)
    (hturns : o'.turns ⊆ o.turns) : Later o o' :=
  ⟨Nat.le_of_eq hnext.symm, fun _ ht => Or.inl (hturns ht)⟩

theorem Orderly.of_subset {o o' : Outbox} (horderly : o.Orderly) (hnext : o'.nextTurn = o.nextTurn)
    (hturns : o'.turns ⊆ o.turns) : o'.Orderly :=
  fun t ht => hnext ▸ horderly t (hturns ht)

theorem turns_enter (o : Outbox) (frame : String) :
    (o.enter frame).turns = o.turns ++ [(o.nextTurn, frame)] := by
  simp [turns, enter]

theorem later_enter (o : Outbox) (frame : String) : Later o (o.enter frame) := by
  refine ⟨Nat.le_succ _, fun t ht => ?_⟩
  rw [turns_enter, List.mem_append, List.mem_singleton] at ht
  exact ht.imp_right fun h => Nat.le_of_eq (by rw [h])

theorem Orderly.enter {o : Outbox} (horderly : o.Orderly) (frame : String) :
    (o.enter frame).Orderly := by
  intro t ht
  rw [turns_enter, List.mem_append, List.mem_singleton] at ht
  rcases ht with ht | rfl
  · exact Nat.lt_succ_of_lt (horderly t ht)
  · exact Nat.lt_succ_self _

theorem Orderly.expects_enter {o : Outbox} (horderly : o.Orderly) (frame : String) :
    (o.enter frame).Expects o.nextTurn frame := by
  refine ⟨Nat.lt_succ_self _, fun t ht hid => ?_⟩
  rw [turns_enter, List.mem_append, List.mem_singleton] at ht
  rcases ht with ht | rfl
  · exact absurd hid (Nat.ne_of_lt (horderly t ht))
  · rfl

theorem Resumed.turns_subset {o o' : Outbox} {id : Nat} {r : Option (Except Error Unit)}
    (hresumed : Resumed o id o' r) : o'.turns ⊆ o.turns := by
  cases hresumed with
  | waits line hturns => exact hturns ▸ List.Subset.refl _
  | accepted t rest hline hid hroom =>
    rw [turns_cons hline]
    exact List.subset_cons_self _ _
  | failed t rest hline hid e herror =>
    rw [turns_cons hline]
    exact List.subset_cons_self _ _

end Outbox

/-! ## Writers -/

def Wrote (before after : List String) (frame : String) : Except Error Unit → Prop
  | .ok () => after = before ++ [frame]
  | .error e => after = before ∧ e.isCancelled = false

namespace Writer

/-- The frames that have been accepted and not been taken, in order. -/
def held : Writer → List String
  | .outbox o => o.queue
  | .recorder r => r.frames

/-- The turns of an outbox are in order, and a recorder does not fail as if cancelled. -/
def Sound : Writer → Prop
  | .outbox o => o.Orderly
  | .recorder r => ∀ e, r.failure = some e → e.isCancelled = false

def Expects (w : Writer) (frame : String) (s : Writing) : Prop :=
  match w, s with
  | .outbox o, .turn id => o.Expects id frame
  | _, _ => True

def Later : Writer → Writer → Prop
  | .outbox o, .outbox o' => o.Later o'
  | .recorder _, .recorder _ => True
  | _, _ => False

theorem Later.refl (w : Writer) : Later w w := by
  cases w with
  | outbox o => exact Outbox.Later.refl o
  | recorder r => trivial

theorem Later.trans {w w' w'' : Writer} (h : Later w w') (h' : Later w' w'') : Later w w'' := by
  cases w <;> cases w' <;> cases w'' <;> simp only [Later] at h h' ⊢
  exact h.trans h'

theorem Expects.later {w w' : Writer} {frame : String} {s : Writing}
    (hexpects : w.Expects frame s) (hlater : Later w w') : w'.Expects frame s := by
  cases w <;> cases w' <;> cases s <;> simp only [Later, Expects] at hexpects hlater ⊢
  exact hexpects.later hlater

theorem resume_outbox {o : Outbox} (horderly : o.Orderly) (now : Nat) {id : Nat} {frame : String}
    (hexpects : o.Expects id frame) :
    (o.resume now id).1.Orderly ∧ o.Later (o.resume now id).1 ∧
      match (o.resume now id).2 with
      | none => (o.resume now id).1.queue = o.queue
      | some r => Wrote o.queue (o.resume now id).1.queue frame r := by
  have hresumed := Outbox.resume_resumed o now id
  generalize o.resume now id = p at hresumed
  obtain ⟨o', r⟩ := p
  refine ⟨horderly.of_subset hresumed.nextTurn_eq hresumed.turns_subset,
    Outbox.later_of_subset hresumed.nextTurn_eq hresumed.turns_subset, ?_⟩
  cases hresumed with
  | waits line hturns => rfl
  | accepted t rest hline hid hroom =>
    have hframe := hexpects.2 (t.id, t.frame) (by simp [Outbox.turns, hline]) hid
    simp only [Wrote, ← hframe]
  | failed t rest hline hid e herror =>
    refine ⟨rfl, ?_⟩
    obtain ⟨rfl, _⟩ | rfl | ⟨rfl, _⟩ := herror <;> rfl

theorem finish_recorder {r : Recorder}
    (hsound : ∀ e, r.failure = some e → e.isCancelled = false) (frame : String) :
    (∀ e, (r.finish frame).1.failure = some e → e.isCancelled = false) ∧
      Wrote r.frames (r.finish frame).1.frames frame (r.finish frame).2 := by
  unfold Recorder.finish
  split
  · next e he => exact ⟨hsound, rfl, hsound e he⟩
  · exact ⟨hsound, rfl⟩

theorem resume_spec {w : Writer} (hsound : w.Sound) (now : Nat) {frame : String} {s : Writing}
    (hexpects : w.Expects frame s) :
    (w.resume now frame s).1.Sound ∧ w.Later (w.resume now frame s).1 ∧
      match (w.resume now frame s).2 with
      | none => (w.resume now frame s).1.held = w.held
      | some r => Wrote w.held (w.resume now frame s).1.held frame r := by
  cases w with
  | outbox o =>
    cases s with
    | turn id => exact resume_outbox hsound now hexpects
    | «until» time => exact ⟨hsound, Later.refl _, rfl⟩
  | recorder r =>
    cases s with
    | turn id => exact ⟨hsound, trivial, rfl⟩
    | «until» time =>
      have hfinish := finish_recorder hsound frame
      simp only [resume]
      split
      · exact ⟨hfinish.1, trivial, hfinish.2⟩
      · exact ⟨hsound, trivial, rfl⟩

theorem start_spec {w : Writer} (hsound : w.Sound) (now : Nat) (frame : String) :
    (w.start now frame).1.Sound ∧ w.Later (w.start now frame).1 ∧
      match (w.start now frame).2 with
      | .inl s => (w.start now frame).1.held = w.held ∧ (w.start now frame).1.Expects frame s
      | .inr r => Wrote w.held (w.start now frame).1.held frame r := by
  cases w with
  | outbox o =>
    cases hdisposed : o.disposed with
    | true =>
      simp only [start, Outbox.start_of_disposed hdisposed]
      exact ⟨hsound, Later.refl _, rfl, rfl⟩
    | false =>
      have hexpects := Outbox.Orderly.expects_enter hsound frame
      obtain ⟨horderly, hlater, hresult⟩ :=
        resume_outbox (Outbox.Orderly.enter hsound frame) now hexpects
      have hlater' := (Outbox.later_enter o frame).trans hlater
      have hexpects' := hexpects.later hlater
      simp only [start, Outbox.start_of_not_disposed hdisposed]
      generalize (o.enter frame).resume now o.nextTurn = p at *
      obtain ⟨o', _ | r⟩ := p
      · exact ⟨horderly, hlater', hresult, hexpects'⟩
      · exact ⟨horderly, hlater', hresult⟩
  | recorder r =>
    have hfinish := finish_recorder hsound frame
    simp only [start]
    split
    · exact ⟨hfinish.1, trivial, hfinish.2⟩
    · exact ⟨hsound, trivial, rfl, trivial⟩

theorem held_dispose (w : Writer) : w.dispose.held = w.held := by
  cases w <;> rfl

theorem later_dispose (w : Writer) : w.Later w.dispose := by
  cases w with
  | outbox o => exact Outbox.later_of_subset rfl (List.Subset.refl _)
  | recorder r => trivial

theorem Sound.dispose {w : Writer} (hsound : w.Sound) : w.dispose.Sound := by
  cases w with
  | outbox o => exact hsound
  | recorder r =>
    intro e he
    cases he
    rfl

end Writer

/-! ## Connections -/

namespace Connection

def held (x : Connection) : List String := x.writer.held

def Expects (x : Connection) (frame : String) : Sending → Prop
  | .fresh => True
  | .writing w => x.writer.Expects frame w

/-- What a connection may become: it keeps its names, and once dead it stays dead. -/
structure Later (x x' : Connection) : Prop where
  id_eq : x'.id = x.id
  client_eq : x'.client = x.client
  live : x'.live = true → x.live = true
  writer : x.writer.Later x'.writer

theorem Later.refl (x : Connection) : Later x x := ⟨rfl, rfl, fun h => h, Writer.Later.refl _⟩

theorem Later.trans {x x' x'' : Connection} (h : Later x x') (h' : Later x' x'') :
    Later x x'' :=
  ⟨h'.id_eq.trans h.id_eq, h'.client_eq.trans h.client_eq, h.live ∘ h'.live,
    h.writer.trans h'.writer⟩

theorem Expects.later {x x' : Connection} {frame : String} {s : Sending}
    (hexpects : x.Expects frame s) (hlater : Later x x') : x'.Expects frame s := by
  cases s with
  | fresh => trivial
  | writing w => exact Writer.Expects.later hexpects hlater.writer

theorem later_dispose (x : Connection) : Later x { x with writer := x.writer.dispose } :=
  ⟨rfl, rfl, fun h => h, Writer.later_dispose _⟩

theorem later_close (x : Connection) : Later x x.close :=
  ⟨rfl, rfl, nofun, Writer.later_dispose _⟩

theorem later_markDead (x : Connection) : Later x x.markDead :=
  ⟨rfl, rfl, nofun, Writer.Later.refl _⟩

def Sent (x x' : Connection) (frame : String) : Progress Sending (Except Error Unit) → Prop
  | .blocked => x'.held = x.held
  | .moved s => x'.held = x.held ∧ x'.Expects frame s
  | .done (.ok ()) => x'.held = x.held ++ [frame]
  | .done (.error _) => x'.held = x.held ∧ x'.live = false

theorem finish_spec {x : Connection} {w : Writer} {frame : String} {r : Except Error Unit}
    (hsound : w.Sound) (hlater : x.writer.Later w) (hwrote : Wrote x.held w.held frame r) :
    ({ x with writer := w }.finish r).writer.Sound ∧ Later x ({ x with writer := w }.finish r) ∧
      Sent x ({ x with writer := w }.finish r) frame (.done r) := by
  cases r with
  | ok u => exact ⟨hsound, ⟨rfl, rfl, fun h => h, hlater⟩, hwrote⟩
  | error e =>
    obtain ⟨hheld, hcancelled⟩ := hwrote
    rw [finish, hcancelled]
    refine ⟨hsound.dispose,
      ⟨rfl, rfl, nofun, hlater.trans (Writer.later_dispose w)⟩, ?_, rfl⟩
    exact (Writer.held_dispose w).trans hheld

theorem stepSend_spec {x : Connection} (hsound : x.writer.Sound) (now : Nat) {frame : String}
    {s : Sending} (hexpects : x.Expects frame s) :
    (x.stepSend now false frame s).1.writer.Sound ∧ Later x (x.stepSend now false frame s).1 ∧
      Sent x (x.stepSend now false frame s).1 frame (x.stepSend now false frame s).2 := by
  cases s with
  | fresh =>
    cases hlive : x.live with
    | false =>
      simp only [stepSend, hlive]
      exact ⟨hsound, Later.refl x, rfl, hlive⟩
    | true =>
      obtain ⟨hsound', hlater, hresult⟩ := Writer.start_spec hsound now frame
      rw [stepSend, if_neg (by simp [hlive]), if_neg Bool.false_ne_true]
      generalize x.writer.start now frame = p at hsound' hlater hresult
      obtain ⟨w, s | r⟩ := p
      · exact ⟨hsound', ⟨rfl, rfl, fun _ => hlive, hlater⟩, hresult⟩
      · exact finish_spec hsound' hlater hresult
  | writing s =>
    obtain ⟨hsound', hlater, hresult⟩ := Writer.resume_spec hsound now hexpects
    simp only [stepSend]
    generalize x.writer.resume now frame s = p at hsound' hlater hresult
    obtain ⟨w, _ | r⟩ := p
    · exact ⟨hsound', ⟨rfl, rfl, fun h => h, hlater⟩, hresult⟩
    · exact finish_spec hsound' hlater hresult

/-! ## What happens to a connection from outside -/

/-- The stream takes a frame or goes away, the writer is disposed, the connection is closed or
marked dead, or a recorder is told to fail. -/
inductive Outside (x : Connection) : Connection → Prop where
  | receive (o : Outbox) (hwriter : x.writer = .outbox o) :
      Outside x { x with writer := .outbox o.receive.1 }
  | dropReceiver (o : Outbox) (hwriter : x.writer = .outbox o) :
      Outside x { x with writer := .outbox o.dropReceiver }
  | dispose : Outside x { x with writer := x.writer.dispose }
  | close : Outside x x.close
  | markDead : Outside x x.markDead
  | fail (r : Recorder) (hwriter : x.writer = .recorder r) (e : Error)
      (herror : e.isCancelled = false) :
      Outside x { x with writer := .recorder { r with failure := some e } }

theorem Outside.spec {x x' : Connection} (houtside : Outside x x') (hsound : x.writer.Sound) :
    x'.writer.Sound ∧ Later x x' := by
  cases houtside with
  | receive o hwriter =>
    rw [hwriter] at hsound
    have hsame : o.receive.1.turns = o.turns ∧ o.receive.1.nextTurn = o.nextTurn := by
      unfold Outbox.receive
      split <;> exact ⟨rfl, rfl⟩
    have hturns : o.receive.1.turns ⊆ o.turns := hsame.1 ▸ List.Subset.refl _
    refine ⟨Outbox.Orderly.of_subset hsound hsame.2 hturns, rfl, rfl,
      fun h => h, ?_⟩
    rw [hwriter]
    exact Outbox.later_of_subset hsame.2 hturns
  | dropReceiver o hwriter =>
    rw [hwriter] at hsound
    refine ⟨hsound, rfl, rfl, fun h => h, ?_⟩
    rw [hwriter]
    exact Outbox.later_of_subset rfl (List.Subset.refl _)
  | dispose => exact ⟨hsound.dispose, later_dispose x⟩
  | close => exact ⟨hsound.dispose, later_close x⟩
  | markDead => exact ⟨hsound, later_markDead x⟩
  | fail r hwriter e herror =>
    refine ⟨?_, rfl, rfl, fun h => h, ?_⟩
    · intro e' he'
      cases he'
      exact herror
    · rw [hwriter]
      trivial

end Connection

end EventHub
