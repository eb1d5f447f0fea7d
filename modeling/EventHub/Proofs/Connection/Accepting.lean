import EventHub.Proofs.Connection.Moves
import EventHub.Proofs.Connection.Ordering
/-!
# What writers do to a connection

Writers add frames behind those that have been accepted, and do no more to the stream than tell it
to end. A connection that has died, and an outbox that has been disposed, stay so.
-/

namespace EventHub

/-! ## Streams that go on -/

namespace Outbox

variable {now : Nat} {o o' : Outbox}

theorem receiverGone_resume (o : Outbox) (now id : Nat) :
    (o.resume now id).1.receiverGone = o.receiverGone := by
  have hresumed := resume_resumed o now id
  generalize o.resume now id = p at hresumed
  obtain ⟨o', r⟩ := p
  cases hresumed <;> rfl

theorem Moves.receiverGone_eq (hmoves : Moves now o o') : o'.receiverGone = o.receiverGone := by
  induction hmoves with
  | refl => rfl
  | tail _ hmove ih =>
    refine Eq.trans ?_ ih
    cases hmove with
    | resume id => exact receiverGone_resume _ now id
    | enter | abandon | dispose => rfl

end Outbox

namespace Writer

def receiverGone : Writer → Bool
  | .outbox o => o.receiverGone
  | .recorder _ => false

theorem Moves.receiverGone_eq {now : Nat} {w w' : Writer} (hmoves : w.Moves now w') :
    w'.receiverGone = w.receiverGone := by
  cases w <;> cases w' <;> simp only [Moves, receiverGone] at hmoves ⊢
  exact Outbox.Moves.receiverGone_eq hmoves

end Writer

namespace Connection

namespace Traffic

variable {t t' : Traffic} {capacity : Nat}

inductive Writes : Traffic → Traffic → Prop where
  | call (t : Traffic) (frame : String) (direct : Bool) :
      Writes t { t with calls := t.calls ++ [.fresh frame direct] }
  | poll (t : Traffic) (i : Nat) (c : Call) (hc : t.calls[i]? = some c) (cancelled : Bool) :
      Writes t (t.poll i cancelled c)
  | drop (t : Traffic) (i : Nat) (c : Call) (hc : t.calls[i]? = some c) : Writes t (t.drop i c)
  | dispose (t : Traffic) (closing : Bool) : Writes t (t.dispose closing)
  | markDead (t : Traffic) : Writes t { t with connection := t.connection.markDead }

theorem Writes.step (hwrites : Writes t t') : Step t t' := by
  cases hwrites with
  | call frame direct => exact .call t frame direct
  | poll i c hc cancelled => exact .poll t i c hc cancelled
  | drop i c hc => exact .drop t i c hc
  | dispose closing => exact .dispose t closing
  | markDead => exact .markDead t

theorem Writes.moves (hwrites : Writes t t') :
    t.connection.writer.Moves t.now t'.connection.writer := by
  cases hwrites with
  | call | markDead => exact Writer.Moves.refl _ t.now
  | poll i c hc cancelled => exact c.moves_poll t.connection t.now cancelled
  | drop i c hc => exact c.moves_drop t.connection t.now
  | dispose closing => cases closing <;> exact t.connection.writer.moves_dispose t.now

theorem Writes.receiverGone_eq (hwrites : Writes t t') :
    t'.connection.writer.receiverGone = t.connection.writer.receiverGone :=
  hwrites.moves.receiverGone_eq

theorem Writes.frame (hwrites : Writes t t') : t'.received = t.received ∧ t'.now = t.now := by
  cases hwrites <;> exact ⟨rfl, rfl⟩

/-! ## What lasts -/

/-- What an act leaves of a connection: its name, its death and its disposal. -/
structure Lasts (t t' : Traffic) : Prop where
  id_eq : t'.connection.id = t.connection.id
  dead : t.connection.live = false → t'.connection.live = false
  disposed : t.outbox.disposed = true → t'.outbox.disposed = true
  accepted : t.accepted <+: t'.accepted

theorem Lasts.refl (t : Traffic) : Lasts t t := ⟨rfl, fun h => h, fun h => h, List.prefix_rfl⟩

theorem Lasts.trans {t'' : Traffic} (hlasts : Lasts t t') (hlasts' : Lasts t' t'') : Lasts t t'' :=
  ⟨hlasts'.id_eq.trans hlasts.id_eq, hlasts'.dead ∘ hlasts.dead,
    hlasts'.disposed ∘ hlasts.disposed, hlasts.accepted.trans hlasts'.accepted⟩

/-- An act that disposes nothing anew and accepts nothing. -/
theorem lasts_of_same (hid : t'.connection.id = t.connection.id)
    (hlive : t'.connection.live = t.connection.live)
    (hdisposed : t'.outbox.disposed = t.outbox.disposed) (haccepted : t'.accepted = t.accepted) :
    Lasts t t' :=
  ⟨hid, fun hdead => hlive.trans hdead, fun h => hdisposed.trans h,
    haccepted ▸ List.prefix_rfl⟩

theorem Act.lasts (hact : Act t t') (horderly : t.Orderly capacity) : Lasts t t' := by
  cases hact with
  | call frame direct => exact lasts_of_same rfl rfl rfl (accepted_call horderly frame direct)
  | enter i c hc hfresh hopen => exact lasts_of_same rfl rfl rfl (accepted_enter hc hfresh)
  | refuse i c hc hfresh e _ =>
    exact lasts_of_same rfl rfl rfl
      (framesOf_fail hc (not_succeeded_of_fresh hfresh) (by simp [Call.Succeeded]))
  | wait line hturns => exact lasts_of_same rfl rfl rfl rfl
  | accept i c hc x hturn rest hline hroom =>
    exact ⟨rfl, fun h => h, fun h => h, _, (framesOf_accept horderly hc hturn hline).symm⟩
  | fail i c hc x hturn rest hline e =>
    exact lasts_of_same rfl rfl rfl
      (framesOf_fail hc (not_succeeded_of_turn hturn) (by simp [Call.Succeeded]))
  | leave i c hc turn hturn stage hstage =>
    refine lasts_of_same rfl rfl rfl (framesOf_fail hc (not_succeeded_of_turn hturn) ?_)
    rcases hstage with rfl | rfl <;> simp [Call.Succeeded]
  | forget i c hc hfresh =>
    exact lasts_of_same rfl rfl rfl
      (framesOf_fail hc (not_succeeded_of_fresh hfresh) (by simp [Call.Succeeded]))
  | dispose closing =>
    have hdisposed : (t.dispose closing).outbox.disposed = true := by
      rw [outbox_dispose horderly.toSound]
      rfl
    refine ⟨?_, fun hdead => ?_, fun _ => hdisposed, List.prefix_rfl⟩
    · cases closing <;> rfl
    · cases closing
      · exact hdead
      · rfl
  | markDead => exact ⟨rfl, fun _ => rfl, fun h => h, List.prefix_rfl⟩
  | receive =>
    cases hqueue : t.outbox.queue with
    | nil =>
      rw [receive_nil horderly.toSound hqueue]
      exact .refl t
    | cons f rest =>
      rw [receive_cons hqueue]
      exact lasts_of_same rfl rfl rfl rfl
  | dropReceiver => exact lasts_of_same rfl rfl rfl rfl
  | clock time => exact lasts_of_same rfl rfl rfl rfl

theorem Acts.lasts (hacts : Acts t t') (horderly : t.Orderly capacity) : Lasts t t' := by
  induction hacts with
  | refl => exact .refl t
  | tail hacts hact ih => exact ih.trans (hact.lasts (Acts.orderly hacts horderly))

/-! ## The first frame -/

theorem start_ofSettings (buffer patience now : Nat) (frame : String) :
    (Outbox.ofSettings buffer patience).start now frame =
      ({ Outbox.ofSettings buffer patience with queue := [frame], nextTurn := 1 },
        some (.ok ())) := by
  have hroom : 0 < max buffer 1 := Nat.lt_of_lt_of_le Nat.one_pos (Nat.le_max_right _ _)
  rw [Outbox.start_of_not_disposed rfl]
  have hline : ((Outbox.ofSettings buffer patience).enter frame).line = [⟨0, frame, none⟩] :=
    rfl
  exact Outbox.resume_first now hline rfl rfl hroom

theorem orderly_first {buffer patience : Nat} {x : Connection} {frame : String} (now : Nat)
    (hwriter : x.writer = .outbox { Outbox.ofSettings buffer patience with
      queue := [frame], nextTurn := 1 }) :
    Orderly (max buffer 1) {
      now := now, connection := x, calls := [⟨frame, .returned (.ok ())⟩], asked := [0] } := by
  have houtbox : x.outbox = { Outbox.ofSettings buffer patience with
      queue := [frame], nextTurn := 1 } := by
    simp [Connection.outbox, hwriter]
  have hcall {i : Nat} {c : Call} (hc : [Call.mk frame (.returned (.ok ()))][i]? = some c) :
      i = 0 ∧ c = ⟨frame, .returned (.ok ())⟩ := by
    obtain ⟨hi, hc⟩ := List.getElem?_eq_some_iff.mp hc
    obtain rfl := Nat.lt_one_iff.mp hi
    exact ⟨rfl, hc.symm⟩
  constructor
  case toSound =>
    refine ⟨⟨_, hwriter⟩, fun i c hc => .inr (.inr (.inr ⟨.ok (), ?_⟩))⟩
    rw [(hcall hc).2]
  case turn =>
    intro i c id hc hturn
    rw [(hcall hc).2] at hturn
    cases hturn
  case queue_le =>
    rw [outbox, houtbox]
    exact Nat.le_max_right _ _
  case begun =>
    intro i hi
    rw [List.mem_singleton.mp hi]
    exact ⟨_, rfl, by simp [Call.IsFresh]⟩
  case succeeded =>
    intro i c hc _
    rw [(hcall hc).1]
    exact ⟨0, rfl, by simp [outbox, houtbox, Outbox.ofSettings, Outbox.turns]⟩
  case delivered =>
    intro _
    rw [outbox, houtbox]
    rfl
  all_goals simp [outbox, houtbox, Outbox.ofSettings, Outbox.turns]

end Traffic

end Connection

end EventHub
