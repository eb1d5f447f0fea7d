import EventHub.Proofs.Connection.Fading
import EventHub.Proofs.Connection.Moves
import EventHub.Proofs.Connection.Writes
import Mathlib.Data.List.Nodup
/-!
# What one poll of a send does

Whatever the token says and whoever else writes to the connection: it takes the frame only if the
send succeeds, it dies only of a failure, and a send that has ended is not in line any more.
-/

namespace EventHub

/-! ## Outboxes -/

namespace Outbox

variable {o o' : Outbox} {now id : Nat}

def waiting (o : Outbox) : List Nat := o.line.map (·.id)

/-- Every turn in line has been given out, and to one write only. -/
structure Tidy (o : Outbox) : Prop where
  orderly : o.Orderly
  nodup : o.waiting.Nodup

def Left (o : Outbox) (id : Nat) : Prop := id < o.nextTurn ∧ id ∉ o.waiting

theorem waiting_eq (o : Outbox) : o.waiting = o.turns.map Prod.fst := by
  simp [waiting, turns]

theorem mem_waiting : id ∈ o.waiting ↔ ∃ t ∈ o.turns, t.1 = id := by
  rw [waiting_eq, List.mem_map]

theorem Left.later (hleft : o.Left id) (hlater : o.Later o') : o'.Left id := by
  refine ⟨Nat.lt_of_lt_of_le hleft.1 hlater.nextTurn_le, fun hmem => ?_⟩
  obtain ⟨t, ht, rfl⟩ := mem_waiting.mp hmem
  rcases hlater.turns t ht with ht | hle
  · exact hleft.2 (mem_waiting.mpr ⟨t, ht, rfl⟩)
  · exact absurd hleft.1 (Nat.not_lt.mpr hle)

theorem Tidy.of_sublist (htidy : o.Tidy) (hnext : o'.nextTurn = o.nextTurn)
    (hturns : o'.turns.Sublist o.turns) : o'.Tidy where
  orderly := htidy.orderly.of_subset hnext hturns.subset
  nodup := by
    rw [waiting_eq]
    exact (waiting_eq o ▸ htidy.nodup).sublist (hturns.map _)

theorem Tidy.enter (htidy : o.Tidy) (frame : String) : (o.enter frame).Tidy where
  orderly := htidy.orderly.enter frame
  nodup := by
    rw [waiting_eq, turns_enter, List.map_append, List.map_singleton, ← waiting_eq]
    refine List.nodup_append.mpr ⟨htidy.nodup, List.nodup_singleton _, ?_⟩
    rintro a ha b hb rfl
    obtain ⟨t, ht, rfl⟩ := mem_waiting.mp ha
    exact Nat.ne_of_lt (htidy.orderly t ht) (List.mem_singleton.mp hb)

theorem Resumed.turns_sublist {r : Option (Except Error Unit)} (hresumed : Resumed o id o' r) :
    o'.turns.Sublist o.turns := by
  cases hresumed with
  | waits line hturns => exact hturns ▸ List.Sublist.refl _
  | accepted t rest hline hid hroom =>
    rw [turns_cons hline]
    exact List.sublist_cons_self _ _
  | failed t rest hline hid e herror =>
    rw [turns_cons hline]
    exact List.sublist_cons_self _ _

theorem turns_abandon_sublist (o : Outbox) (id : Nat) : (o.abandon id).turns.Sublist o.turns :=
  List.filter_sublist.map _

theorem not_mem_waiting_abandon (o : Outbox) (id : Nat) : id ∉ (o.abandon id).waiting := by
  simp [waiting, abandon]

theorem Resumed.not_mem_waiting {r : Except Error Unit} (hresumed : Resumed o id o' (some r))
    (htidy : o.Tidy) : id ∉ o'.waiting := by
  have hnodup := htidy.nodup
  cases hresumed with
  | accepted t rest hline hid hroom =>
    rw [waiting, hline, List.map_cons, List.nodup_cons, hid] at hnodup
    exact hnodup.1
  | failed t rest hline hid e herror =>
    rw [waiting, hline, List.map_cons, List.nodup_cons, hid] at hnodup
    exact hnodup.1

theorem Move.later (hmove : Move now o o') : o.Later o' := by
  cases hmove with
  | enter frame hopen => exact later_enter o frame
  | resume id =>
    have hresumed := resume_resumed o now id
    exact later_of_subset hresumed.nextTurn_eq hresumed.turns_subset
  | abandon id => exact later_of_subset rfl (turns_abandon_sublist o id).subset
  | dispose => exact later_of_subset rfl (List.Subset.refl _)

theorem Move.tidy (hmove : Move now o o') (htidy : o.Tidy) : o'.Tidy := by
  cases hmove with
  | enter frame hopen => exact htidy.enter frame
  | resume id =>
    have hresumed := resume_resumed o now id
    exact htidy.of_sublist hresumed.nextTurn_eq hresumed.turns_sublist
  | abandon id => exact htidy.of_sublist rfl (turns_abandon_sublist o id)
  | dispose => exact htidy.of_sublist rfl (List.Sublist.refl _)

theorem Moves.later (hmoves : Moves now o o') : o.Later o' := by
  induction hmoves with
  | refl => exact Later.refl o
  | tail _ hmove ih => exact ih.trans hmove.later

theorem Moves.tidy (hmoves : Moves now o o') (htidy : o.Tidy) : o'.Tidy := by
  induction hmoves with
  | refl => exact htidy
  | tail _ hmove ih => exact hmove.tidy ih

end Outbox

def Writing.turns : Writing → List Nat
  | .turn id => [id]
  | .until _ => []

def Sending.turns : Sending → List Nat
  | .fresh => []
  | .writing w => w.turns

def gained (frame : String) : Except Error Unit → List String
  | .ok () => [frame]
  | .error _ => []

/-! ## Writers -/

namespace Writer

variable {w w' : Writer} {now id : Nat} {frame : String} {s : Writing}

def waiting : Writer → List Nat
  | .outbox o => o.waiting
  | .recorder _ => []

def Tidy : Writer → Prop
  | .outbox o => o.Tidy
  | .recorder _ => True

def Left (w : Writer) (id : Nat) : Prop :=
  match w with
  | .outbox o => o.Left id
  | .recorder _ => True

theorem Left.later (hleft : w.Left id) (hlater : w.Later w') : w'.Left id := by
  cases w <;> cases w' <;> simp only [Later, Left] at hleft hlater ⊢
  exact Outbox.Left.later hleft hlater

theorem Moves.later (hmoves : w.Moves now w') : w.Later w' := by
  cases w <;> cases w' <;> simp only [Moves, Later] at hmoves ⊢
  exact hmoves.later

theorem Moves.tidy (hmoves : w.Moves now w') (htidy : w.Tidy) : w'.Tidy := by
  cases w <;> cases w' <;> simp only [Moves, Tidy] at hmoves htidy ⊢
  exact hmoves.tidy htidy

theorem held_finish (r : Recorder) (frame : String) :
    (r.finish frame).1.frames = r.frames ++ gained frame (r.finish frame).2 := by
  unfold Recorder.finish
  split
  · exact (List.append_nil _).symm
  · rfl

theorem queue_resume {o : Outbox} {r : Option (Except Error Unit)} {o' : Outbox}
    (hresumed : o.Resumed id o' r) (hexpects : o.Expects id frame) :
    o'.queue = o.queue ++ (r.map (gained frame)).getD [] := by
  cases hresumed with
  | waits line hturns => exact (List.append_nil _).symm
  | accepted t rest hline hid hroom =>
    have hframe := hexpects.2 (t.id, t.frame) (by simp [Outbox.turns, hline]) hid
    simp only [Option.map_some, Option.getD_some, gained, ← hframe]
  | failed t rest hline hid e herror => exact (List.append_nil _).symm

theorem resume_polled (htidy : w.Tidy) (now : Nat) (hexpects : w.Expects frame s) :
    (w.resume now frame s).1.held =
        w.held ++ ((w.resume now frame s).2.map (gained frame)).getD [] ∧
      (w.resume now frame s).1.waiting ⊆ w.waiting ∧
      ∀ r, (w.resume now frame s).2 = some r →
        ∀ id ∈ s.turns, (w.resume now frame s).1.Left id := by
  cases w with
  | outbox o =>
    cases s with
    | turn id =>
      have hresumed := o.resume_resumed now id
      simp only [resume]
      generalize o.resume now id = p at hresumed
      obtain ⟨o', r⟩ := p
      refine ⟨queue_resume hresumed hexpects, ?_, ?_⟩
      · simp only [waiting, Outbox.waiting_eq]
        exact List.map_subset _ hresumed.turns_subset
      · rintro r rfl i hi
        obtain rfl := List.mem_singleton.mp hi
        exact ⟨hresumed.nextTurn_eq ▸ hexpects.1, hresumed.not_mem_waiting htidy⟩
    | «until» time =>
      exact ⟨(List.append_nil _).symm, List.Subset.refl _,
        fun _ _ _ hi => absurd hi List.not_mem_nil⟩
  | recorder r =>
    cases s with
    | turn id => exact ⟨(List.append_nil _).symm, List.Subset.refl _, fun _ _ _ _ => trivial⟩
    | «until» time =>
      simp only [resume]
      split
      · exact ⟨held_finish r frame, List.Subset.refl _, fun _ _ _ _ => trivial⟩
      · exact ⟨(List.append_nil _).symm, List.Subset.refl _, fun _ _ _ _ => trivial⟩

theorem start_polled (htidy : w.Tidy) (now : Nat) (frame : String) :
    match (w.start now frame).2 with
    | .inl s => (w.start now frame).1.held = w.held ∧ (w.start now frame).1.Expects frame s ∧
        ∀ id ∈ (w.start now frame).1.waiting, id ∈ w.waiting ∨ id ∈ s.turns
    | .inr r => (w.start now frame).1.held = w.held ++ gained frame r ∧
        (w.start now frame).1.waiting ⊆ w.waiting := by
  cases w with
  | outbox o =>
    cases hdisposed : o.disposed with
    | true =>
      simp only [start, Outbox.start_of_disposed hdisposed]
      exact ⟨(List.append_nil _).symm, List.Subset.refl _⟩
    | false =>
      have hexpects := Outbox.Orderly.expects_enter htidy.orderly frame
      have hresumed := (o.enter frame).resume_resumed now o.nextTurn
      simp only [start, Outbox.start_of_not_disposed hdisposed]
      generalize (o.enter frame).resume now o.nextTurn = p at hresumed
      obtain ⟨o', r⟩ := p
      have hqueue := queue_resume hresumed hexpects
      have hlater := Outbox.later_of_subset hresumed.nextTurn_eq hresumed.turns_subset
      have hjoined : ∀ id ∈ o'.waiting, id ∈ o.waiting ∨ id = o.nextTurn := by
        intro id hid
        obtain ⟨t, ht, rfl⟩ := Outbox.mem_waiting.mp hid
        have hentered := hresumed.turns_subset ht
        rw [Outbox.turns_enter, List.mem_append, List.mem_singleton] at hentered
        exact hentered.imp (fun h => Outbox.mem_waiting.mpr ⟨t, h, rfl⟩) fun h => by rw [h]
      cases r with
      | none =>
        refine ⟨hqueue.trans (List.append_nil _), hexpects.later hlater, fun id hid => ?_⟩
        exact (hjoined id hid).imp_right List.mem_singleton.mpr
      | some r =>
        refine ⟨hqueue, fun id hid => (hjoined id hid).resolve_right ?_⟩
        rintro rfl
        exact hresumed.not_mem_waiting (htidy.enter frame) hid
  | recorder r =>
    by_cases hdelay : r.delay = 0
    · rw [start, if_pos hdelay]
      exact ⟨held_finish r frame, List.Subset.refl _⟩
    · rw [start, if_neg hdelay]
      exact ⟨rfl, trivial, fun id hid => .inl hid⟩

theorem held_abandon (w : Writer) (s : Writing) : (w.abandon s).held = w.held := by
  cases w <;> cases s <;> rfl

theorem waiting_abandon_subset (w : Writer) (s : Writing) :
    (w.abandon s).waiting ⊆ w.waiting := by
  cases w with
  | outbox o =>
    cases s with
    | turn id =>
      simp only [abandon, waiting, Outbox.waiting_eq]
      exact List.map_subset _ (o.turns_abandon_sublist id).subset
    | «until» time => exact List.Subset.refl _
  | recorder r => exact List.Subset.refl _

theorem left_abandon (hexpects : w.Expects frame s) :
    ∀ id ∈ s.turns, (w.abandon s).Left id := by
  intro id hid
  cases s with
  | turn i =>
    obtain rfl := List.mem_singleton.mp hid
    cases w with
    | outbox o => exact ⟨hexpects.1, o.not_mem_waiting_abandon id⟩
    | recorder r => trivial
  | «until» time => cases hid

theorem waiting_dispose (w : Writer) : w.dispose.waiting = w.waiting := by
  cases w <;> rfl

/-- The writer refuses no frame at the time, be it that a write begins or that it goes on. -/
def Accepts (w : Writer) (now : Nat) : Prop :=
  ∀ frame e, (w.start now frame).2 ≠ .inr (.error e) ∧
    ∀ s, (w.resume now frame s).2 ≠ some (.error e)

end Writer

/-! ## Connections -/

namespace Connection

variable {x x' : Connection} {now : Nat} {cancelled : Bool} {frame : String} {s : Sending}

def waiting (x : Connection) : List Nat := x.writer.waiting

def taking (frame : String) : Progress Sending (Except Error Unit) → List String
  | .done r => gained frame r
  | _ => []

structure Polled (x : Connection) (frame : String) (s : Sending) (x' : Connection)
    (p : Progress Sending (Except Error Unit)) : Prop where
  held : x'.held = x.held ++ taking frame p
  begins : ∀ s', p = .moved s' → s = .fresh ∧ x'.Expects frame s'
  joined : ∀ id ∈ x'.waiting, id ∈ x.waiting ∨ ∃ s', p = .moved s' ∧ id ∈ s'.turns
  left : ∀ r, p = .done r → ∀ id ∈ s.turns, x'.writer.Left id

theorem later_stepSend (x : Connection) (now : Nat) (cancelled : Bool) (frame : String)
    (s : Sending) : x.Later (x.stepSend now cancelled frame s).1 := by
  have hfades := x.fades_stepSend now cancelled frame s
  refine ⟨hfades.id_eq, hfades.client_eq, fun hlive => ?_,
    (x.moves_stepSend now cancelled frame s).later⟩
  cases hdead : x.live with
  | true => rfl
  | false => exact absurd hlive (by rw [hfades.dead hdead]; exact Bool.false_ne_true)

theorem later_abandon (x : Connection) (s : Sending) : x.Later (x.abandon s) := by
  cases s with
  | fresh => exact Later.refl x
  | writing w => exact ⟨rfl, rfl, fun h => h, (x.writer.moves_abandon 0 w).later⟩

theorem later_stepWrite (x : Connection) (now : Nat) (frame : String) (w : Option Writing) :
    x.Later (x.stepWrite now frame w).1 := by
  have hwriter := (x.moves_stepWrite now frame w).later
  cases w with
  | none =>
    rw [stepWrite] at hwriter ⊢
    generalize x.writer.start now frame = p at hwriter
    obtain ⟨y, w | r⟩ := p <;> exact ⟨rfl, rfl, fun h => h, hwriter⟩
  | some w =>
    rw [stepWrite] at hwriter ⊢
    generalize x.writer.resume now frame w = p at hwriter
    obtain ⟨y, _ | r⟩ := p <;> exact ⟨rfl, rfl, fun h => h, hwriter⟩

/-- Only a send that fails leaves a live connection dead. -/
theorem live_stepSend (hlive : x.live = true) (now : Nat) (cancelled : Bool) (frame : String)
    (s : Sending) : (x.stepSend now cancelled frame s).1.live = true ∨
      ∃ e, (x.stepSend now cancelled frame s).2 = .done (.error e) ∧ e.isCancelled = false := by
  have hfinish {w : Writer} (r : Except Error Unit) :
      ({ x with writer := w }.finish r).live = true ∨
        ∃ e, (.done r : Progress Sending (Except Error Unit)) = .done (.error e) ∧
          e.isCancelled = false := by
    match r with
    | .ok () => exact .inl hlive
    | .error e =>
      cases hcancelled : e.isCancelled with
      | true => exact .inl (by simp [finish, hcancelled, hlive])
      | false => exact .inr ⟨e, rfl, hcancelled⟩
  cases s with
  | fresh =>
    rw [stepSend]
    split
    · exact .inl hlive
    · split
      · exact .inl hlive
      · generalize x.writer.start now frame = p
        obtain ⟨w, s | r⟩ := p
        · exact .inl hlive
        · exact hfinish r
  | writing s =>
    rw [stepSend]
    split
    · exact .inl hlive
    · generalize x.writer.resume now frame s = p
      obtain ⟨w, _ | r⟩ := p
      · exact .inl hlive
      · exact hfinish r

theorem held_finish (x : Connection) (r : Except Error Unit) : (x.finish r).held = x.held := by
  unfold finish
  split
  · rfl
  · split
    · rfl
    · exact Writer.held_dispose _

theorem waiting_finish (x : Connection) (r : Except Error Unit) :
    (x.finish r).waiting = x.waiting := by
  unfold finish
  split
  · rfl
  · split
    · rfl
    · exact Writer.waiting_dispose _

theorem later_finish (x : Connection) (r : Except Error Unit) : x.Later (x.finish r) := by
  unfold finish
  split
  · exact Later.refl x
  · split
    · exact Later.refl x
    · exact later_close x

theorem Polled.finish {w : Writer} {r : Except Error Unit}
    (hheld : w.held = x.held ++ gained frame r) (hwaiting : w.waiting ⊆ x.waiting)
    (hleft : ∀ id ∈ s.turns, w.Left id) :
    Polled x frame s ({ x with writer := w }.finish r) (.done r) where
  held := (held_finish _ r).trans hheld
  begins := by
    intro s' h
    cases h
  joined := fun id hid => .inl (hwaiting (by rwa [waiting_finish] at hid))
  left := fun r' _ id hid => (hleft id hid).later (later_finish { x with writer := w } r).writer

theorem polled_stepSend (htidy : x.writer.Tidy) (now : Nat) (cancelled : Bool)
    (hexpects : x.Expects frame s) :
    Polled x frame s (x.stepSend now cancelled frame s).1
      (x.stepSend now cancelled frame s).2 := by
  cases s with
  | fresh =>
    have hsame (e : Error) : Polled x frame .fresh x (.done (.error e)) := by
      refine ⟨(List.append_nil _).symm, ?_, fun id hid => .inl hid,
        fun _ _ id hid => absurd hid List.not_mem_nil⟩
      intro s' h
      cases h
    rw [stepSend]
    split
    · exact hsame _
    · split
      · exact hsame _
      · have hstart := Writer.start_polled htidy now frame
        generalize x.writer.start now frame = p at hstart
        obtain ⟨w, s | r⟩ := p
        · obtain ⟨hheld, hexpects', hwaiting⟩ := hstart
          refine ⟨hheld.trans (List.append_nil _).symm, ?_, fun id hid => ?_, ?_⟩
          · intro s' h
            cases h
            exact ⟨rfl, hexpects'⟩
          · exact (hwaiting id hid).imp_right fun h => ⟨_, rfl, h⟩
          · intro r h
            cases h
        · exact .finish hstart.1 hstart.2 fun id hid => absurd hid List.not_mem_nil
  | writing s =>
    rw [stepSend]
    split
    · refine ⟨(Writer.held_abandon x.writer s).trans (List.append_nil _).symm, ?_,
        fun id hid => .inl (Writer.waiting_abandon_subset x.writer s hid),
        fun _ _ => Writer.left_abandon hexpects⟩
      intro s' h
      cases h
    · obtain ⟨hheld, hwaiting, hleft⟩ := Writer.resume_polled htidy now hexpects
      generalize x.writer.resume now frame s = p at hheld hwaiting hleft
      obtain ⟨w, _ | r⟩ := p
      · refine ⟨hheld, ?_, fun id hid => .inl (hwaiting hid), ?_⟩
        · intro s' h
          cases h
        · intro r h
          cases h
      · exact .finish hheld hwaiting (hleft r rfl)

/-- A send to a live connection whose writer accepts does not fail unless it is cancelled. -/
theorem ne_error_of_accepts (hlive : x.live = true) {now : Nat} (haccepts : x.writer.Accepts now)
    (frame : String) (s : Sending) (e : Error) :
    (x.stepSend now false frame s).2 ≠ .done (.error e) := by
  intro herror
  cases s with
  | fresh =>
    have hstart := (haccepts frame e).1
    simp only [stepSend, hlive, Bool.not_true, Bool.false_eq_true, if_false] at herror
    generalize x.writer.start now frame = p at hstart herror
    obtain ⟨w, s | r⟩ := p
    · cases herror
    · cases herror
      exact hstart rfl
  | writing s =>
    have hresume := (haccepts frame e).2 s
    simp only [stepSend, Bool.false_eq_true, if_false] at herror
    generalize x.writer.resume now frame s = p at hresume herror
    obtain ⟨w, _ | r⟩ := p
    · cases herror
    · cases herror
      exact hresume rfl

/-- What happens to a stream from outside leaves its line alone. -/
theorem Outside.writer (houtside : Outside x x') :
    x.writer.Later x'.writer ∧ (x.writer.Tidy → x'.writer.Tidy) := by
  have hsame {o o' : Outbox} (hturns : o'.turns = o.turns) (hnext : o'.nextTurn = o.nextTurn) :
      o.Later o' ∧ (o.Tidy → o'.Tidy) :=
    ⟨Outbox.later_of_subset hnext (hturns ▸ List.Subset.refl _), fun htidy =>
      htidy.of_sublist hnext (hturns ▸ List.Sublist.refl _)⟩
  cases houtside with
  | receive o hwriter =>
    rw [hwriter]
    refine hsame ?_ ?_ <;> unfold Outbox.receive <;> split <;> rfl
  | dropReceiver o hwriter =>
    rw [hwriter]
    exact hsame rfl rfl
  | dispose => exact ⟨Writer.later_dispose _, (Writer.moves_dispose x.writer 0).tidy⟩
  | close => exact ⟨Writer.later_dispose _, (Writer.moves_dispose x.writer 0).tidy⟩
  | markDead => exact ⟨Writer.Later.refl _, fun h => h⟩
  | fail r hwriter e herror =>
    rw [hwriter]
    exact ⟨trivial, fun _ => trivial⟩

structure Abandoned (x : Connection) (s : Sending) (x' : Connection) : Prop where
  held : x'.held = x.held
  live : x'.live = x.live
  joined : x'.waiting ⊆ x.waiting
  left : ∀ id ∈ s.turns, x'.writer.Left id

theorem abandoned_abandon (hexpects : x.Expects frame s) : Abandoned x s (x.abandon s) := by
  cases s with
  | fresh => exact ⟨rfl, rfl, List.Subset.refl _, fun id hid => absurd hid List.not_mem_nil⟩
  | writing w =>
    exact ⟨Writer.held_abandon _ w, rfl, Writer.waiting_abandon_subset _ w,
      Writer.left_abandon hexpects⟩

end Connection

end EventHub
