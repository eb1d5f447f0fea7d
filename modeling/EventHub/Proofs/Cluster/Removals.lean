import EventHub.Proofs.Cluster.Fleet
/-!
# Removals wherever they happen

Publications, sweeps and the loops around them remove connections as a removal on its own does. A
step of any of them is a step of the removal that it is at, or one that the store and the registries
hear nothing of.
-/

namespace EventHub.Cluster

variable {σ τ α β : Type} {c c' : Cluster} {s : Nat}

def removalAfter (removal? : σ → Option Removal) (state : σ) : Progress σ α → Option Removal
  | .blocked => removal? state
  | .moved state => removal? state
  | .done _ => none

/-- What a step does about the removal that an activity on the server `s` is at. -/
inductive Removes (s : Nat) (c : Cluster) :
    Option Removal → Cluster × Option Removal → Prop where
  | quiet {c' : Cluster} {after : Option Removal} (hquiet : Quiet c c')
      (hfresh : after.bind Removal.leaving? = none) : Removes s c none (c', after)
  | step (r : Removal) : Removes s c (some r)
      ((c.stepRemoval s r).1, removalAfter some r (c.stepRemoval s r).2)

theorem Removes.lift {f : σ → τ} {g : α → β} {part? : σ → Option Removal}
    {whole? : τ → Option Removal} (hwhole : ∀ x, whole? (f x) = part? x) {x : σ}
    {p : Cluster × Progress σ α}
    (hremoves : Removes s c (part? x) (p.1, removalAfter part? x p.2)) :
    Removes s c (whole? (f x)) (p.1, removalAfter whole? (f x) ((p.2.mapState f).map g)) := by
  have hafter : removalAfter whole? (f x) ((p.2.mapState f).map g) =
      removalAfter part? x p.2 := by
    cases p.2 with
    | blocked | moved => exact hwhole _
    | done => rfl
  rwa [hafter, hwhole]

theorem removes_stepRemovals (c : Cluster) (s : Nat) (r : Removals) :
    Removes s c r.current ((c.stepRemovals s r).1,
      removalAfter Removals.current r (c.stepRemovals s r).2) := by
  obtain ⟨current, rest⟩ := r
  cases current with
  | none =>
    cases rest with
    | nil => exact .quiet (Quiet.refl c) rfl
    | cons id rest => exact .quiet (Quiet.refl c) rfl
  | some removal =>
    have hstep := Removes.step (s := s) (c := c) removal
    simp only [stepRemovals]
    generalize c.stepRemoval s removal = p at hstep
    obtain ⟨c', _ | removal' | result⟩ := p <;> exact hstep

theorem removes_stepDelivery (c : Cluster) (cancelled : Bool) (s : Nat) (d : Delivery) :
    Removes s c d.removal? ((c.stepDelivery cancelled s d).1,
      removalAfter Delivery.removal? d (c.stepDelivery cancelled s d).2) := by
  cases d with
  | fresh target event =>
    rw [stepDelivery]
    split
    · exact .quiet (Quiet.refl c) rfl
    · dsimp only
      split <;> exact .quiet (Quiet.refl c) rfl
  | sending slots =>
    rw [stepDelivery]
    split
    · exact .quiet (quiet_abandonSlots slots c) rfl
    · have hslots := quiet_stepSlots cancelled slots c
      generalize c.stepSlots cancelled slots = p at hslots
      obtain ⟨c', slots', moved⟩ := p
      dsimp only
      split
      · split <;> exact .quiet hslots rfl
      · split <;> exact .quiet hslots rfl
  | pruning r => exact (removes_stepRemovals c s r).lift fun _ => rfl

theorem removes_stepLocal (c : Cluster) (cancelled : Bool) (s : Nat) (p : LocalPublish) :
    Removes s c p.removal? ((c.stepLocal cancelled s p).1,
      removalAfter LocalPublish.removal? p (c.stepLocal cancelled s p).2) := by
  cases p with
  | fresh target event =>
    rw [stepLocal]
    split
    · exact .quiet (quiet_modifyServer s fun _ => rfl) rfl
    · exact .quiet (Quiet.refl c) rfl
  | delivering d =>
    have hdelivery := removes_stepDelivery c cancelled s d
    rw [stepLocal]
    generalize c.stepDelivery cancelled s d = q at hdelivery
    obtain ⟨c', _ | d' | result⟩ := q <;> exact hdelivery

theorem removes_stepPublication (c : Cluster) (cancelled : Bool) (s : Nat) (p : Publication) :
    Removes s c p.removal? ((c.stepPublication cancelled s p).1,
      removalAfter Publication.removal? p (c.stepPublication cancelled s p).2) := by
  cases p with
  | publishing target event q =>
    have hlocal := removes_stepLocal c cancelled s q
    rw [stepPublication]
    generalize c.stepLocal cancelled s q = step at hlocal
    obtain ⟨c', _ | q' | ⟨e | _⟩⟩ := step
    · exact hlocal
    · exact hlocal
    · exact hlocal
    · dsimp only
      split <;> exact hlocal
  | relaying target event =>
    rw [stepPublication]
    split
    · exact .quiet (Quiet.refl c) rfl
    · split
      · exact .quiet (Quiet.refl c) rfl
      · exact .quiet (quiet_relay c s _ _) rfl

theorem removes_stepHandling (c : Cluster) (cancelled : Bool) (s : Nat) (h : Handling) :
    Removes s c h.removal? ((c.stepHandling cancelled s h).1,
      removalAfter Handling.removal? h (c.stepHandling cancelled s h).2) := by
  cases h with
  | fresh raw =>
    rw [stepHandling]
    split
    · exact .quiet (Quiet.refl c) rfl
    · next server _ =>
      cases hreceived : received server.id raw with
      | error e => exact .quiet (Quiet.refl c) rfl
      | ok p =>
        cases p with
        | none => exact .quiet (Quiet.refl c) rfl
        | some p =>
          have hfresh : p.removal? = none := by
            unfold received at hreceived
            split at hreceived
            · cases hreceived
            · split at hreceived
              · cases hreceived
              · split at hreceived <;> cases hreceived
                rfl
          exact .quiet (Quiet.refl c) (by simp [removalAfter, Handling.removal?, hfresh])
  | publishing p =>
    have hlocal := removes_stepLocal c cancelled s p
    rw [stepHandling]
    generalize c.stepLocal cancelled s p = q at hlocal
    obtain ⟨c', _ | p' | result⟩ := q <;> exact hlocal

theorem removes_stepSweep (c : Cluster) (cancelled : Bool) (s : Nat) (w : Sweep) :
    Removes s c w.removal? ((c.stepSweep cancelled s w).1,
      removalAfter Sweep.removal? w (c.stepSweep cancelled s w).2) := by
  cases w with
  | fresh =>
    rw [stepSweep]
    split <;> exact .quiet (Quiet.refl c) rfl
  | beating beats =>
    have hbeats := quiet_stepBeats cancelled beats c
    rw [stepSweep]
    generalize c.stepBeats cancelled beats = p at hbeats
    obtain ⟨c', beats', moved⟩ := p
    dsimp only
    split
    · exact .quiet hbeats rfl
    · split <;> exact .quiet hbeats rfl
  | evicting count r => exact (removes_stepRemovals c s r).lift fun _ => rfl

theorem removes_stepHeartbeat (c : Cluster) (cancelled stopFirst : Bool) (s : Nat)
    (l : Loop Sweep) : Removes s c l.removal? ((c.stepHeartbeat cancelled stopFirst s l).1,
      removalAfter Loop.removal? l (c.stepHeartbeat cancelled stopFirst s l).2) := by
  cases l with
  | starting period => exact .quiet (Quiet.refl c) rfl
  | waiting t =>
    simp only [stepHeartbeat, stepLoop]
    split
    · exact .quiet (Quiet.refl c) rfl
    · split <;> exact .quiet (Quiet.refl c) rfl
  | working t w =>
    have hsweep := removes_stepSweep c cancelled s w
    simp only [stepHeartbeat, stepLoop]
    generalize c.stepSweep cancelled s w = p at hsweep
    obtain ⟨c', _ | w' | n⟩ := p <;> exact hsweep

theorem removes_stepSubscriber (c : Cluster) (cancelled stopFirst : Bool) (s : Nat)
    (x : Subscriber) : Removes s c x.removal? ((c.stepSubscriber cancelled stopFirst s x).1,
      removalAfter Subscriber.removal? x (c.stepSubscriber cancelled stopFirst s x).2) := by
  cases x with
  | subscribing pause =>
    have hsubscribe := quiet_subscribe c s
    rw [stepSubscriber]
    split
    · exact .quiet (Quiet.refl c) rfl
    · generalize c.subscribe s = p at hsubscribe
      obtain ⟨c', _ | feed⟩ := p <;> exact .quiet hsubscribe rfl
  | resting time pause =>
    rw [stepSubscriber]
    split
    · exact .quiet (Quiet.refl c) rfl
    · split <;> exact .quiet (Quiet.refl c) rfl
  | listening feed =>
    rw [stepSubscriber]
    split
    · exact .quiet (Quiet.refl c) rfl
    · split
      · split
        · exact .quiet (Quiet.refl c) rfl
        · split <;> exact .quiet (Quiet.refl c) rfl
      all_goals exact .quiet (Quiet.refl c) rfl
  | handling feed h =>
    have hhandling := removes_stepHandling c cancelled s h
    rw [stepSubscriber]
    generalize c.stepHandling cancelled s h = p at hhandling
    obtain ⟨c', _ | h' | ⟨e | _⟩⟩ := p
    · exact hhandling
    · exact hhandling
    · dsimp only
      split <;> exact hhandling
    · exact hhandling

end EventHub.Cluster
