/-!
# Progress of an activity

Activities that may have to wait are machines: their state says where they stand, and one step
either finds that they must go on waiting, or takes them further, or ends them with a result.
-/

namespace EventHub

/-- What a step does to an activity with states `σ` and results `α`. -/
inductive Progress (σ α : Type) where
  /-- Nothing can be done yet; the state is as before. -/
  | blocked
  /-- The activity goes on from a new state. -/
  | moved (state : σ)
  | done (result : α)
deriving Repr

namespace Progress

variable {σ τ α β : Type}

/-- Places the states of an activity among those of the one that it is part of. -/
def mapState (f : σ → τ) : Progress σ α → Progress τ α
  | blocked => blocked
  | moved s => moved (f s)
  | done a => done a

def map (f : α → β) : Progress σ α → Progress σ β
  | blocked => blocked
  | moved s => moved s
  | done a => done (f a)

def isBlocked : Progress σ α → Bool
  | blocked => true
  | _ => false

theorem map_mapState_eq_moved {p : Progress σ α} {f : σ → τ} {g : α → β} {t : τ} :
    (p.mapState f).map g = moved t ↔ ∃ s, p = moved s ∧ f s = t := by
  cases p <;> simp [mapState, map]

theorem map_mapState_eq_done {p : Progress σ α} {f : σ → τ} {g : α → β} {b : β} :
    (p.mapState f).map g = done b ↔ ∃ a, p = done a ∧ g a = b := by
  cases p <;> simp [mapState, map]

end Progress

end EventHub
