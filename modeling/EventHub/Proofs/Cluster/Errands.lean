import EventHub.Progress
import Mathlib.Logic.Relation
/-!
# Calls among others

A call that is under way in a world that others change too. Its own steps are its strides; between
any two of them the others may do whatever `env` admits, and its token may be cancelled. What the
call finds and leaves in each stride is recorded, and so is what the others do meanwhile.
-/

namespace EventHub

structure Stride (ω σ α : Type) where
  /-- The world that the step found. -/
  before : ω
  state : σ
  cancelled : Bool
  /-- The world that the step left. -/
  after : ω
  came : Progress σ α

/-- A call and what has happened since it began. -/
structure Errand (ω σ α : Type) where
  world : ω
  /-- The state of the call or its result. -/
  stage : σ ⊕ α
  cancelled : Bool
  strides : List (Stride ω σ α) := []
  /-- What others have done, as the worlds before and after it. -/
  meantime : List (ω × ω) := []

variable {ω σ α β : Type}

/-- Where a call stands after a step from a state. -/
def Progress.stage (state : σ) : Progress σ α → σ ⊕ α
  | blocked => .inl state
  | moved state => .inl state
  | done result => .inr result

namespace Errand

def coming (act : ω → Bool → σ → ω × Progress σ α) (e : Errand ω σ α)
    (state : σ) : Stride ω σ α :=
  let r := act e.world e.cancelled state
  ⟨e.world, state, e.cancelled, r.1, r.2⟩

def stride (act : ω → Bool → σ → ω × Progress σ α) (e : Errand ω σ α)
    (state : σ) : Errand ω σ α :=
  let t := e.coming act state
  { e with world := t.after, stage := t.came.stage state, strides := e.strides ++ [t] }

/-- A call that is made in a world and has done its first step there. -/
def call (act : ω → Bool → σ → ω × Progress σ α) (w : ω)
    (cancelled : Bool) (state : σ) :
    Errand ω σ α :=
  stride act ⟨w, .inl state, cancelled, [], []⟩ state

def meanwhile (e : Errand ω σ α) (w : ω) : Errand ω σ α :=
  { e with world := w, meantime := e.meantime ++ [(e.world, w)] }

/-- So many further steps of the call, as long as it has not ended. -/
def go (act : ω → Bool → σ → ω × Progress σ α) :
    Nat → Errand ω σ α → Errand ω σ α
  | 0, e => e
  | n + 1, e =>
    match e.stage with
    | .inl state => go act n (e.stride act state)
    | .inr _ => e

inductive Step (act : ω → Bool → σ → ω × Progress σ α) (env : ω → ω → Prop) :
    Errand ω σ α → Errand ω σ α → Prop where
  | others (e : Errand ω σ α) (w : ω) (henv : env e.world w) : Step act env e (e.meanwhile w)
  | cancel (e : Errand ω σ α) : Step act env e { e with cancelled := true }
  | stride (e : Errand ω σ α) (state : σ) (hstage : e.stage = .inl state) :
      Step act env e (e.stride act state)

def Run (act : ω → Bool → σ → ω × Progress σ α) (env : ω → ω → Prop) :
    Errand ω σ α → Errand ω σ α → Prop := Relation.ReflTransGen (Step act env)

variable {act : ω → Bool → σ → ω × Progress σ α} {env : ω → ω → Prop}
  {w : ω} {cancelled : Bool}
  {state : σ} {e e' : Errand ω σ α}

theorem run_go (n : Nat) (e : Errand ω σ α) : Run act env e (go act n e) := by
  induction n generalizing e with
  | zero => exact .refl
  | succ n ih =>
    rw [go]
    cases hstage : e.stage with
    | inl state => exact .head (.stride e state hstage) (ih _)
    | inr a => exact .refl

def goCancelled (act : ω → Bool → σ → ω × Progress σ α) (n : Nat)
    (e : Errand ω σ α) :
    Errand ω σ α := go act n { e with cancelled := true }

theorem run_goCancelled (n : Nat) (e : Errand ω σ α) : Run act env e (goCancelled act n e) :=
  .head (.cancel e) (run_go n _)

theorem Run.mono {env' : ω → ω → Prop} (hrun : Run act env e e')
    (henv : ∀ w w', env w w' → env' w w') : Run act env' e e' := by
  refine hrun.lift id fun e e' hstep => ?_
  cases hstep with
  | others w hothers => exact .others e w (henv _ _ hothers)
  | cancel => exact .cancel e
  | stride x hx => exact .stride e x hx

/-! ## Every stride is a step of the call -/

theorem coming_eq {p : Progress σ α} (hstep : act e.world e.cancelled state = (w, p)) :
    e.coming act state = ⟨e.world, state, e.cancelled, w, p⟩ := by
  rw [coming, hstep]

@[simp] theorem world_stride (e : Errand ω σ α) (state : σ) :
    (e.stride act state).world = (act e.world e.cancelled state).1 := rfl

@[simp] theorem stage_stride (e : Errand ω σ α) (state : σ) :
    (e.stride act state).stage = (act e.world e.cancelled state).2.stage state := rfl

@[simp] theorem strides_stride (e : Errand ω σ α) (state : σ) :
    (e.stride act state).strides = e.strides ++ [e.coming act state] := rfl

theorem stage_call : (call act w cancelled state).stage =
    (act w cancelled state).2.stage state := rfl

theorem mem_strides_stride {t : Stride ω σ α} : t ∈ (e.stride act state).strides ↔
    t ∈ e.strides ∨ t = e.coming act state := by
  simp [strides_stride]

theorem mem_strides_call {t : Stride ω σ α} : t ∈ (call act w cancelled state).strides ↔
    t = ⟨w, state, cancelled, (act w cancelled state).1, (act w cancelled state).2⟩ := by
  simp [call, coming]

/-- A fact about all strides holds if it holds of the first and of each further one. -/
theorem Run.strides_all {P : Stride ω σ α → Prop}
    (hrun : Run act env (call act w cancelled state) e)
    (hall : ∀ w cancelled state,
      P ⟨w, state, cancelled, (act w cancelled state).1, (act w cancelled state).2⟩) :
    ∀ t ∈ e.strides, P t := by
  induction hrun with
  | refl =>
    intro t ht
    rw [mem_strides_call.mp ht]
    exact hall w cancelled state
  | tail _ hstep ih =>
    cases hstep with
    | others w henv => exact ih
    | cancel => exact ih
    | stride state hstage =>
      intro t ht
      rcases mem_strides_stride.mp ht with ht | rfl
      · exact ih t ht
      · exact hall _ _ _

/-- What the steps of the call and all others keep holds before and after each stride. -/
theorem Run.throughout {P : ω → Prop} (hrun : Run act env (call act w cancelled state) e)
    (hact : ∀ w cancelled state, P w → P (act w cancelled state).1)
    (henv : ∀ w w', env w w' → P w → P w') (hw : P w) :
    P e.world ∧ ∀ t ∈ e.strides, P t.before ∧ P t.after := by
  induction hrun with
  | refl =>
    refine ⟨hact _ _ _ hw, fun t ht => ?_⟩
    rw [mem_strides_call.mp ht]
    exact ⟨hw, hact _ _ _ hw⟩
  | tail _ hstep ih =>
    cases hstep with
    | others w' hothers => exact ⟨henv _ _ hothers ih.1, ih.2⟩
    | cancel => exact ih
    | stride state hstage =>
      refine ⟨hact _ _ _ ih.1, fun t ht => ?_⟩
      rcases mem_strides_stride.mp ht with ht | rfl
      · exact ih.2 t ht
      · exact ⟨ih.1, hact _ _ _ ih.1⟩

/-- What a call has done stays done. -/
theorem Run.strides_prefix (hrun : Run act env e e') : e.strides <+: e'.strides := by
  induction hrun with
  | refl => exact List.prefix_rfl
  | tail _ hstep ih =>
    cases hstep with
    | others w henv => exact ih
    | cancel => exact ih
    | stride state hstage => exact ih.trans (List.prefix_append _ _)

theorem Run.ended {a : α} (hrun : Run act env e e') (hstage : e.stage = .inr a) :
    e'.stage = .inr a ∧ e'.strides = e.strides := by
  induction hrun with
  | refl => exact ⟨hstage, rfl⟩
  | tail _ hstep ih =>
    cases hstep with
    | others w henv => exact ih
    | cancel => exact ih
    | stride state hmore =>
      rw [ih.1] at hmore
      cases hmore

/-- What holds when the call is made, and what each stride and each deed of the others leaves true,
holds still. -/
theorem Run.carried {P : ω → Prop} (hrun : Run act env (call act w cancelled state) e)
    (hstrides : ∀ t ∈ e.strides, P t.before → P t.after)
    (hmeantime : ∀ p ∈ e.meantime, P p.1 → P p.2) (hw : P w) : P e.world := by
  induction hrun with
  | refl => exact hstrides _ (mem_strides_call.mpr rfl) hw
  | tail _ hstep ih =>
    cases hstep with
    | others w' hothers =>
      refine hmeantime (_, w') (List.mem_append_right _ List.mem_cons_self) ?_
      exact ih hstrides fun p hp => hmeantime p (List.mem_append_left _ hp)
    | cancel => exact ih hstrides hmeantime
    | stride state hstage =>
      refine hstrides _ (mem_strides_stride.mpr (.inr rfl)) ?_
      exact ih (fun t ht => hstrides t (mem_strides_stride.mpr (.inl ht))) hmeantime

/-- What neither a stride nor the others change is as it was when the call was made. -/
theorem Run.kept (hrun : Run act env (call act w cancelled state) e) (f : ω → β)
    (hstrides : ∀ t ∈ e.strides, f t.after = f t.before)
    (hmeantime : ∀ p ∈ e.meantime, f p.2 = f p.1) : f e.world = f w :=
  hrun.carried (P := fun w' => f w' = f w) (fun t ht h => (hstrides t ht).trans h)
    (fun p hp h => (hmeantime p hp).trans h) rfl

/-! ## Tokens -/

/-- As long as the token is not cancelled no stride has seen it cancelled. -/
theorem Run.not_cancelled (hrun : Run act env (call act w cancelled state) e)
    (hcancelled : e.cancelled = false) : ∀ t ∈ e.strides, t.cancelled = false := by
  induction hrun with
  | refl =>
    intro t ht
    rw [mem_strides_call.mp ht]
    exact hcancelled
  | tail _ hstep ih =>
    cases hstep with
    | others w henv => exact ih hcancelled
    | cancel => cases hcancelled
    | stride state hstage =>
      intro t ht
      rcases mem_strides_stride.mp ht with ht | rfl
      · exact ih hcancelled t ht
      · exact hcancelled

end Errand

end EventHub
