import EventHub.Proofs.Cluster.Errands
import EventHub.Relay.Message
import EventHub.Settings.Channels
/-!
# A relay behind a publisher

A publisher can be wrapped so that what it has published goes to a relay as well. Nothing is asked
of the publisher, which may do what it likes to the world and come to any result, and nothing of the
relay but that it answers in some way. The wrapped publisher does what it would do alone, and its
result is the result of the whole.
-/

namespace EventHub

/-! ## Calls within calls -/

namespace Errand

variable {ω σ τ α β : Type} {P : ω → Prop} {env : ω → ω → Prop}
  {act : ω → Bool → σ → ω × Progress σ α}
  {act' : ω → Bool → τ → ω × Progress τ β} {f : σ → τ}
  {k : Progress σ α → Progress τ β} {h : α → τ ⊕ β} {g : α → β}
  {earlier : List (Stride ω τ β)}
  {w : ω} {x : σ} {e e₁ : Errand ω σ α} {d d₁ : Errand ω τ β}

/-- In worlds where `P` holds, which it goes on to do, and unless its token is cancelled, an outer
call steps as an inner one does. Where it stands is what `f` says; what its step comes to is `k`,
and how it goes on after the inner call is `h`. -/
structure Embeds (P : ω → Prop) (env : ω → ω → Prop)
    (act : ω → Bool → σ → ω × Progress σ α)
    (act' : ω → Bool → τ → ω × Progress τ β) (f : σ → τ)
    (k : Progress σ α → Progress τ β) (h : α → τ ⊕ β) : Prop where
  step : ∀ w x, P w → act' w false (f x) = ((act w false x).1, k (act w false x).2)
  stage : ∀ x p, (k p).stage (f x) = Sum.elim (fun y => .inl (f y)) h (p.stage x)
  keeps : ∀ w x, P w → P (act w false x).1
  others : ∀ w w', env w w' → P w → P w'

def within (f : σ → τ) (k : Progress σ α → Progress τ β)
    (t : Stride ω σ α) : Stride ω τ β :=
  ⟨t.before, f t.state, t.cancelled, t.after, k t.came⟩

/-- After some earlier strides, the outer call `d` has done what the inner call `e` has done. -/
structure Follows (P : ω → Prop) (f : σ → τ)
    (k : Progress σ α → Progress τ β) (h : α → τ ⊕ β)
    (earlier : List (Stride ω τ β)) (e : Errand ω σ α) (d : Errand ω τ β) : Prop where
  holds : P e.world
  world : d.world = e.world
  stage : d.stage = Sum.elim (fun x => .inl (f x)) h e.stage
  never : e.cancelled = false ∧ d.cancelled = false
  strides : d.strides = earlier ++ e.strides.map (within f k)

theorem Follows.meanwhile (hfollows : Follows P f k h earlier e d)
    (hembeds : Embeds P env act act' f k h) (henv : env e.world w) :
    Follows P f k h earlier (e.meanwhile w) (d.meanwhile w) :=
  ⟨hembeds.others _ _ henv hfollows.holds, rfl, hfollows.stage, hfollows.never,
    hfollows.strides⟩

theorem Follows.stride (hfollows : Follows P f k h earlier e d)
    (hembeds : Embeds P env act act' f k h) (x : σ) :
    Follows P f k h earlier (e.stride act x) (d.stride act' (f x)) := by
  have hstep : act' d.world d.cancelled (f x) =
      ((act e.world e.cancelled x).1, k (act e.world e.cancelled x).2) := by
    rw [hfollows.never.1, hfollows.never.2, hfollows.world]
    exact hembeds.step _ x hfollows.holds
  refine ⟨?_, ?_, ?_, hfollows.never, ?_⟩
  · rw [world_stride, hfollows.never.1]
    exact hembeds.keeps _ x hfollows.holds
  · rw [world_stride, world_stride, hstep]
  · rw [stage_stride, stage_stride, hstep]
    exact hembeds.stage x _
  · have hlast : d.coming act' (f x) = within f k (e.coming act x) := by
      rw [coming, hstep, hfollows.world, hfollows.never.2, ← hfollows.never.1]
      rfl
    rw [strides_stride, strides_stride, hfollows.strides, hlast, List.map_append,
      List.append_assoc, List.map_singleton]

theorem Embeds.follows_call (hembeds : Embeds P env act act' f k h) (hw : P w) (x : σ) :
    Follows P f k h [] (call act w false x) (call act' w false (f x)) :=
  Follows.stride (e := ⟨w, .inl x, false, [], []⟩) (d := ⟨w, .inl (f x), false, [], []⟩)
    ⟨hw, rfl, rfl, ⟨rfl, rfl⟩, rfl⟩ hembeds x

theorem Step.never (hstep : Step act env e e₁) (hnever : e₁.cancelled = false) :
    e.cancelled = false := by
  cases hstep with
  | others w henv => exact hnever
  | cancel => cases hnever
  | stride x hx => exact hnever

theorem Follows.lift (hfollows : Follows P f k h earlier e d)
    (hembeds : Embeds P env act act' f k h) (hrun : Run act env e e₁)
    (hnever : e₁.cancelled = false) :
    ∃ d₁, Run act' env d d₁ ∧ Follows P f k h earlier e₁ d₁ := by
  induction hrun with
  | refl => exact ⟨d, .refl, hfollows⟩
  | tail _ hstep ih =>
    obtain ⟨d₁, hrun₁, hfollows₁⟩ := ih (hstep.never hnever)
    cases hstep with
    | others w henv =>
      exact ⟨_, hrun₁.tail (.others d₁ w (hfollows₁.world ▸ henv)),
        hfollows₁.meanwhile hembeds henv⟩
    | cancel => cases hnever
    | stride x hx =>
      have hstage := hfollows₁.stage
      rw [hx] at hstage
      exact ⟨_, hrun₁.tail (.stride d₁ (f x) hstage), hfollows₁.stride hembeds x⟩

/-- What the outer call does until the inner one has ended, the inner call does. -/
theorem Follows.project (hfollows : Follows P f k h earlier e d)
    (hembeds : Embeds P env act act' f k h) (hstep : Step act' env d d₁)
    (hnever : d₁.cancelled = false) (hx : e.stage = .inl x) :
    ∃ e₁, Step act env e e₁ ∧ Follows P f k h earlier e₁ d₁ := by
  cases hstep with
  | others w henv =>
    have henv' : env e.world w := hfollows.world ▸ henv
    exact ⟨_, .others e w henv', hfollows.meanwhile hembeds henv'⟩
  | cancel => cases hnever
  | stride y hy =>
    have hstage := hfollows.stage
    rw [hx, hy] at hstage
    obtain rfl := Sum.inl.inj hstage
    exact ⟨_, .stride e x hx, hfollows.stride hembeds x⟩

/-- An outer call that ends with the inner one does nothing else. -/
theorem Follows.of_run (hfollows : Follows P f k (fun a => .inr (g a)) earlier e d)
    (hembeds : Embeds P env act act' f k fun a => .inr (g a)) (hrun : Run act' env d d₁)
    (hnever : d₁.cancelled = false) :
    ∃ e₁, Run act env e e₁ ∧ Follows P f k (fun a => .inr (g a)) earlier e₁ d₁ := by
  induction hrun with
  | refl => exact ⟨e, .refl, hfollows⟩
  | tail _ hstep ih =>
    obtain ⟨e₁, hrun₁, hfollows₁⟩ := ih (hstep.never hnever)
    cases hstage : e₁.stage with
    | inl x =>
      obtain ⟨e₂, hstep₂, hfollows₂⟩ := hfollows₁.project hembeds hstep hnever hstage
      exact ⟨e₂, hrun₁.tail hstep₂, hfollows₂⟩
    | inr a =>
      cases hstep with
      | others w henv =>
        have henv' : env e₁.world w := hfollows₁.world ▸ henv
        exact ⟨_, hrun₁.tail (.others e₁ w henv'), hfollows₁.meanwhile hembeds henv'⟩
      | cancel => cases hnever
      | stride y hy =>
        have hended := hfollows₁.stage
        rw [hstage, hy] at hended
        cases hended

end Errand

/-! ## Decorated publishers -/

/-- Where a publication stands that goes to a relay as well. -/
inductive Decorated (σ τ : Type) where
  | publishing (p : σ)
  /-- Published; the relay comes next. -/
  | relaying
  /-- The relay has been handed the message and is at work. -/
  | handing (q : τ)

/-- A publisher with a relay behind it, in a world `ω`. -/
structure Decorator (ω σ τ : Type) where
  id : ServerId
  channels : Settings.Channels
  /-- What a message is stamped with. -/
  stamp : ω → Time.Timestamp
  start : Option ClientId → Event → σ
  publish : ω → Bool → σ → ω × Progress σ (Except Error Unit)
  /-- Hands the relay a message on a channel; it answers at once or is at work. -/
  hand : ω → String → String → ω × (τ ⊕ Except Error Unit)
  relay : ω → τ → ω × Progress τ (Except Error Unit)

namespace Decorated

variable {σ τ : Type}

/-- How the whole goes on after a step of the publisher. -/
def ofPublish : Progress σ (Except Error Unit) → Progress (Decorated σ τ) (Except Error Unit)
  | .blocked => .blocked
  | .moved p => .moved (.publishing p)
  | .done (.error e) => .done (.error e)
  | .done (.ok ()) => .moved .relaying

def ofHand : τ ⊕ Except Error Unit → Progress (Decorated σ τ) (Except Error Unit)
  | .inl q => .moved (.handing q)
  | .inr _ => .done (.ok ())

def ofRelay (p : Progress τ (Except Error Unit)) :
    Progress (Decorated σ τ) (Except Error Unit) :=
  (p.mapState .handing).map fun _ => .ok ()

def afterPublish : Except Error Unit → Decorated σ τ ⊕ Except Error Unit
  | .ok () => .inl .relaying
  | .error e => .inr (.error e)

end Decorated

namespace Decorator

variable {ω σ τ : Type} {d : Decorator ω σ τ} {env : ω → ω → Prop} {w : ω}
  {target : Option ClientId} {event : Event} {e₁ : Errand ω σ (Except Error Unit)}
  {e e' : Errand ω (Decorated σ τ) (Except Error Unit)} {r : Except Error Unit}

def message (d : Decorator ω σ τ) (target : Option ClientId) (event : Event) (w : ω) : String :=
  (Relay.Message.ofEvent d.id target event (d.stamp w)).encode

/-- One step of publishing with the relay behind it. Whatever the relay answers, the publication
has succeeded. -/
def step (d : Decorator ω σ τ) (target : Option ClientId) (event : Event) (w : ω)
    (cancelled : Bool) : Decorated σ τ → ω × Progress (Decorated σ τ) (Except Error Unit)
  | .publishing p => ((d.publish w cancelled p).1, Decorated.ofPublish (d.publish w cancelled p).2)
  | .relaying =>
    if cancelled then (w, .done (.error .cancelled))
    else
      let r := d.hand w d.channels.broadcast (d.message target event w)
      (r.1, Decorated.ofHand r.2)
  | .handing q =>
    if cancelled then (w, .done (.error .cancelled))
    else ((d.relay w q).1, Decorated.ofRelay (d.relay w q).2)

def relayAct (d : Decorator ω σ τ) (w : ω) (_ : Bool) (q : τ) :
    ω × Progress τ (Except Error Unit) := d.relay w q

def alone (d : Decorator ω σ τ) (w : ω) (target : Option ClientId) (event : Event) :
    Errand ω σ (Except Error Unit) := Errand.call d.publish w false (d.start target event)

def decorated (d : Decorator ω σ τ) (w : ω) (target : Option ClientId) (event : Event) :
    Errand ω (Decorated σ τ) (Except Error Unit) :=
  Errand.call (d.step target event) w false (.publishing (d.start target event))

theorem embeds_publish (d : Decorator ω σ τ) (env : ω → ω → Prop)
    (target : Option ClientId)
    (event : Event) : Errand.Embeds (fun _ => True) env d.publish (d.step target event) .publishing
      Decorated.ofPublish Decorated.afterPublish where
  keeps _ _ _ := trivial
  others _ _ _ _ := trivial
  step _ _ _ := rfl
  stage p q := by
    cases q with
    | blocked => rfl
    | moved p' => rfl
    | done r => cases r <;> rfl

theorem embeds_relay (d : Decorator ω σ τ) (env : ω → ω → Prop) (target : Option ClientId)
    (event : Event) : Errand.Embeds (fun _ => True) env d.relayAct (d.step target event) .handing
      Decorated.ofRelay fun _ => .inr (.ok ()) where
  keeps _ _ _ := trivial
  others _ _ _ _ := trivial
  step _ _ _ := rfl
  stage q p := by
    cases p <;> rfl

/-! ## What the relay gets -/

/-- In the first of the strides the relay is handed the message of the event on the broadcast
channel, and in the others it is only waited for. -/
inductive Relays (d : Decorator ω σ τ) (target : Option ClientId) (event : Event) (w : ω) :
    List (Stride ω (Decorated σ τ) (Except Error Unit)) → Prop where
  | intro {t : Stride ω (Decorated σ τ) (Except Error Unit)}
      {rest : List (Stride ω (Decorated σ τ) (Except Error Unit))} (hstate : t.state = .relaying)
      (hbefore : t.before = w)
      (hafter : t.after = (d.hand w d.channels.broadcast (d.message target event w)).1)
      (hrest : ∀ u ∈ rest, ∃ q, u.state = .handing q ∧ u.after = (d.relay u.before q).1) :
      Relays d target event w (t :: rest)

/-- What a decorated publication has done that has come to the result `r`: all that the publisher
does alone in the call `e₁`, and then, if it has succeeded, what the relay does. -/
structure Echoes (d : Decorator ω σ τ) (env : ω → ω → Prop) (w : ω)
    (target : Option ClientId) (event : Event) (e₁ : Errand ω σ (Except Error Unit))
    (relayed : List (Stride ω (Decorated σ τ) (Except Error Unit)))
    (e : Errand ω (Decorated σ τ) (Except Error Unit)) (r : Except Error Unit) : Prop where
  alone : Errand.Run d.publish env (d.alone w target event) e₁
  never : e₁.cancelled = false
  result : e₁.stage = .inr r
  strides : e.strides = e₁.strides.map (Errand.within .publishing Decorated.ofPublish) ++ relayed
  failed : ∀ err, r = .error err → relayed = []
  succeeded : r = .ok () → d.Relays target event e₁.world relayed

inductive Course (d : Decorator ω σ τ) (env : ω → ω → Prop) (w : ω)
    (target : Option ClientId)
    (event : Event) (e : Errand ω (Decorated σ τ) (Except Error Unit)) : Prop where
  | publishing (e₁ : Errand ω σ (Except Error Unit))
      (halone : Errand.Run d.publish env (d.alone w target event) e₁)
      (hfollows : Errand.Follows (fun _ => True) .publishing Decorated.ofPublish
        Decorated.afterPublish [] e₁ e)
  | relayed (e₁ : Errand ω σ (Except Error Unit))
      (halone : Errand.Run d.publish env (d.alone w target event) e₁)
      (hnever : e₁.cancelled = false) (hok : e₁.stage = .inr (.ok ()))
      {relayed : List (Stride ω (Decorated σ τ) (Except Error Unit))}
      (hstrides : e.strides =
        e₁.strides.map (Errand.within .publishing Decorated.ofPublish) ++ relayed)
      (hrelays : d.Relays target event e₁.world relayed) (hcancelled : e.cancelled = false)
      (hstage : e.stage = .inr (.ok ()) ∨ ∃ q, e.stage = .inl (.handing q))

theorem Course.hand (hfollows : Errand.Follows (fun _ => True) .publishing Decorated.ofPublish
      Decorated.afterPublish [] e₁ e)
    (halone : Errand.Run d.publish env (d.alone w target event) e₁)
    (hok : e₁.stage = .inr (.ok ())) :
    d.Course env w target event (e.stride (d.step target event) .relaying) := by
  have hrelays : d.Relays target event e₁.world [e.coming (d.step target event) .relaying] := by
    refine .intro rfl hfollows.world ?_ fun u hu => absurd hu List.not_mem_nil
    show (d.step target event e.world e.cancelled .relaying).1 = _
    rw [hfollows.never.2, hfollows.world]
    rfl
  refine .relayed e₁ halone hfollows.never.1 hok ?_ hrelays hfollows.never.2 ?_
  · rw [Errand.strides_stride, hfollows.strides, List.nil_append]
  · rw [Errand.stage_stride, hfollows.never.2, step, if_neg Bool.false_ne_true]
    dsimp only
    cases (d.hand e.world d.channels.broadcast (d.message target event e.world)).2 with
    | inl q => exact .inr ⟨q, rfl⟩
    | inr answer => exact .inl rfl

theorem Relays.wait {relayed : List (Stride ω (Decorated σ τ) (Except Error Unit))}
    (hrelays : d.Relays target event w relayed) (hcancelled : e.cancelled = false) (q : τ) :
    d.Relays target event w (relayed ++ [e.coming (d.step target event) (.handing q)]) := by
  cases hrelays with
  | @intro t rest hstate hbefore hafter hrest =>
    refine .intro hstate hbefore hafter fun u hu => ?_
    rcases List.mem_append.mp hu with hu | hu
    · exact hrest u hu
    · rw [List.mem_singleton.mp hu]
      refine ⟨q, rfl, ?_⟩
      show (d.step target event e.world e.cancelled (.handing q)).1 = _
      rw [hcancelled]
      rfl

theorem Course.step (hcourse : d.Course env w target event e)
    (hstep : Errand.Step (d.step target event) env e e') (hnever : e'.cancelled = false) :
    d.Course env w target event e' := by
  cases hcourse with
  | publishing e₁ halone hfollows =>
    have hembeds := d.embeds_publish env target event
    cases hstage : e₁.stage with
    | inl p =>
      obtain ⟨e₁', hstep', hfollows'⟩ := hfollows.project hembeds hstep hnever hstage
      exact .publishing e₁' (halone.tail hstep') hfollows'
    | inr r =>
      cases hstep with
      | others w' henv =>
        have henv' : env e₁.world w' := hfollows.world ▸ henv
        exact .publishing _ (halone.tail (.others e₁ w' henv')) (hfollows.meanwhile hembeds henv')
      | cancel => cases hnever
      | stride x hx =>
        have hwhole := hfollows.stage
        rw [hstage, hx] at hwhole
        cases r with
        | error err => cases hwhole
        | ok u =>
          obtain rfl := Sum.inl.inj hwhole
          exact .hand hfollows halone hstage
  | relayed e₁ halone hnever₁ hok hstrides hrelays hcancelled hstage =>
    cases hstep with
    | others w' henv => exact .relayed e₁ halone hnever₁ hok hstrides hrelays hcancelled hstage
    | cancel => cases hnever
    | stride x hx =>
      obtain ⟨q, hq⟩ := hstage.resolve_left (by rw [hx]; intro h; cases h)
      rw [hx] at hq
      obtain rfl := Sum.inl.inj hq
      refine .relayed e₁ halone hnever₁ hok ?_ (hrelays.wait hcancelled q) hcancelled ?_
      · rw [Errand.strides_stride, hstrides, List.append_assoc]
      · rw [Errand.stage_stride, hcancelled, Decorator.step, if_neg Bool.false_ne_true]
        cases (d.relay e.world q).2 with
        | blocked => exact .inr ⟨q, rfl⟩
        | moved q' => exact .inr ⟨q', rfl⟩
        | done answer => exact .inl rfl

theorem course_of_run (hrun : Errand.Run (d.step target event) env (d.decorated w target event) e)
    (hnever : e.cancelled = false) : d.Course env w target event e := by
  induction hrun with
  | refl =>
    have hembeds := d.embeds_publish env target event
    exact .publishing _ .refl (hembeds.follows_call trivial (d.start target event))
  | tail _ hstep ih => exact (ih (hstep.never hnever)).step hstep hnever

/-- A decorated publication whose token is never cancelled comes to what the publisher comes to
alone, and does what it does. -/
theorem echoes_of_run (hrun : Errand.Run (d.step target event) env (d.decorated w target event) e)
    (hnever : e.cancelled = false) (hstage : e.stage = .inr r) :
    ∃ e₁ relayed, d.Echoes env w target event e₁ relayed e r := by
  cases course_of_run hrun hnever with
  | publishing e₁ halone hfollows =>
    have hwhole := hfollows.stage
    rw [hstage] at hwhole
    cases hend : e₁.stage with
    | inl p =>
      rw [hend] at hwhole
      cases hwhole
    | inr r' =>
      rw [hend] at hwhole
      cases r' with
      | ok u => cases hwhole
      | error err =>
        obtain rfl := Sum.inr.inj hwhole
        refine ⟨e₁, [], halone, hfollows.never.1, hend, ?_, fun _ _ => rfl, fun h => ?_⟩
        · rw [hfollows.strides, List.nil_append, List.append_nil]
        · cases h
  | relayed e₁ halone hnever₁ hok hstrides hrelays hcancelled hend =>
    rw [hstage] at hend
    obtain rfl := Sum.inr.inj (hend.resolve_right fun h => by cases h.choose_spec)
    refine ⟨e₁, _, halone, hnever₁, hok, hstrides, fun err h => ?_, fun _ => hrelays⟩
    cases h

/-! ## What the publisher can do alone -/

def Answers (d : Decorator ω σ τ) (env : ω → ω → Prop) : Prop :=
  ∀ w q, ∃ e' : Errand ω τ (Except Error Unit),
    Errand.Run d.relayAct env ⟨w, .inl q, false, [], []⟩ e' ∧ e'.cancelled = false ∧
      ∃ answer, e'.stage = .inr answer

/-- A publication that has succeeded is a success with the relay behind it. -/
theorem Answers.relaying_ends (hanswers : d.Answers env) (target : Option ClientId) (event : Event)
    (hstage : e.stage = .inl .relaying) (hnever : e.cancelled = false) :
    ∃ e', Errand.Run (d.step target event) env e e' ∧ e'.cancelled = false ∧
      e'.stage = .inr (.ok ()) := by
  have hstep : Errand.Step (d.step target event) env e (e.stride (d.step target event) .relaying) :=
    .stride e _ hstage
  have hnever' : (e.stride (d.step target event) .relaying).cancelled = false := hnever
  have hstage' : (e.stride (d.step target event) .relaying).stage =
      (Decorated.ofHand (d.hand e.world d.channels.broadcast
        (d.message target event e.world)).2).stage .relaying := by
    rw [Errand.stage_stride, hnever]
    rfl
  generalize e.stride (d.step target event) .relaying = e' at hstep hstage' hnever'
  generalize (d.hand e.world d.channels.broadcast (d.message target event e.world)).2 = answer
    at hstage'
  cases answer with
  | inr answer => exact ⟨e', .single hstep, hnever', hstage'⟩
  | inl q =>
    obtain ⟨f, hrun, hcancelled, answer, hend⟩ := hanswers e'.world q
    have hwaits : Errand.Follows (fun _ => True) .handing Decorated.ofRelay
        (fun _ => .inr (.ok ())) e'.strides ⟨e'.world, .inl q, false, [], []⟩ e' :=
      ⟨trivial, rfl, hstage', ⟨rfl, hnever'⟩, (List.append_nil _).symm⟩
    obtain ⟨e₂, hrun₂, hfollows⟩ :=
      hwaits.lift (d.embeds_relay env target event) hrun hcancelled
    refine ⟨e₂, .head hstep hrun₂, hfollows.never.2, ?_⟩
    rw [hfollows.stage, hend]
    rfl

/-- Whatever the publisher comes to alone, it comes to with a relay behind it that answers. -/
theorem Answers.exists_run_of_alone (hanswers : d.Answers env)
    (halone : Errand.Run d.publish env (d.alone w target event) e₁)
    (hnever : e₁.cancelled = false) (hresult : e₁.stage = .inr r) :
    ∃ e, Errand.Run (d.step target event) env (d.decorated w target event) e ∧
      e.cancelled = false ∧ e.stage = .inr r ∧
      e₁.strides.map (Errand.within .publishing Decorated.ofPublish) <+: e.strides := by
  have hembeds := d.embeds_publish env target event
  obtain ⟨e, hrun, hfollows⟩ :=
    (hembeds.follows_call trivial (d.start target event)).lift hembeds halone hnever
  have hstage := hfollows.stage
  have hstrides := hfollows.strides
  rw [hresult] at hstage
  rw [List.nil_append] at hstrides
  cases r with
  | error err => exact ⟨e, hrun, hfollows.never.2, hstage, hstrides ▸ List.prefix_rfl⟩
  | ok u =>
    obtain ⟨e', hrun', hnever', hend⟩ :=
      hanswers.relaying_ends target event hstage hfollows.never.2
    exact ⟨e', hrun.trans hrun', hnever', hend, hstrides ▸ hrun'.strides_prefix⟩

end Decorator

end EventHub
