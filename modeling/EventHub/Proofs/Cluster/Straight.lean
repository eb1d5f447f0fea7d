import EventHub.Proofs.Cluster.Addressed
/-!
# Calls that do not have to wait

A call that finds all it needs goes on to its end, whatever others would do if they were let. So
does a publication whose frame finds room in every outbox that is to have it.
-/

namespace EventHub

/-! ## Steps on end -/

namespace Errand

variable {ω σ τ α β : Type} {act : ω → Bool → σ → ω × Progress σ α}
  {act' : ω → Bool → τ → ω × Progress τ β} {env : ω → ω → Prop}
  {e e₁ e₂ : Errand ω σ α}

/-- So many steps of a call on end, none of which has to wait. -/
inductive Straight (act : ω → Bool → σ → ω × Progress σ α) :
    Nat → Errand ω σ α → Errand ω σ α → Prop where
  | refl (e : Errand ω σ α) : Straight act 0 e e
  | stride {n : Nat} {e e₁ : Errand ω σ α} {x : σ} (hstage : e.stage = .inl x)
      (hmoves : (act e.world e.cancelled x).2.isBlocked = false)
      (hrest : Straight act n (e.stride act x) e₁) :
      Straight act (n + 1) e e₁

theorem Straight.trans {n n' : Nat} (hstraight : Straight act n e e₁)
    (hstraight' : Straight act n' e₁ e₂) : Straight act (n + n') e e₂ := by
  induction hstraight with
  | refl e => rwa [Nat.zero_add]
  | stride hstage hmoves _ ih =>
    rw [Nat.add_right_comm]
    exact .stride hstage hmoves (ih hstraight')

theorem exists_straight {w : ω} {x : σ} {p : Progress σ α} (hstage : e.stage = .inl x)
    (hnever : e.cancelled = false) (hstep : act e.world false x = (w, p))
    (hp : p.isBlocked = false) :
    ∃ e₁, Straight act 1 e e₁ ∧ e₁.world = w ∧ e₁.stage = p.stage x ∧
      e₁.cancelled = false ∧
      e₁.strides = e.strides ++ [⟨e.world, x, false, w, p⟩] := by
  have hcoming : e.coming act x = ⟨e.world, x, false, w, p⟩ := by
    rw [coming, hnever, hstep]
  rw [← hnever] at hstep
  refine ⟨e.stride act x, .stride hstage ?_ (.refl _), ?_, ?_, hnever, ?_⟩
  · rwa [hstep]
  · rw [world_stride, hstep]
  · rw [stage_stride, hstep]
  · rw [← hcoming]
    rfl

theorem Straight.run {n : Nat} (hstraight : Straight act n e e₁) : Run act env e e₁ := by
  induction hstraight with
  | refl e => exact .refl
  | stride hstage hmoves _ ih => exact .head (.stride _ _ hstage) ih

theorem Straight.after_call {n : Nat} {w : ω} {cancelled : Bool} {x : σ}
    (hstraight : Straight act (n + 1) ⟨w, .inl x, cancelled, [], []⟩ e) :
    Straight act n (call act w cancelled x) e := by
  cases hstraight with
  | stride hstage hmoves hrest =>
    obtain rfl := Sum.inl.inj hstage
    exact hrest

/-- Without waiting, the second step finds what the first one has left. -/
theorem Straight.exists_second {n : Nat} {w : ω} {cancelled : Bool} {x : σ}
    (hstraight : Straight act (n + 2) ⟨w, .inl x, cancelled, [], []⟩ e) :
    ∃ t, e.strides[1]? = some t ∧ t.before = (act w cancelled x).1 := by
  cases hstraight.after_call with
  | @stride _ _ _ y hstage hmoves hrest =>
    have hrun : Run act (fun _ _ => False) _ e := hrest.run
    obtain ⟨later, hlater⟩ := hrun.strides_prefix
    exact ⟨(call act w cancelled x).coming act y, by rw [← hlater]; rfl, rfl⟩

/-- What an inner call does without waiting, the outer call does. -/
theorem Straight.lift {P : ω → Prop} {f : σ → τ} {k : Progress σ α → Progress τ β}
    {h : α → τ ⊕ β} {earlier : List (Stride ω τ β)} {n : Nat} {d : Errand ω τ β}
    (hembeds : Embeds P env act act' f k h) (hk : ∀ p, (k p).isBlocked = p.isBlocked)
    (hstraight : Straight act n e e₁) (hfollows : Follows P f k h earlier e d) :
    ∃ d₁, Straight act' n d d₁ ∧ Follows P f k h earlier e₁ d₁ := by
  induction hstraight generalizing d with
  | refl e => exact ⟨d, .refl d, hfollows⟩
  | @stride n e e₁ x hstage hmoves hrest ih =>
    obtain ⟨d₁, hstraight₁, hfollows₁⟩ := ih (hfollows.stride hembeds x)
    refine ⟨d₁, .stride (x := f x) ?_ ?_ hstraight₁, hfollows₁⟩
    · rw [hfollows.stage, hstage]
      rfl
    · rw [hfollows.world, hfollows.never.2, hembeds.step e.world x hfollows.holds]
      rw [hfollows.never.1] at hmoves
      exact (hk _).trans hmoves

end Errand

/-! ## Outboxes with room -/

namespace Outbox

/-- A frame is taken at once. -/
structure HasRoom (o : Outbox) : Prop where
  disposed : o.disposed = false
  line : o.line = []
  receiver : o.receiverGone = false
  sender : o.senderGone = false
  room : o.queue.length < o.capacity

theorem HasRoom.start_eq {o : Outbox} (hroom : o.HasRoom) (now : Nat) (frame : String) :
    ∃ o', o.start now frame = (o', some (.ok ())) ∧ o'.queue = o.queue ++ [frame] := by
  rw [start_of_not_disposed hroom.disposed]
  have hline : (o.enter frame).line = [⟨o.nextTurn, frame, none⟩] := by
    rw [enter, hroom.line, List.nil_append]
  exact ⟨_, resume_first now hline hroom.sender hroom.receiver hroom.room, rfl⟩

end Outbox

namespace Cluster

variable {c c₁ : Cluster} {s h : Nat} {server : Server} {target : Option ClientId} {event : Event}

def HasRoom (c : Cluster) (h : Nat) : Prop :=
  ∃ x o, c.connection? h = some x ∧ x.live = true ∧ x.writer = .outbox o ∧ o.HasRoom

theorem HasRoom.stepSend (hroom : c.HasRoom h) (frame : String) :
    (c.stepSend false ⟨h, frame, .fresh⟩).2 = .done (.ok ()) ∧
      news c (c.stepSend false ⟨h, frame, .fresh⟩).1 h = [frame] := by
  obtain ⟨x, o, hx, hlive, ho, hroom⟩ := hroom
  obtain ⟨o', hstart, hqueue⟩ := hroom.start_eq c.now frame
  have hsend : x.stepSend c.now false frame .fresh =
      ({ x with writer := .outbox o' }, .done (.ok ())) := by
    simp only [Connection.stepSend, hlive, Bool.not_true, Bool.false_eq_true, if_false, ho,
      Writer.start, hstart]
    rfl
  rw [stepSend_some (s := ⟨h, frame, .fresh⟩) hx, hsend]
  refine ⟨rfl, news_of_found hx ((connection?_setConnection hx _ h).trans (if_pos rfl)) ?_⟩
  rw [Connection.held, Connection.held, ho]
  exact hqueue

theorem isBlocked_stepSend (c : Cluster) (h : Nat) (frame : String) :
    (c.stepSend false ⟨h, frame, .fresh⟩).2.isBlocked = false := by
  cases hx : c.connection? h with
  | none =>
    rw [stepSend_none (s := ⟨h, frame, .fresh⟩) hx]
    rfl
  | some x =>
    rw [stepSend_some (s := ⟨h, frame, .fresh⟩) hx, Connection.stepSend]
    split
    · rfl
    · rw [if_neg Bool.false_ne_true]
      generalize x.writer.start c.now frame = p
      obtain ⟨w, s | r⟩ := p <;> rfl

/-! ## Deliveries -/

def firstLook (c : Cluster) (s : Nat) (target : Option ClientId) (event : Event) :
    Cluster × List Slot × Bool :=
  c.stepSlots false (c.slotsOf s target event)

theorem firstLook_severally (hlocated : Located s c) (target : Option ClientId) (event : Event) :
    Severally Slot.handle (pollSlot false) c (c.slotsOf s target event)
      (c.firstLook s target event) := by
  have hhandles : (c.slotsOf s target event).map Slot.handle =
      (c.audience s target).map (·.handle) := by
    rw [slotsOf, List.map_map]
    rfl
  rw [firstLook, stepSlots_eq]
  exact pollAll_severally (private_pollSlot false)
    (hhandles ▸ (nodup_targets_of_located hlocated target).sublist (List.filter_sublist.map _)) c

theorem news_firstLook (hlocated : Located s c) {m : Member} (hm : m ∈ c.audience s target)
    (hroom : c.HasRoom m.handle) :
    news c (c.firstLook s target event).1 m.handle = [event.frame] := by
  have hpolled := (firstLook_severally hlocated target event).polled
    (.sending ⟨m.handle, event.frame, .fresh⟩) (List.mem_map_of_mem hm)
  have hsent := (hroom.stepSend event.frame).2
  rw [news, held, held] at hsent ⊢
  exact hpolled ▸ hsent

theorem ended_firstLook (hlocated : Located s c)
    (hroom : ∀ m ∈ c.audience s target, c.HasRoom m.handle) :
    (c.firstLook s target event).2.1 =
      (c.audience s target).map fun m => .ended m.handle (.ok ()) := by
  rw [(firstLook_severally hlocated target event).entries_eq, slotsOf, List.map_map]
  refine List.map_congr_left fun m hm => ?_
  simp only [Function.comp_apply, pollSlot, (hroom m hm).stepSend event.frame |>.1]
  rfl

theorem moved_firstLook (hlocated : Located s c) (hsome : c.audience s target ≠ []) :
    (c.firstLook s target event).2.2 = true := by
  obtain ⟨m, hm⟩ := List.exists_mem_of_ne_nil _ hsome
  rw [(firstLook_severally hlocated target event).moved_eq, List.any_eq_true]
  refine ⟨.sending ⟨m.handle, event.frame, .fresh⟩, List.mem_map_of_mem hm, ?_⟩
  rw [pollSlot, isBlocked_stepSend]
  rfl

theorem isBlocked_afterLook {r : Cluster × List Slot × Bool} (hmoved : r.2.2 = true) :
    (Delivery.afterLook r).isBlocked = false := by
  rw [Delivery.afterLook, if_pos hmoved]
  split
  · split <;> rfl
  · rfl

theorem afterLook_of_ok {r : Cluster × List Slot × Bool} {ms : List Member}
    (hended : r.2.1 = ms.map fun m => .ended m.handle (.ok ())) :
    Delivery.afterLook r = .moved (.pruning ⟨none, []⟩) := by
  have hall : r.2.1.all Slot.isEnded = true := by
    rw [hended, List.all_map, List.all_eq_true]
    exact fun m _ => rfl
  have hfailed : r.1.failedOf r.2.1 = .ok [] := by
    rw [hended]
    clear hended hall
    induction ms with
    | nil => rfl
    | cons m ms ih => exact ih
  rw [Delivery.afterLook, if_pos hall, hfailed]

/-- A delivery begins without waiting, and whoever has room then has the frame. When all have room,
it does not wait at all. -/
theorem deliver_straight (hlocated : Located s c) (target : Option ClientId) (event : Event) :
    ∃ n e, 1 ≤ n ∧ n ≤ 3 ∧ Errand.Straight (deliver s) n
        (⟨c, .inl (.fresh target event), false, [], []⟩ : DeliveryErrand) e ∧
      (∀ m ∈ c.audience s target, c.HasRoom m.handle →
        framesIn e.strides m.handle = [event.frame]) ∧
      ((∀ m ∈ c.audience s target, c.HasRoom m.handle) → e.stage = .inr (.ok ())) := by
  let begins : DeliveryErrand := ⟨c, .inl (.fresh target event), false, [], []⟩
  have hfresh := deliver_fresh s c false target event
  rw [if_neg Bool.false_ne_true] at hfresh
  by_cases hnobody : (c.audience s target).isEmpty
  · rw [if_pos hnobody] at hfresh
    obtain ⟨e₁, hfirst, _, hstage₁, _⟩ :=
      Errand.exists_straight (e := begins) rfl rfl hfresh rfl
    refine ⟨1, e₁, by decide, by decide, hfirst, fun m hm => ?_, fun _ => hstage₁⟩
    rw [List.isEmpty_iff.mp hnobody] at hm
    cases hm
  · rw [if_neg hnobody] at hfresh
    have hlook : deliver s c false (.sending (c.slotsOf s target event)) =
        ((c.firstLook s target event).1, Delivery.afterLook (c.firstLook s target event)) :=
      stepDelivery_sending c s _
    have hmoved : (c.firstLook s target event).2.2 = true :=
      moved_firstLook hlocated fun hnil => hnobody (List.isEmpty_iff.mpr hnil)
    obtain ⟨e₁, hfirst, hworld₁, hstage₁, hnever₁, hstrides₁⟩ :=
      Errand.exists_straight (e := begins) rfl rfl hfresh rfl
    obtain ⟨e₂, hsecond, hworld₂, hstage₂, hnever₂, hstrides₂⟩ :=
      Errand.exists_straight hstage₁ hnever₁ (by rw [hworld₁]; exact hlook)
        (isBlocked_afterLook hmoved)
    have hframes (m : Member) (hm : m ∈ c.audience s target) (hroom : c.HasRoom m.handle) :
        framesIn e₂.strides m.handle = [event.frame] := by
      rw [hstrides₂, framesIn_concat, hstrides₁,
        framesIn_of_still (by simp [begins]), hworld₁]
      exact news_firstLook hlocated hm hroom
    by_cases hall : ∀ m ∈ c.audience s target, c.HasRoom m.handle
    · rw [afterLook_of_ok (ended_firstLook hlocated hall)] at hstage₂
      have hprune : deliver s e₂.world false (.pruning ⟨none, []⟩) =
        (e₂.world, .done (.ok ())) := rfl
      obtain ⟨e₃, hthird, hworld₃, hstage₃, _, hstrides₃⟩ :=
        Errand.exists_straight hstage₂ hnever₂ hprune rfl
      refine ⟨3, e₃, by decide, by decide, (hfirst.trans hsecond).trans hthird,
        fun m hm hroom => ?_, fun _ => hstage₃⟩
      rw [hstrides₃, framesIn_concat, hframes m hm hroom, news_self, List.append_nil]
    · exact ⟨2, e₂, by decide, by decide, hfirst.trans hsecond, hframes,
        fun hroom => absurd hroom hall⟩

/-! ## Publications -/

theorem isBlocked_goingOn (target : Option ClientId) (event : Event) (relays : Bool)
    (p : Progress Delivery (Except Error Unit)) :
    (Publication.goingOn target event relays p).isBlocked = p.isBlocked := by
  obtain _ | d | ⟨e | _⟩ := p
  · rfl
  · rfl
  · rfl
  · cases relays <;> rfl

/-- A publication begins without waiting, and whoever has room then has the frame. When all have
room, it does not wait at all. -/
theorem publicize_straight (horder : InOrder s server c) (hjournal : server.journal = none)
    (target : Option ClientId) (event : Event) :
    ∃ n e, n ≤ 3 ∧ Errand.Straight (publicize s) (n + 2)
        (⟨c, .inl (.ofEvent target event), false, [], []⟩ : PublicationErrand) e ∧
      (∀ m, Hears c s target m → c.HasRoom m.handle →
        framesIn e.strides m.handle = [event.frame]) ∧
      ((∀ m, Hears c s target m → c.HasRoom m.handle) → e.stage = .inr (.ok ())) := by
  let relays := (c.server? s).any Server.relays
  let begins : PublicationErrand := ⟨c, .inl (.ofEvent target event), false, [], []⟩
  have hears {m : Member} : m ∈ c.audience s target ↔ Hears c s target m :=
    mem_audience_of_agrees horder.agrees
  obtain ⟨e₁, hfirst, hworld₁, hstage₁, hnever₁, hstrides₁⟩ :=
    Errand.exists_straight (e := begins) rfl rfl
      (publicize_fresh horder.server hjournal target event) rfl
  obtain ⟨n, d, hpos, hn, hstraight, hframes, hend⟩ :=
    deliver_straight horder.toLocated target event
  obtain ⟨n, rfl⟩ : ∃ k, n = k + 1 := ⟨n - 1, by omega⟩
  have hfollows₁ : Errand.Follows (PassesOn s relays) (Publication.ofDelivery target event)
      (Publication.goingOn target event relays) (Publication.afterDelivery target event relays)
      e₁.strides ⟨c, .inl (.fresh target event), false, [], []⟩ e₁ :=
    ⟨rfl, hworld₁, hstage₁, ⟨rfl, hnever₁⟩, (List.append_nil _).symm⟩
  obtain ⟨e₂, hdelivers, hfollows⟩ := hstraight.lift (embeds_ofDelivery s target event relays)
    (isBlocked_goingOn target event relays) hfollows₁
  have hsofar : Errand.Straight (publicize s) (n + 2) begins e₂ := by
    rw [show n + 2 = 1 + (n + 1) by omega]
    exact hfirst.trans hdelivers
  have hframes₂ (m : Member) (hm : Hears c s target m) (hroom : c.HasRoom m.handle) :
      framesIn e₂.strides m.handle = [event.frame] := by
    rw [hfollows.strides, framesIn_append, framesIn_within, hframes m (hears.mpr hm) hroom,
      hstrides₁, framesIn_of_still (by simp [begins]), List.nil_append]
  by_cases hall : ∀ m, Hears c s target m → c.HasRoom m.handle
  · have hstage₂ := hfollows.stage
    rw [hend fun m hm => hall m (hears.mp hm)] at hstage₂
    cases hrelays : relays with
    | false =>
      rw [hrelays] at hstage₂
      exact ⟨n, e₂, by omega, hsofar, hframes₂, fun _ => hstage₂⟩
    | true =>
      rw [hrelays] at hstage₂
      obtain ⟨w, hlast, hconnections⟩ := publicize_relaying e₂.world s target event
      obtain ⟨e₃, hrelayed, _, hstage₃, _, hstrides₃⟩ :=
        Errand.exists_straight hstage₂ hfollows.never.2 hlast rfl
      refine ⟨n + 1, e₃, by omega, hsofar.trans hrelayed, fun m hm hroom => ?_,
        fun _ => hstage₃⟩
      rw [hstrides₃, framesIn_concat, hframes₂ m hm hroom, news_of_untouched, List.append_nil]
      rw [connection?, connection?, hconnections]
  · exact ⟨n, e₂, by omega, hsofar, hframes₂, fun hroom => absurd hroom hall⟩

/-- A publication that does not wait looks the connections up as it finds them. -/
theorem publicize_second (hserver : c.server? s = some server) (hjournal : server.journal = none)
    {n : Nat} {e : PublicationErrand} (hstraight : Errand.Straight (publicize s) (n + 2)
      ⟨c, .inl (.ofEvent target event), false, [], []⟩ e) :
    ∃ t, e.strides[1]? = some t ∧ t.before = c := by
  obtain ⟨t, hsecond, hbefore⟩ := hstraight.exists_second
  rw [publicize_fresh hserver hjournal] at hbefore
  exact ⟨t, hsecond, hbefore⟩

end Cluster

end EventHub
