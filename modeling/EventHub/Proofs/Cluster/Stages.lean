import EventHub.Cluster.Publishing
import EventHub.Proofs.Cluster.Servers
/-!
# Stages of a delivery

How far a server has come with the delivery of one event to its own connections, and what the
delivery has written by then. A step keeps account: what a connection accepts in it is what the
delivery has written since.
-/

namespace EventHub.Cluster

inductive Stage where
  /-- The targets are not determined yet. -/
  | waiting (target : Option ClientId) (event : Event)
  | sending (slots : List Slot)
  /-- Every send has ended. -/
  | ended

def Delivery.stage : Delivery → Stage
  | .fresh target event => .waiting target event
  | .sending slots => .sending slots
  | .pruning _ => .ended

def LocalPublish.stage : LocalPublish → Stage
  | .fresh target event => .waiting target event
  | .delivering d => d.stage

def stageAfter {σ : Type} (stage : σ → Stage) (state : σ) :
    Progress σ (Except Error Unit) → Stage
  | .blocked => stage state
  | .moved state => stage state
  | .done _ => .ended

namespace Stage

variable {u : Setup} {c c' : Cluster} {s : Nat} {target : Option ClientId} {e : Event}

/-- The delivery is one of the event to connections of the server `s`. -/
def Ok (u : Setup) (c : Cluster) (s : Nat) (target : Option ClientId) (e : Event) : Stage → Prop
  | waiting target' e' => target' = target ∧ e' = e
  | sending slots => (slots.map Slot.handle).Nodup ∧
      ∀ slot ∈ slots, SlotOk c e.frame slot ∧ u.home slot.handle = s
  | ended => True

theorem Ok.later {stage : Stage} (hok : stage.Ok u c s target e) (hlater : Later c c') :
    stage.Ok u c' s target e := by
  cases stage with
  | waiting target' e' => exact hok
  | sending slots =>
    exact ⟨hok.1,
      fun slot hslot => ⟨(hok.2 slot hslot).1.later hlater, (hok.2 slot hslot).2⟩⟩
  | ended => trivial

def Accounts (frame : String) (h : Nat) (frames : List String) : Stage → Prop
  | waiting .. => frames = []
  | sending slots => frames = taken slots frame h
  | ended => frames = [] ∨ frames = [frame]

/-- The delivery will write to the connection, unless it has done so or the write fails. -/
def Owes (frame : String) (h : Nat) (frames : List String) : Stage → Prop
  | waiting .. => True
  | sending slots => h ∈ slots.map Slot.handle
  | ended => frames = [frame]

theorem Accounts.length_le {stage : Stage} {frame : String} {h : Nat} {frames : List String}
    (haccounts : stage.Accounts frame h frames) (hok : stage.Ok u c s target e) :
    frames = [] ∨ frames = [frame] := by
  cases stage with
  | waiting target' e' => exact Or.inl haccounts
  | sending slots =>
    rw [show frames = taken slots frame h from haccounts]
    exact taken_length_le hok.1 frame h
  | ended => exact haccounts

structure Advances (u : Setup) (s : Nat) (target : Option ClientId) (e : Event) (c : Cluster)
    (stage : Stage) (c' : Cluster) (stage' : Stage) : Prop where
  effect : Effect u c c'
  ok : stage'.Ok u c' s target e
  elsewhere : ∀ h, u.home h ≠ s → news c c' h = []
  accounts : ∀ h frames, stage.Accounts e.frame h frames →
    stage'.Accounts e.frame h (frames ++ news c c' h)
  owes : ∀ h frames, u.home h = s → Present u c target h → Present u c' target h →
    stage.Accounts e.frame h frames → stage.Owes e.frame h frames →
    stage'.Owes e.frame h (frames ++ news c c' h)

/-- A connection accepts the frame in a step only if it has not done so before. -/
theorem Advances.news_cases {stage stage' : Stage} {h : Nat} {frames : List String}
    (hadvances : Advances u s target e c stage c' stage')
    (haccounts : stage.Accounts e.frame h frames) :
    news c c' h = [] ∨ frames = [] ∧ news c c' h = [e.frame] := by
  have hlength := (hadvances.accounts h frames haccounts).length_le hadvances.ok
  cases frames with
  | nil => simpa using hlength
  | cons frame frames => simp_all

/-- What the connections accept in a step is the frame, on the server of the delivery. -/
theorem Advances.mem_news {stage stage' : Stage} {h : Nat} {frame : String}
    {frames : Nat → List String} (hadvances : Advances u s target e c stage c' stage')
    (haccounts : ∀ h, u.home h = s → stage.Accounts e.frame h (frames h))
    (hframe : frame ∈ news c c' h) : u.home h = s ∧ frame = e.frame := by
  have hhome : u.home h = s := by
    by_contra hne
    rw [hadvances.elsewhere h hne] at hframe
    cases hframe
  refine ⟨hhome, ?_⟩
  rcases hadvances.news_cases (haccounts h hhome) with hnil | ⟨_, hone⟩
  · rw [hnil] at hframe
    cases hframe
  · rw [hone] at hframe
    exact List.mem_singleton.mp hframe

theorem Advances.stay {stage : Stage} (hgood : Good u c) (hok : stage.Ok u c s target e) :
    Advances u s target e c stage c stage :=
  ⟨Effect.refl hgood, hok, fun h _ => news_self c h,
    fun h frames haccounts => by rwa [news_self, List.append_nil],
    fun h frames _ _ _ _ howes => by rwa [news_self, List.append_nil]⟩

end Stage

open Stage

variable {u : Setup} {c : Cluster} {s : Nat} {target : Option ClientId} {e : Event}

/-- A step in which no send gets on leaves the sends as they are. -/
theorem stepSlots_stay (cancelled : Bool) {slots : List Slot} (c : Cluster)
    (hmoved : (c.stepSlots cancelled slots).2.2 = false) :
    (c.stepSlots cancelled slots).2.1 = slots := by
  induction slots generalizing c with
  | nil => rfl
  | cons slot rest ih =>
    match slot with
    | .ended h r =>
      rw [stepSlots] at hmoved ⊢
      exact congrArg _ (ih c hmoved)
    | .sending send =>
      rw [stepSlots] at hmoved ⊢
      generalize c.stepSend cancelled send = p at hmoved ⊢
      obtain ⟨c', _ | send' | r⟩ := p
      · exact congrArg _ (ih c' hmoved)
      · cases hmoved
      · cases hmoved

/-! ## Steps -/

/-- The targets are determined: the live ones each get a send. -/
theorem advances_fresh (hgood : Good u c) :
    Advances u s target e c (.waiting target e) (c.stepDelivery false s (.fresh target e)).1
      (stageAfter Delivery.stage (.fresh target e)
        (c.stepDelivery false s (.fresh target e)).2) := by
  have hnodup := nodup_targets hgood s target
  have hpresent : ∀ h, u.home h = s → Present u c target h →
      h ∈ ((c.targets s target).filter fun m => c.isLive m.handle).map (·.handle) := by
    rintro h rfl hpresent
    exact mem_targets_of_present hgood hpresent
  have hhome : ∀ m ∈ (c.targets s target).filter fun m => c.isLive m.handle,
      u.home m.handle = s ∧ ∃ x, c.connection? m.handle = some x := by
    intro m hm
    obtain ⟨hhome, x, hx, _⟩ :=
      hgood.members s m ((mem_targets hgood).mp (List.mem_filter.mp hm).1).1
    exact ⟨hhome, x, hx⟩
  have hsublist := (List.filter_sublist (p := fun m => c.isLive m.handle)
    (l := c.targets s target)).map (·.handle)
  simp only [stepDelivery, Bool.false_eq_true, if_false]
  split
  · next hempty =>
    refine ⟨Effect.refl hgood, trivial, fun h _ => news_self c h, ?_, ?_⟩
    · intro h frames haccounts
      rw [news_self, List.append_nil]
      exact Or.inl haccounts
    · intro h frames hs hpresent' _ _ _
      have hmem := hpresent h hs hpresent'
      rw [List.isEmpty_iff.mp hempty] at hmem
      cases hmem
  · generalize (c.targets s target).filter (fun m => c.isLive m.handle) = live at *
    have hhandles :
        (live.map fun m => Slot.sending ⟨m.handle, e.frame, .fresh⟩).map Slot.handle =
        live.map (·.handle) := by
      rw [List.map_map]
      rfl
    refine ⟨Effect.refl hgood, ⟨?_, ?_⟩, fun h _ => news_self c h, ?_, ?_⟩
    · rw [hhandles]
      exact hnodup.sublist hsublist
    · intro slot hslot
      obtain ⟨m, hm, rfl⟩ := List.mem_map.mp hslot
      obtain ⟨hhome, x, hx⟩ := hhome m hm
      exact ⟨⟨x, hx, rfl, trivial⟩, hhome⟩
    · intro h frames haccounts
      rw [news_self, List.append_nil, show frames = [] from haccounts]
      refine (List.map_eq_nil_iff.mpr (List.filter_eq_nil_iff.mpr fun slot hslot => ?_)).symm
      obtain ⟨m, hm, rfl⟩ := List.mem_map.mp hslot
      simp [Slot.succeeded]
    · intro h frames hs hpresent' _ _ _
      change h ∈ (live.map _).map Slot.handle
      rw [hhandles]
      exact hpresent h hs hpresent'

theorem advances_sending (hgood : Good u c) {slots : List Slot}
    (hok : Stage.Ok u c s target e (.sending slots)) :
    Advances u s target e c (.sending slots) (c.stepDelivery false s (.sending slots)).1
      (stageAfter Delivery.stage (.sending slots)
        (c.stepDelivery false s (.sending slots)).2) := by
  obtain ⟨hnodup, hslots⟩ := hok
  obtain ⟨hothers, hsound, hlater, hhandles, hoks, huntouched, htaken⟩ :=
    stepSlots_spec hgood.sound hnodup fun slot hslot => (hslots slot hslot).1
  have hstay : (c.stepSlots false slots).2.2 = false → (c.stepSlots false slots).2.1 = slots :=
    stepSlots_stay false c
  simp only [stepDelivery, Bool.false_eq_true, if_false]
  generalize c.stepSlots false slots = p at *
  obtain ⟨c', slots', moved⟩ := p
  dsimp only at *
  have hnodup' : (slots'.map Slot.handle).Nodup := hhandles ▸ hnodup
  have hhome : ∀ h ∈ slots.map Slot.handle, u.home h = s := by
    intro h hh
    obtain ⟨slot, hslot, rfl⟩ := List.mem_map.mp hh
    exact (hslots slot hslot).2
  have hgood' : Good u c' := by
    rw [hothers]
    refine ⟨hgood.ids, hgood.plain, hgood.agrees, fun i m hm => ?_, hothers ▸ hsound⟩
    obtain ⟨hm, x, hx, hid, hclient⟩ := hgood.members i m hm
    obtain ⟨x', hx', hconnection⟩ := hlater _ x hx
    exact ⟨hm, x', hx', hconnection.id_eq.trans hid, hconnection.client_eq.trans hclient⟩
  have heffect : Effect u c c' := ⟨hgood', hlater, by rw [hothers], by rw [hothers]⟩
  have helsewhere : ∀ h, u.home h ≠ s → news c c' h = [] :=
    fun h hh => news_of_untouched (huntouched h fun hmem => hh (hhome h hmem))
  have hoks' : Stage.Ok u c' s target e (.sending slots') := by
    refine ⟨hnodup', fun slot hslot => ⟨hoks slot hslot, hhome _ ?_⟩⟩
    rw [← hhandles]
    exact List.mem_map_of_mem hslot
  have hadvances : Advances u s target e c (.sending slots) c' (.sending slots') := by
    refine ⟨heffect, hoks', helsewhere, fun h frames haccounts => ?_,
      fun h frames _ _ _ _ howes => ?_⟩
    · rw [show frames = taken slots e.frame h from haccounts]
      exact (htaken h).symm
    · change h ∈ slots'.map Slot.handle
      rwa [hhandles]
  split
  · next hended =>
    -- Every send has ended, so a connection that is still live has taken the frame.
    have hover : Advances u s target e c (.sending slots) c' .ended := by
      refine ⟨heffect, trivial, helsewhere, fun h frames haccounts => ?_,
        fun h frames _ _ hpresent haccounts howes => ?_⟩
      · exact (hadvances.accounts h frames haccounts).length_le hoks'
      · obtain ⟨x, m, hx, hlive, _⟩ := hpresent
        have hlive' : c'.isLive h = true := by simpa [isLive, hx] using hlive
        have htaken' := taken_of_ended hnodup' hoks hended (hhandles ▸ howes) hlive'
        exact (hadvances.accounts h frames haccounts).trans htaken'
    split <;> exact hover
  · split
    · exact hadvances
    · next hmoved =>
      rw [hstay (by simpa using hmoved)] at hadvances
      exact hadvances

theorem advances_pruning (hgood : Good u c) (r : Removals) :
    Advances u s target e c .ended (c.stepDelivery false s (.pruning r)).1
      (stageAfter Delivery.stage (.pruning r) (c.stepDelivery false s (.pruning r)).2) := by
  have hsilent := silent_stepRemovals hgood s r
  have hover : Advances u s target e c .ended (c.stepRemovals s r).1 .ended :=
    ⟨hsilent.toEffect, trivial, fun h _ => hsilent.news_eq h,
      fun h frames haccounts => by rwa [hsilent.news_eq, List.append_nil],
      fun h frames _ _ _ _ howes => by rwa [hsilent.news_eq, List.append_nil]⟩
  simp only [stepDelivery]
  generalize c.stepRemovals s r = p at hover
  obtain ⟨c', _ | r' | result⟩ := p <;> exact hover

theorem stepDelivery_advances (hgood : Good u c) {d : Delivery}
    (hok : d.stage.Ok u c s target e) :
    Advances u s target e c d.stage (c.stepDelivery false s d).1
      (stageAfter Delivery.stage d (c.stepDelivery false s d).2) := by
  cases d with
  | fresh target' e' =>
    obtain ⟨rfl, rfl⟩ := hok
    exact advances_fresh hgood
  | sending slots => exact advances_sending hgood hok
  | pruning r => exact advances_pruning hgood r

theorem stepLocal_advances (hgood : Good u c) {p : LocalPublish}
    (hok : p.stage.Ok u c s target e) :
    Advances u s target e c p.stage (c.stepLocal false s p).1
      (stageAfter LocalPublish.stage p (c.stepLocal false s p).2) := by
  cases p with
  | fresh target' e' =>
    have hjournal : (c.server? s).bind (·.journal) = none := by
      cases hserver : c.server? s with
      | none => rfl
      | some server => exact (hgood.plain s server hserver).journal
    rw [stepLocal, hjournal]
    exact Advances.stay hgood hok
  | delivering d =>
    have hadvances := stepDelivery_advances hgood hok
    simp only [stepLocal]
    generalize c.stepDelivery false s d = q at hadvances
    obtain ⟨c', _ | d' | result⟩ := q <;> exact hadvances

end EventHub.Cluster
