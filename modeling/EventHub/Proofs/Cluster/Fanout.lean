import EventHub.Cluster.Publishing
import EventHub.Proofs.Cluster.Servers
import EventHub.Proofs.Cluster.Removals
import EventHub.Proofs.Connection.Alone
import Mathlib.Logic.Relation
/-!
# Publications that nothing else runs beside

The steps of one publication on its server, with the clock moving on between them as it likes: what
they do to the connections that the event is sent to, as long as nobody else uses these, and to the
registry once the sends are over.
-/

namespace EventHub

namespace Cluster

variable {c₀ c c' : Cluster} {s : Nat} {frame : String} {due : Nat}

/-! ## Runs -/

def Slot.write? (c : Cluster) : Slot → Option (Nat × String)
  | .sending ⟨h, frame, .fresh⟩ => if c.isLive h then some (h, frame) else none
  | _ => none

/-- The frames that the next step gives to writers, each with its connection. -/
def LocalPublish.writes (c : Cluster) : LocalPublish → List (Nat × String)
  | .delivering (.sending slots) => slots.filterMap (Slot.write? c)
  | _ => []

/-- Where a publication to the own connections stands after a step, or what it has come to. -/
def LocalPublish.after (p : LocalPublish) :
    Progress LocalPublish (Except Error Unit) → LocalPublish ⊕ Except Error Unit
  | .blocked => .inl p
  | .moved p' => .inl p'
  | .done r => .inr r

/-- A publication that nothing else runs beside, with the frames that it has given to writers. -/
structure Fanout where
  cluster : Cluster
  stage : LocalPublish ⊕ Except Error Unit
  written : List (Nat × String) := []

namespace Fanout

def start (c : Cluster) (target : Option ClientId) (e : Event) : Fanout :=
  { cluster := c, stage := .inl (.fresh target e) }

inductive Step (s : Nat) : Fanout → Fanout → Prop where
  | wait (f : Fanout) (now : Nat) (hnow : f.cluster.now ≤ now) :
      Step s f { f with cluster := { f.cluster with now := now } }
  | step (c : Cluster) (p : LocalPublish) (written : List (Nat × String)) :
      Step s ⟨c, .inl p, written⟩
        ⟨(c.stepLocal false s p).1, p.after (c.stepLocal false s p).2,
        written ++ p.writes c⟩

def Run (s : Nat) : Fanout → Fanout → Prop := Relation.ReflTransGen (Step s)

end Fanout

/-! ## Sends that have their connections to themselves -/

def Slot.Alone (x y : Connection) (frame : String) (due : Nat) : Slot → Prop
  | .sending s => s.frame = frame ∧ ∃ time ≤ due, x.Sends frame y s.state time
  | .ended _ r => (y, r) = x.sendAlone frame

def Slot.isFresh : Slot → Bool
  | .sending s => s.state = .fresh
  | .ended .. => false

theorem Slot.Alone.mono {x y : Connection} {slot : Slot} {due' : Nat}
    (halone : slot.Alone x y frame due) (hdue : due ≤ due') : slot.Alone x y frame due' := by
  cases slot with
  | sending s =>
    obtain ⟨hframe, time, htime, hsends⟩ := halone
    exact ⟨hframe, time, Nat.le_trans htime hdue, hsends⟩
  | ended h r => exact halone

theorem stepSend_alone {x y : Connection} {s : Send} (hy : c.connection? s.handle = some y)
    (hlive : x.live = true) (hidle : x.writer.Idle)
    (halone : (Slot.sending s).Alone x y frame due) :
    ∃ y' due', (c.stepSend false s).1 = c.setConnection s.handle y' ∧
      (Slot.after s (c.stepSend false s).2).handle = s.handle ∧
      (Slot.after s (c.stepSend false s).2).Alone x y' frame due' ∧
      (Slot.after s (c.stepSend false s).2).isFresh = false ∧
      ((Slot.sending s).isFresh = false → due ≤ c.now →
        (Slot.after s (c.stepSend false s).2).isEnded = true) := by
  obtain ⟨hframe, time, htime, hsends⟩ := halone
  have hstep := Connection.stepSend_alone hlive hidle hsends c.now
  simp only [stepSend, hy, hframe]
  generalize y.stepSend c.now false frame s.state = p at hstep
  cases hstep with
  | blocked hfresh hnow =>
    refine ⟨y, due, rfl, rfl, ⟨hframe, time, htime, hsends⟩, decide_eq_false hfresh,
      fun _ hdue => ?_⟩
    omega
  | moved hsends' hfresh hfresh' =>
    exact ⟨_, _, rfl, rfl, ⟨rfl, _, Nat.le_refl _, hsends'⟩, decide_eq_false hfresh',
      fun hbegun => absurd hfresh (of_decide_eq_false hbegun)⟩
  | done => exact ⟨_, due, rfl, rfl, rfl, rfl, fun _ _ => rfl⟩

/-- The sends of a delivery that began at `c₀`, each to another connection. -/
structure Alone (c₀ c : Cluster) (frame : String) (due : Nat) (slots : List Slot) : Prop where
  nodup : (slots.map Slot.handle).Nodup
  slot : ∀ slot ∈ slots, ∃ x y, c₀.connection? slot.handle = some x ∧ x.live = true ∧
    x.writer.Idle ∧ c.connection? slot.handle = some y ∧ slot.Alone x y frame due

structure AloneStep (c₀ c : Cluster) (frame : String) (due : Nat) (slots : List Slot)
    (c' : Cluster) (slots' : List Slot) : Prop where
  others : c' = { c with connections := c'.connections }
  handles : slots'.map Slot.handle = slots.map Slot.handle
  alone : ∃ due', Alone c₀ c' frame due' slots'
  begun : ∀ slot ∈ slots', slot.isFresh = false
  untouched : ∀ h, h ∉ slots.map Slot.handle → c'.connection? h = c.connection? h
  ended : (∀ slot ∈ slots, slot.isFresh = false) → due ≤ c.now →
    slots'.all Slot.isEnded = true

variable {slots slots' : List Slot}

theorem Alone.tail {slot : Slot} (halone : Alone c₀ c frame due (slot :: slots)) :
    Alone c₀ c frame due slots :=
  ⟨(List.nodup_cons.mp halone.nodup).2, fun x hx => halone.slot x (List.mem_cons_of_mem _ hx)⟩

/-- A change to a connection that none of the sends goes to. -/
theorem Alone.of_untouched (halone : Alone c₀ c frame due slots)
    (huntouched : ∀ slot ∈ slots, c'.connection? slot.handle = c.connection? slot.handle) :
    Alone c₀ c' frame due slots := by
  refine ⟨halone.nodup, fun slot hslot => ?_⟩
  rw [huntouched slot hslot]
  exact halone.slot slot hslot

theorem Alone.cons {slot : Slot} {x y : Connection} {due' : Nat}
    (halone : Alone c₀ c frame due slots) (hfresh : slot.handle ∉ slots.map Slot.handle)
    (hx : c₀.connection? slot.handle = some x) (hlive : x.live = true) (hidle : x.writer.Idle)
    (hy : c.connection? slot.handle = some y) (hslot : slot.Alone x y frame due') :
    Alone c₀ c frame (max due' due) (slot :: slots) := by
  refine ⟨List.nodup_cons.mpr ⟨hfresh, halone.nodup⟩, fun z hz => ?_⟩
  rcases List.mem_cons.mp hz with rfl | hz
  · exact ⟨x, y, hx, hlive, hidle, hy, hslot.mono (Nat.le_max_left _ _)⟩
  · obtain ⟨x', y', hx', hlive', hidle', hy', hz'⟩ := halone.slot z hz
    exact ⟨x', y', hx', hlive', hidle', hy', hz'.mono (Nat.le_max_right _ _)⟩

/-- The first send goes to one connection and the rest to others. -/
theorem AloneStep.cons {c₁ : Cluster} {slot slot' : Slot} {x y : Connection} (due' : Nat)
    (hrest : AloneStep c₀ c₁ frame due slots c' slots')
    (hothers : c₁ = { c with connections := c₁.connections })
    (hsame : ∀ h, h ≠ slot.handle → c₁.connection? h = c.connection? h)
    (hfresh : slot.handle ∉ slots.map Slot.handle) (hhandle : slot'.handle = slot.handle)
    (hx : c₀.connection? slot.handle = some x) (hlive : x.live = true) (hidle : x.writer.Idle)
    (hy : c₁.connection? slot.handle = some y) (hslot : slot'.Alone x y frame due')
    (hbegun : slot'.isFresh = false)
    (hended : slot.isFresh = false → due ≤ c.now → slot'.isEnded = true) :
    AloneStep c₀ c frame due (slot :: slots) c' (slot' :: slots') := by
  obtain ⟨hothers', hhandles, ⟨due'', halone⟩, hbegun', huntouched, hended'⟩ := hrest
  have hnow : c₁.now = c.now := by rw [hothers]
  have hown : c'.connection? slot.handle = some y := (huntouched _ hfresh).trans hy
  rw [← hhandles, ← hhandle] at hfresh
  rw [← hhandle] at hx hown
  refine ⟨by rw [hothers', hothers], by simp [hhandles, hhandle],
    ⟨_, halone.cons hfresh hx hlive hidle hown hslot⟩,
      List.forall_mem_cons.mpr ⟨hbegun, hbegun'⟩,
    fun h hh => ?_, fun hall hdue => ?_⟩
  · rw [List.map_cons, List.mem_cons, not_or] at hh
    rw [huntouched h hh.2, hsame h hh.1]
  · obtain ⟨hfirst, hall⟩ := List.forall_mem_cons.mp hall
    rw [List.all_cons, hended hfirst hdue, hended' hall (hnow ▸ hdue), Bool.and_self]

theorem stepSlots_alone (halone : Alone c₀ c frame due slots) :
    AloneStep c₀ c frame due slots (c.stepSlots false slots).1 (c.stepSlots false slots).2.1 := by
  induction slots generalizing c with
  | nil => exact ⟨rfl, rfl, ⟨due, halone⟩, by simp [stepSlots], fun _ _ => rfl,
      fun _ _ => rfl⟩
  | cons slot rest ih =>
    have hfresh := (List.nodup_cons.mp halone.nodup).1
    obtain ⟨x, y, hx, hlive, hidle, hy, hslot⟩ := halone.slot slot List.mem_cons_self
    cases slot with
    | ended h r =>
      rw [stepSlots]
      exact (ih halone.tail).cons due rfl (fun _ _ => rfl) hfresh rfl hx hlive hidle hy hslot rfl
        fun _ _ => rfl
    | sending s =>
      obtain ⟨y', due', hstep, hhandle, hslot', hbegun, hended⟩ :=
        stepSend_alone hy hlive hidle hslot
      obtain ⟨hfst, hsnd⟩ := stepSlots_sending c s rest
      have hset := connection?_setConnection (show c.connection? s.handle = some y from hy) y'
      have hrest : Alone c₀ (c.setConnection s.handle y') frame due rest := by
        refine halone.tail.of_untouched fun z hz => ?_
        rw [hset, if_neg]
        intro heq
        exact hfresh (List.mem_map.mpr ⟨z, hz, heq⟩)
      rw [hfst, hsnd, hstep]
      exact (ih hrest).cons due' rfl (fun h hh => (hset h).trans (if_neg hh)) hfresh hhandle hx
        hlive hidle ((hset s.handle).trans (if_pos rfl)) hslot' hbegun hended

/-! ## Removals -/

/-- The servers are those of `c₀`, but for the connections with the names, which are no longer at
the server `s`. -/
structure Lacks (c₀ : Cluster) (s : Nat) (gone : List ConnectionId) (c : Cluster) : Prop where
  own : ∃ server, c₀.server? s = some server ∧
    c.server? s = some { server with registry := server.registry.without gone }
  others : ∀ i, i ≠ s → c.server? i = c₀.server? i

theorem Lacks.of_servers {gone : List ConnectionId} (hlacks : Lacks c₀ s gone c)
    (hservers : c'.servers = c.servers) : Lacks c₀ s gone c' := by
  obtain ⟨hown, hothers⟩ := hlacks
  have hsame : ∀ i, c'.server? i = c.server? i := fun i => by rw [server?, hservers, server?]
  exact ⟨hsame s ▸ hown, fun i hi => (hsame i).trans (hothers i hi)⟩

def Removal.pending : Removal → List ConnectionId
  | .fresh id => [id]
  | .unregistering .. => []

def Removals.pending (r : Removals) : List ConnectionId :=
  r.current.toList.flatMap Removal.pending ++ r.rest

/-- A step of a removal takes out what it is to take out, whatever the store says. -/
theorem Lacks.stepRemoval {gone : List ConnectionId} (hlacks : Lacks c₀ s gone c) (r : Removal) :
    ∃ gone', Lacks c₀ s gone' (c.stepRemoval s r).1 ∧
      (c.stepRemoval s r).1.connections = c.connections ∧
      gone' ++ (removalAfter some r (c.stepRemoval s r).2).toList.flatMap Removal.pending =
        gone ++ r.pending := by
  obtain ⟨⟨server, hserver₀, hserver⟩, hothers⟩ := id hlacks
  cases r with
  | fresh id =>
    have htake : (server.registry.without gone).take id =
        (server.registry.without (gone ++ [id]), ((server.registry.without gone).take id).2) := by
      rw [Registry.without_append]
    simp only [Cluster.stepRemoval, hserver]
    rw [htake]
    generalize hfound : ((server.registry.without gone).take id).2 = found
    have hset : Lacks c₀ s (gone ++ [id])
        (c.setRegistry s (server.registry.without (gone ++ [id]))) := by
      refine ⟨⟨server, hserver₀, ?_⟩, fun i hi => ?_⟩
      · rw [setRegistry, server?_modifyServer, if_pos rfl, hserver]
        rfl
      · rw [setRegistry, server?_modifyServer, if_neg (Ne.symm hi), hothers i hi]
    cases found with
    | none =>
      refine ⟨gone ++ [id], ⟨⟨server, hserver₀, ?_⟩, hothers⟩, rfl, by
        simp [removalAfter, Removal.pending]⟩
      rw [Registry.without_append, Registry.take_of_none hfound]
      exact hserver
    | some m =>
      dsimp only
      split
      · exact ⟨gone ++ [id], hset, rfl, by simp [removalAfter, Removal.pending]⟩
      · exact ⟨gone ++ [id], hset, rfl, by simp [removalAfter, Removal.pending]⟩
  | unregistering id w =>
    have hcall := stepCall_step c (.unregister server.id id) w
    simp only [Cluster.stepRemoval, hserver]
    generalize c.stepCall (.unregister server.id id) w = p at hcall
    cases hcall with
    | blocked => exact ⟨gone, hlacks, rfl, rfl⟩
    | moved | failed | performed => exact ⟨gone, hlacks.of_servers rfl, rfl, rfl⟩

theorem stepRemoval_fresh (c : Cluster) (s : Nat) (id : ConnectionId) :
    ∃ c', (∃ result, c.stepRemoval s (.fresh id) = (c', .done result)) ∨
      c.stepRemoval s (.fresh id) = (c', .moved (.unregistering id .fresh)) := by
  simp only [stepRemoval]
  cases c.server? s with
  | none => exact ⟨c, Or.inl ⟨_, rfl⟩⟩
  | some server =>
    dsimp only
    split
    · exact ⟨c, Or.inl ⟨_, rfl⟩⟩
    · split
      · exact ⟨_, Or.inr rfl⟩
      · exact ⟨_, Or.inl ⟨_, rfl⟩⟩

theorem stepRemoval_unregistering (c : Cluster) (s : Nat) (id : ConnectionId) :
    ∃ c', (∃ result, c.stepRemoval s (.unregistering id .fresh) = (c', .done result)) ∨
      ∃ time, c.stepRemoval s (.unregistering id .fresh) =
        (c', .moved (.unregistering id (.until time))) := by
  simp only [stepRemoval]
  cases c.server? s with
  | none => exact ⟨c, Or.inl ⟨_, rfl⟩⟩
  | some server =>
    by_cases hdelay : c.storeDelay = 0
    · simp only [stepCall, hdelay, if_true]
      exact ⟨_, Or.inl ⟨_, rfl⟩⟩
    · simp only [stepCall, hdelay, if_false]
      exact ⟨_, Or.inr ⟨_, rfl⟩⟩

theorem stepRemoval_due {time : Nat} (htime : time ≤ c.now) (s : Nat) (id : ConnectionId) :
    ∃ c' result, c.stepRemoval s (.unregistering id (.until time)) = (c', .done result) := by
  simp only [stepRemoval]
  cases c.server? s with
  | none => exact ⟨c, _, rfl⟩
  | some server =>
    simp only [stepCall, htime, if_true]
    exact ⟨_, _, rfl⟩

def Removals.pendingAfter (r : Removals) : Progress Removals Unit → List ConnectionId
  | .blocked => r.pending
  | .moved r => r.pending
  | .done () => []

theorem Lacks.stepRemovals {gone : List ConnectionId} (hlacks : Lacks c₀ s gone c)
    (r : Removals) : ∃ gone', Lacks c₀ s gone' (c.stepRemovals s r).1 ∧
      (c.stepRemovals s r).1.connections = c.connections ∧
      gone' ++ r.pendingAfter (c.stepRemovals s r).2 = gone ++ r.pending := by
  obtain ⟨current, rest⟩ := r
  cases current with
  | none =>
    cases rest with
    | nil => exact ⟨gone, hlacks, rfl, rfl⟩
    | cons id rest => exact ⟨gone, hlacks, rfl, rfl⟩
  | some removal =>
    obtain ⟨gone', hlacks', hconnections, hpending⟩ := hlacks.stepRemoval removal
    have hstep : (c.stepRemovals s ⟨some removal, rest⟩).1 = (c.stepRemoval s removal).1 ∧
        Removals.pendingAfter ⟨some removal, rest⟩
          (c.stepRemovals s ⟨some removal, rest⟩).2 =
          (removalAfter some removal (c.stepRemoval s removal).2).toList.flatMap Removal.pending ++
            rest := by
      simp only [Cluster.stepRemovals]
      generalize c.stepRemoval s removal = p
      obtain ⟨c', _ | removal' | result⟩ := p <;> exact ⟨rfl, rfl⟩
    rw [hstep.1, hstep.2]
    refine ⟨gone', hlacks', hconnections, ?_⟩
    rw [← List.append_assoc, hpending]
    simp [Removals.pending]

end Cluster

end EventHub
