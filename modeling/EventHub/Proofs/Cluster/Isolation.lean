import EventHub.Proofs.Cluster.Fanout
/-!
# One connection does not feel how another one fails

A server publishes an event to its own connections, and nobody else uses them meanwhile. Each target
gets the frame once and ends as if it were the only one; whoever fails is closed and removed, and
nothing else changes. How long the writers take, what the store answers and how long it takes to
answer make no difference.
-/

namespace EventHub.Cluster

variable {c₀ c c' : Cluster} {s : Nat} {frame : String} {due : Nat} {target : Option ClientId}
  {e : Event} {slots slots' : List Slot}

/-! ## Where a publication stands -/

/-- The server publishes by itself, and its connections are where the registry says; those that are
live have writers that nobody uses. -/
structure Ready (c : Cluster) (s : Nat) : Prop extends Located s c where
  server : ∃ server, c.server? s = some server ∧ server.journal = none
  idle : ∀ m ∈ (c.registry s).members, ∀ x, c.connection? m.handle = some x →
    x.live = true →
    x.writer.Idle

def audience (c : Cluster) (s : Nat) (target : Option ClientId) : List Member :=
  (c.targets s target).filter fun m => c.isLive m.handle

def misses (c : Cluster) (frame : String) (m : Member) : Bool :=
  (c.connection? m.handle).any fun x => !(x.sendAlone frame).2.isOk

def lost (c : Cluster) (s : Nat) (target : Option ClientId) (e : Event) : List ConnectionId :=
  ((c.audience s target).filter (c.misses e.frame)).map (·.id)

def writesOf (c : Cluster) (s : Nat) (target : Option ClientId) (e : Event) :
    List (Nat × String) :=
  (c.audience s target).map fun m => (m.handle, e.frame)

def Hears (c : Cluster) (s : Nat) (target : Option ClientId) (m : Member) : Prop :=
  m ∈ (c.registry s).members ∧ (∀ client, target = some client → m.client = client) ∧
    c.isLive m.handle = true

theorem mem_audience_of_agrees (hagrees : (c.registry s).Agrees) {m : Member} :
    m ∈ c.audience s target ↔ Hears c s target m := by
  rw [audience, List.mem_filter, mem_targets_of_agrees hagrees, and_assoc, Hears]

theorem mem_audience (hready : Ready c s) {m : Member} :
    m ∈ c.audience s target ↔ Hears c s target m :=
  mem_audience_of_agrees hready.agrees

theorem nodup_handles (hready : Ready c s) (target : Option ClientId) :
    ((c.audience s target).map (·.handle)).Nodup :=
  (nodup_targets_of_located hready.toLocated target).sublist
    ((List.filter_sublist).map _)

theorem exists_connection (hready : Ready c s) {m : Member} (hm : m ∈ c.audience s target) :
    ∃ x, c.connection? m.handle = some x ∧ x.live = true ∧ x.writer.Idle ∧ x.id = m.id := by
  obtain ⟨hmember, _, hlive⟩ := (mem_audience hready).mp hm
  obtain ⟨x, hx, hlive⟩ := Option.any_eq_true _ _ |>.mp hlive
  have hfound := hready.member m hmember
  rw [member?, hx, Option.map_some, Option.some.injEq] at hfound
  exact ⟨x, hx, hlive, hready.idle m hmember x hx hlive, congrArg Member.id hfound⟩

/-- Each live target has got the frame as if it were the only one, and no other connection has
changed. -/
def Reached (c₀ : Cluster) (s : Nat) (target : Option ClientId) (e : Event)
    (c : Cluster) : Prop :=
  ∀ h, c.connection? h = if h ∈ (c₀.audience s target).map (·.handle)
    then (c₀.connection? h).map fun x => (x.sendAlone e.frame).1 else c₀.connection? h

def slotsOf (c : Cluster) (s : Nat) (target : Option ClientId) (e : Event) : List Slot :=
  (c.audience s target).map fun m => .sending ⟨m.handle, e.frame, .fresh⟩

inductive Stands (c₀ : Cluster) (s : Nat) (target : Option ClientId) (e : Event) :
    Fanout → Prop where
  | fresh {c : Cluster} (hconnections : c.connections = c₀.connections)
    (hlacks : Lacks c₀ s [] c) :
      Stands c₀ s target e ⟨c, .inl (.fresh target e), []⟩
  | delivering {c : Cluster} (hconnections : c.connections = c₀.connections)
      (hlacks : Lacks c₀ s [] c) :
      Stands c₀ s target e ⟨c, .inl (.delivering (.fresh target e)), []⟩
  | begins {c : Cluster} (hconnections : c.connections = c₀.connections)
      (hlacks : Lacks c₀ s [] c) :
      Stands c₀ s target e ⟨c, .inl (.delivering (.sending (c₀.slotsOf s target e))), []⟩
  | sending {c : Cluster} {slots : List Slot} {due : Nat} (hlacks : Lacks c₀ s [] c)
      (halone : Alone c₀ c e.frame due slots)
      (hhandles : slots.map Slot.handle = (c₀.audience s target).map (·.handle))
      (hothers : ∀ h, h ∉ slots.map Slot.handle → c.connection? h = c₀.connection? h)
      (hbegun : ∀ slot ∈ slots, slot.isFresh = false) :
      Stands c₀ s target e
        ⟨c, .inl (.delivering (.sending slots)), c₀.writesOf s target e⟩
  | pruning {c : Cluster} {r : Removals} {gone : List ConnectionId}
      (hreached : Reached c₀ s target e c) (hlacks : Lacks c₀ s gone c)
      (hpending : gone ++ r.pending = c₀.lost s target e) :
      Stands c₀ s target e
        ⟨c, .inl (.delivering (.pruning r)), c₀.writesOf s target e⟩
  | complete {c : Cluster} (hreached : Reached c₀ s target e c)
      (hlacks : Lacks c₀ s (c₀.lost s target e) c) :
      Stands c₀ s target e ⟨c, .inr (.ok ()), c₀.writesOf s target e⟩

/-! ## Steps -/

theorem failedOf_alone {ms : List Member} (halone : Alone c₀ c frame due slots)
    (hended : slots.all Slot.isEnded = true) (hhandles : slots.map Slot.handle = ms.map (·.handle))
    (hms : ∀ m ∈ ms, c₀.member? m.handle = some m) :
    c.failedOf slots = .ok ((ms.filter (c₀.misses frame)).map (·.id)) := by
  induction slots generalizing ms with
  | nil =>
    rw [List.map_nil, eq_comm, List.map_eq_nil_iff] at hhandles
    rw [hhandles]
    rfl
  | cons slot rest ih =>
    obtain ⟨x, y, hx, _, hidle, hy, hslot⟩ := halone.slot slot List.mem_cons_self
    cases ms with
    | nil => cases hhandles
    | cons m ms =>
      rw [List.map_cons, List.map_cons, List.cons.injEq] at hhandles
      obtain ⟨hhandle, hhandles⟩ := hhandles
      rw [List.all_cons, Bool.and_eq_true] at hended
      have hrest := ih halone.tail hended.2 hhandles fun m hm => hms m (List.mem_cons_of_mem _ hm)
      have hfound := hms m List.mem_cons_self
      cases slot with
      | sending s => cases hended.1
      | ended h r =>
        simp only [Slot.handle] at hhandle hx hy
        subst hhandle
        rw [member?, hx, Option.map_some, Option.some.injEq] at hfound
        have hwritten := Connection.sendAlone_written hidle frame
        have hid := Connection.sendAlone_id x frame
        have hmisses : c₀.misses frame m = !(x.sendAlone frame).2.isOk := by rw [misses, hx]; rfl
        rw [List.filter_cons, hmisses]
        simp only [Slot.Alone] at hslot
        rw [← hslot] at hwritten hid ⊢
        cases r with
        | ok u => exact hrest
        | error err =>
          rw [failedOf, hwritten.2.1, if_neg Bool.false_ne_true, hrest, hy]
          have hid' : y.id = m.id := hid.trans (congrArg Member.id hfound)
          simp only [Except.map, Option.map_some, Option.toList_some, hid']
          rfl

theorem stepSlots_of_blocked (c : Cluster) (cancelled : Bool) (slots : List Slot)
    (hblocked : (c.stepSlots cancelled slots).2.2 = false) :
    (c.stepSlots cancelled slots).2.1 = slots := by
  induction slots generalizing c with
  | nil => rfl
  | cons slot rest ih =>
    cases slot with
    | ended h r =>
      rw [stepSlots] at hblocked ⊢
      exact congrArg _ (ih _ hblocked)
    | sending s =>
      rw [stepSlots] at hblocked ⊢
      generalize c.stepSend cancelled s = p at hblocked
      obtain ⟨c', _ | s' | r⟩ := p
      · exact congrArg _ (ih _ hblocked)
      · cases hblocked
      · cases hblocked

theorem Lacks.registry_eq {gone : List ConnectionId} (hlacks : Lacks c₀ s gone c) :
    c.registry s = (c₀.registry s).without gone := by
  obtain ⟨⟨server, hserver₀, hserver⟩, _⟩ := hlacks
  rw [Cluster.registry_eq hserver, Cluster.registry_eq hserver₀]

theorem Alone.served (halone : Alone c₀ c frame due slots)
    (hended : slots.all Slot.isEnded = true) {h : Nat} (hh : h ∈ slots.map Slot.handle) :
    c.connection? h = (c₀.connection? h).map fun x => (x.sendAlone frame).1 := by
  obtain ⟨slot, hslot, rfl⟩ := List.mem_map.mp hh
  obtain ⟨x, y, hx, _, _, hy, hsent⟩ := halone.slot slot hslot
  have hend := List.all_eq_true.mp hended slot hslot
  rw [hx, hy, Option.map_some, Option.some.injEq]
  cases slot with
  | sending s => cases hend
  | ended h r => exact congrArg Prod.fst hsent

/-- What a step of the sends may come to: some of them are still under way, or the connections that
failed are removed next. -/
inductive SendsStep (c₀ c : Cluster) (s : Nat) (target : Option ClientId) (e : Event) (due : Nat)
    (slots : List Slot) : Cluster × Progress LocalPublish (Except Error Unit) → Prop where
  | sending {c' : Cluster} {slots' : List Slot} {p : Progress LocalPublish (Except Error Unit)}
      (hstep : AloneStep c₀ c e.frame due slots c' slots')
      (hafter : LocalPublish.after (.delivering (.sending slots)) p =
        .inl (.delivering (.sending slots')))
      (hended : ¬slots'.all Slot.isEnded = true) :
      SendsStep c₀ c s target e due slots (c', p)
  | ended {c' : Cluster} {slots' : List Slot}
      (hstep : AloneStep c₀ c e.frame due slots c' slots')
      (hended : slots'.all Slot.isEnded = true) :
      SendsStep c₀ c s target e due slots
        (c', .moved (.delivering (.pruning ⟨none, c₀.lost s target e⟩)))

theorem stepLocal_sends (hready : Ready c₀ s) (halone : Alone c₀ c e.frame due slots)
    (hhandles : slots.map Slot.handle = (c₀.audience s target).map (·.handle)) :
    SendsStep c₀ c s target e due slots (c.stepLocal false s (.delivering (.sending slots))) := by
  have hblocked := stepSlots_of_blocked c false slots
  have hstep := stepSlots_alone halone
  simp only [stepLocal, stepDelivery, Bool.false_eq_true, if_false]
  generalize c.stepSlots false slots = p at hblocked hstep
  obtain ⟨c', slots', moved⟩ := p
  dsimp only at hblocked hstep ⊢
  split
  · next hended =>
    obtain ⟨due', halone'⟩ := hstep.alone
    have hfailed := failedOf_alone halone' hended (hstep.handles.trans hhandles) fun m hm =>
      hready.member m ((mem_audience hready).mp hm).1
    rw [hfailed]
    exact .ended hstep hended
  · next hended =>
    split
    · exact .sending hstep rfl hended
    · next hmoved => exact .sending hstep (by rw [hblocked (by simpa using hmoved)]; rfl) hended

theorem stands_sending (hready : Ready c₀ s) (hlacks : Lacks c₀ s [] c)
    (halone : Alone c₀ c e.frame due slots)
    (hhandles : slots.map Slot.handle = (c₀.audience s target).map (·.handle))
    (hothers : ∀ h, h ∉ slots.map Slot.handle → c.connection? h = c₀.connection? h) :
    Stands c₀ s target e ⟨(c.stepLocal false s (.delivering (.sending slots))).1,
      LocalPublish.after (.delivering (.sending slots))
        (c.stepLocal false s (.delivering (.sending slots))).2, c₀.writesOf s target e⟩ := by
  have hsends := stepLocal_sends hready halone hhandles
  generalize c.stepLocal false s (.delivering (.sending slots)) = p at hsends
  have hlacks' {c' : Cluster} {slots' : List Slot}
      (hstep : AloneStep c₀ c e.frame due slots c' slots') : Lacks c₀ s [] c' :=
    hlacks.of_servers (by rw [hstep.others])
  have hothers' {c' : Cluster} {slots' : List Slot}
      (hstep : AloneStep c₀ c e.frame due slots c' slots') (h : Nat)
      (hh : h ∉ slots'.map Slot.handle) : c'.connection? h = c₀.connection? h := by
    rw [hstep.handles] at hh
    rw [hstep.untouched h hh, hothers h hh]
  cases hsends with
  | sending hstep hafter hended =>
    obtain ⟨due', halone'⟩ := hstep.alone
    rw [hafter]
    exact .sending (hlacks' hstep) halone' (hstep.handles.trans hhandles) (hothers' hstep)
      hstep.begun
  | ended hstep hended =>
    obtain ⟨due', halone'⟩ := hstep.alone
    refine .pruning (fun h => ?_) (hlacks' hstep) rfl
    rw [← hhandles, ← hstep.handles]
    split
    · next hh => exact halone'.served hended hh
    · next hh => exact hothers' hstep h hh

theorem alone_slotsOf (hready : Ready c₀ s) (hconnections : c.connections = c₀.connections) :
    Alone c₀ c e.frame 0 (c₀.slotsOf s target e) := by
  have hhandles : (c₀.slotsOf s target e).map Slot.handle =
      (c₀.audience s target).map (·.handle) := by
    rw [slotsOf, List.map_map]
    rfl
  refine ⟨hhandles ▸ nodup_handles hready target, fun slot hslot => ?_⟩
  obtain ⟨m, hm, rfl⟩ := List.mem_map.mp hslot
  obtain ⟨x, hx, hlive, hidle, _⟩ := exists_connection hready hm
  exact ⟨x, x, hx, hlive, hidle, by rwa [connection?, hconnections], rfl, 0,
    Nat.le_refl _, .fresh⟩

/-- The first step of the sends gives the frame to every writer. -/
theorem writes_slotsOf (hconnections : c.connections = c₀.connections) :
    LocalPublish.writes c (.delivering (.sending (c₀.slotsOf s target e))) =
      c₀.writesOf s target e := by
  simp only [LocalPublish.writes, slotsOf, writesOf, List.filterMap_map]
  rw [← List.filterMap_eq_map]
  refine List.filterMap_congr fun m hm => ?_
  have hlive := (List.mem_filter.mp hm).2
  rw [isLive, connection?, ← hconnections] at hlive
  simp [Slot.write?, isLive, connection?, hlive]

theorem writes_of_begun (hbegun : ∀ slot ∈ slots, slot.isFresh = false) :
    LocalPublish.writes c (.delivering (.sending slots)) = [] := by
  refine List.filterMap_eq_nil_iff.mpr fun slot hslot => ?_
  have hslot := hbegun slot hslot
  match slot with
  | .sending ⟨h, frame, .fresh⟩ => cases hslot
  | .sending ⟨h, frame, .writing w⟩ => rfl
  | .ended h r => rfl

/-- The live targets are those at the beginning as long as nothing has changed. -/
theorem audience_eq (hconnections : c.connections = c₀.connections) (hlacks : Lacks c₀ s [] c)
    (target : Option ClientId) : c.audience s target = c₀.audience s target := by
  have hregistry : c.registry s = c₀.registry s := hlacks.registry_eq
  unfold audience targets isLive connection?
  rw [hregistry, hconnections]

theorem stepLocal_fresh (hready : Ready c₀ s) {gone : List ConnectionId}
    (hlacks : Lacks c₀ s gone c) (target : Option ClientId) (e : Event) :
    c.stepLocal false s (.fresh target e) = (c, .moved (.delivering (.fresh target e))) := by
  obtain ⟨server, hserver₀, hserver⟩ := hlacks.own
  obtain ⟨server', hserver', hjournal⟩ := hready.server
  rw [hserver₀, Option.some.injEq] at hserver'
  subst hserver'
  simp only [stepLocal, hserver, Option.bind_some, hjournal]

/-- What a publication is given to is settled as soon as it begins. -/
theorem stepLocal_delivering (hconnections : c.connections = c₀.connections)
    (hlacks : Lacks c₀ s [] c) (target : Option ClientId) (e : Event) :
    c.stepLocal false s (.delivering (.fresh target e)) =
      if (c₀.audience s target).isEmpty then (c, .done (.ok ()))
      else (c, .moved (.delivering (.sending (c₀.slotsOf s target e)))) := by
  have haudience := audience_eq hconnections hlacks target
  rw [audience] at haudience
  simp only [stepLocal, stepDelivery, Bool.false_eq_true, if_false, haudience]
  split <;> rfl

theorem Stands.wait {f : Fanout} (hstands : Stands c₀ s target e f) (now : Nat) :
    Stands c₀ s target e { f with cluster := { f.cluster with now := now } } := by
  cases hstands with
  | fresh hconnections hlacks => exact .fresh hconnections (hlacks.of_servers rfl)
  | delivering hconnections hlacks => exact .delivering hconnections (hlacks.of_servers rfl)
  | begins hconnections hlacks => exact .begins hconnections (hlacks.of_servers rfl)
  | sending hlacks halone hhandles hothers hbegun =>
    exact .sending (hlacks.of_servers rfl) (halone.of_untouched fun _ _ => rfl) hhandles hothers
      hbegun
  | pruning hreached hlacks hpending => exact .pruning hreached (hlacks.of_servers rfl) hpending
  | complete hreached hlacks => exact .complete hreached (hlacks.of_servers rfl)

theorem Stands.step (hready : Ready c₀ s) {f f' : Fanout} (hstands : Stands c₀ s target e f)
    (hstep : Fanout.Step s f f') : Stands c₀ s target e f' := by
  cases hstep with
  | wait _ now hnow => exact hstands.wait now
  | step c p written =>
    cases hstands with
    | fresh hconnections hlacks =>
      rw [stepLocal_fresh hready hlacks]
      exact .delivering hconnections hlacks
    | delivering hconnections hlacks =>
      rw [stepLocal_delivering hconnections hlacks]
      cases hnil : c₀.audience s target with
      | nil =>
        have hover : Stands c₀ s target e ⟨c, .inr (.ok ()), c₀.writesOf s target e⟩ := by
          refine .complete (fun h => ?_) ?_
          · rw [hnil, if_neg (by simp), connection?, hconnections, connection?]
          · rw [lost, hnil]
            exact hlacks
        rw [writesOf, hnil] at hover
        exact hover
      | cons m ms =>
        exact .begins hconnections hlacks
    | begins hconnections hlacks =>
      rw [writes_slotsOf hconnections]
      refine stands_sending hready hlacks (alone_slotsOf hready hconnections) ?_ fun h _ => ?_
      · rw [slotsOf, List.map_map]
        rfl
      · rw [connection?, hconnections, connection?]
    | sending hlacks halone hhandles hothers hbegun =>
      rw [writes_of_begun hbegun, List.append_nil]
      exact stands_sending hready hlacks halone hhandles hothers
    | pruning hreached hlacks hpending =>
      next r gone =>
      obtain ⟨gone', hlacks', hconnections, hpending'⟩ := hlacks.stepRemovals r
      have hreached' : Reached c₀ s target e (c.stepRemovals s r).1 := by
        intro h
        rw [connection?, hconnections]
        exact hreached h
      rw [hpending] at hpending'
      simp only [stepLocal, stepDelivery, LocalPublish.writes, List.append_nil]
      generalize c.stepRemovals s r = p at hlacks' hpending' hreached'
      obtain ⟨c', _ | r' | ⟨⟩⟩ := p
      · exact .pruning hreached' hlacks' hpending'
      · exact .pruning hreached' hlacks' hpending'
      · rw [Removals.pendingAfter, List.append_nil] at hpending'
        exact .complete hreached' (hpending' ▸ hlacks')

theorem stands_start (hready : Ready c s) : Stands c s target e (.start c target e) := by
  obtain ⟨server, hserver, _⟩ := hready.server
  exact .fresh rfl ⟨⟨server, hserver, hserver⟩, fun _ _ => rfl⟩

theorem Stands.run (hready : Ready c₀ s) {f f' : Fanout} (hstands : Stands c₀ s target e f)
    (hrun : Fanout.Run s f f') : Stands c₀ s target e f' := by
  induction hrun with
  | refl => exact hstands
  | tail _ hstep ih => exact ih.step hready hstep

/-! ## Every publication ends -/

namespace Fanout

theorem Run.stepThen {c' : Cluster} {p : LocalPublish} {written : List (Nat × String)}
    {q : Progress LocalPublish (Except Error Unit)} {f : Fanout}
    (hstep : c.stepLocal false s p = (c', q))
    (hrun : Run s ⟨c', p.after q, written ++ p.writes c⟩ f) :
    Run s ⟨c, .inl p, written⟩ f := by
  have hfirst := Step.step (s := s) c p written
  rw [hstep] at hfirst
  exact Relation.ReflTransGen.head hfirst hrun

theorem Run.waitThen {stage : LocalPublish ⊕ Except Error Unit} {written : List (Nat × String)}
    {f : Fanout} (time : Nat)
    (hrun : Run s ⟨{ c with now := max c.now time }, stage, written⟩ f) :
    Run s ⟨c, stage, written⟩ f :=
  Relation.ReflTransGen.head (.wait ⟨c, stage, written⟩ _ (Nat.le_max_left _ _)) hrun

def Completes (s : Nat) (f : Fanout) : Prop := ∃ f', Run s f f' ∧ f'.stage = .inr (.ok ())

end Fanout

def pruningAt (c : Cluster) (r : Removals) (written : List (Nat × String)) : Fanout :=
  ⟨c, .inl (.delivering (.pruning r)), written⟩

theorem completes_stepRemovals {r : Removals} {written : List (Nat × String)}
    (hcompletes : match c.stepRemovals s r with
      | (c', .blocked) => Fanout.Completes s (pruningAt c' r written)
      | (c', .moved r') => Fanout.Completes s (pruningAt c' r' written)
      | (_, .done ()) => True) : Fanout.Completes s (pruningAt c r written) := by
  have hstep : c.stepLocal false s (.delivering (.pruning r)) = ((c.stepRemovals s r).1,
      (((c.stepRemovals s r).2.mapState .pruning).map .ok).mapState .delivering) := rfl
  have hwrites : written ++ LocalPublish.writes c (.delivering (.pruning r)) = written :=
    List.append_nil written
  generalize c.stepRemovals s r = p at hcompletes hstep
  obtain ⟨c', _ | r' | ⟨⟩⟩ := p
  · obtain ⟨f, hrun, hf⟩ := hcompletes
    exact ⟨f, Fanout.Run.stepThen hstep (hwrites.symm ▸ hrun), hf⟩
  · obtain ⟨f, hrun, hf⟩ := hcompletes
    exact ⟨f, Fanout.Run.stepThen hstep (hwrites.symm ▸ hrun), hf⟩
  · exact ⟨_, Fanout.Run.stepThen hstep .refl, rfl⟩

theorem completes_stepRemoval {r : Removal} {rest : List ConnectionId}
    {written : List (Nat × String)}
    (hdone : ∀ c, Fanout.Completes s (pruningAt c ⟨none, rest⟩ written)) {c' : Cluster}
    (hstep : (∃ result, c.stepRemoval s r = (c', .done result)) ∨
      ∃ r', c.stepRemoval s r = (c', .moved r') ∧
        Fanout.Completes s (pruningAt c' ⟨some r', rest⟩ written)) :
    Fanout.Completes s (pruningAt c ⟨some r, rest⟩ written) := by
  apply completes_stepRemovals
  rcases hstep with ⟨result, hstep⟩ | ⟨r', hstep, hcompletes⟩
  · simpa only [stepRemovals, hstep] using hdone c'
  · simpa only [stepRemovals, hstep] using hcompletes

/-- A removal ends, whatever the store says and however long it takes to say it. -/
theorem completes_removal {rest : List ConnectionId} {written : List (Nat × String)}
    (hrest : ∀ c, Fanout.Completes s (pruningAt c ⟨none, rest⟩ written)) (c : Cluster)
    (r : Removal) : Fanout.Completes s (pruningAt c ⟨some r, rest⟩ written) := by
  have huntil (c : Cluster) (id : ConnectionId) (time : Nat) :
      Fanout.Completes s
        (pruningAt c ⟨some (.unregistering id (.until time)), rest⟩ written) := by
    obtain ⟨c', result, hstep⟩ := stepRemoval_due (c := { c with now := max c.now time })
      (Nat.le_max_right _ _) s id
    obtain ⟨f, hrun, hf⟩ := completes_stepRemoval hrest (Or.inl ⟨result, hstep⟩)
    exact ⟨f, Fanout.Run.waitThen time hrun, hf⟩
  have hfresh (c : Cluster) (id : ConnectionId) :
      Fanout.Completes s (pruningAt c ⟨some (.unregistering id .fresh), rest⟩ written) := by
    obtain ⟨c', hdone | ⟨time, hstep⟩⟩ := stepRemoval_unregistering c s id
    · exact completes_stepRemoval hrest (Or.inl hdone)
    · exact completes_stepRemoval hrest (Or.inr ⟨_, hstep, huntil c' id time⟩)
  cases r with
  | fresh id =>
    obtain ⟨c', hdone | hstep⟩ := stepRemoval_fresh c s id
    · exact completes_stepRemoval hrest (Or.inl hdone)
    · exact completes_stepRemoval hrest (Or.inr ⟨_, hstep, hfresh c' id⟩)
  | unregistering id w =>
    cases w with
    | fresh => exact hfresh c id
    | «until» time => exact huntil c id time

theorem completes_removals (rest : List ConnectionId) (written : List (Nat × String))
    (c : Cluster) : Fanout.Completes s (pruningAt c ⟨none, rest⟩ written) := by
  induction rest generalizing c with
  | nil => exact completes_stepRemovals trivial
  | cons id rest ih =>
    apply completes_stepRemovals
    exact completes_removal ih c (.fresh id)

theorem completes_pruning (c : Cluster) (r : Removals) (written : List (Nat × String)) :
    Fanout.Completes s (pruningAt c r written) := by
  obtain ⟨_ | removal, rest⟩ := r
  · exact completes_removals rest written c
  · exact completes_removal (completes_removals rest written) c removal

theorem completes_sending (hready : Ready c₀ s) (halone : Alone c₀ c e.frame due slots)
    (hhandles : slots.map Slot.handle = (c₀.audience s target).map (·.handle))
    (hbegun : ∀ slot ∈ slots, slot.isFresh = false) (written : List (Nat × String)) :
    Fanout.Completes s ⟨c, .inl (.delivering (.sending slots)), written⟩ := by
  have halone' : Alone c₀ { c with now := max c.now due } e.frame due slots :=
    halone.of_untouched fun _ _ => rfl
  have hsends := stepLocal_sends hready halone' hhandles
  generalize hstep : stepLocal { c with now := max c.now due } false s
    (.delivering (.sending slots)) = p at hsends
  cases hsends with
  | sending hslots _ hended =>
    exact absurd (hslots.ended hbegun (Nat.le_max_right _ _)) hended
  | ended hslots hended =>
    obtain ⟨f, hrun, hf⟩ := completes_pruning (s := s) _ ⟨none, c₀.lost s target e⟩
      (written ++ LocalPublish.writes { c with now := max c.now due }
        (.delivering (.sending slots)))
    exact ⟨f, Fanout.Run.waitThen due (Fanout.Run.stepThen hstep hrun), hf⟩

variable (target e) in
theorem completes_begins (hready : Ready c₀ s) (hconnections : c.connections = c₀.connections)
    (written : List (Nat × String)) :
    Fanout.Completes s
      ⟨c, .inl (.delivering (.sending (c₀.slotsOf s target e))), written⟩ := by
  have hhandles : (c₀.slotsOf s target e).map Slot.handle =
      (c₀.audience s target).map (·.handle) := by
    rw [slotsOf, List.map_map]
    rfl
  have hsends := stepLocal_sends (e := e) hready (alone_slotsOf hready hconnections) hhandles
  generalize hstep : c.stepLocal false s
    (.delivering (.sending (c₀.slotsOf s target e))) = p at hsends
  cases hsends with
  | sending hslots hafter hended =>
    obtain ⟨due', halone'⟩ := hslots.alone
    obtain ⟨f, hrun, hf⟩ := completes_sending hready halone' (hslots.handles.trans hhandles)
      hslots.begun (written ++ LocalPublish.writes c
        (.delivering (.sending (c₀.slotsOf s target e))))
    exact ⟨f, Fanout.Run.stepThen hstep (hafter.symm ▸ hrun), hf⟩
  | ended hslots hended =>
    obtain ⟨f, hrun, hf⟩ := completes_pruning (s := s) _ ⟨none, c₀.lost s target e⟩
      (written ++ LocalPublish.writes c (.delivering (.sending (c₀.slotsOf s target e))))
    exact ⟨f, Fanout.Run.stepThen hstep hrun, hf⟩

theorem Stands.completes (hready : Ready c₀ s) {f : Fanout} (hstands : Stands c₀ s target e f) :
    Fanout.Completes s f := by
  have hdelivering {c : Cluster} (hconnections : c.connections = c₀.connections)
      (hlacks : Lacks c₀ s [] c) (written : List (Nat × String)) :
      Fanout.Completes s ⟨c, .inl (.delivering (.fresh target e)), written⟩ := by
    have hstep := stepLocal_delivering hconnections hlacks target e
    split at hstep
    · exact ⟨_, Fanout.Run.stepThen hstep .refl, rfl⟩
    · obtain ⟨f, hrun, hf⟩ := completes_begins target e hready hconnections
        (written ++ LocalPublish.writes c (.delivering (.fresh target e)))
      exact ⟨f, Fanout.Run.stepThen hstep hrun, hf⟩
  cases hstands with
  | complete => exact ⟨_, .refl, rfl⟩
  | pruning => exact completes_pruning _ _ _
  | sending hlacks halone hhandles hothers hbegun =>
    exact completes_sending hready halone hhandles hbegun _
  | begins hconnections hlacks => exact completes_begins target e hready hconnections _
  | delivering hconnections hlacks => exact hdelivering hconnections hlacks _
  | fresh hconnections hlacks =>
    next c =>
    have hstep := stepLocal_fresh hready hlacks target e
    obtain ⟨f, hrun, hf⟩ := hdelivering hconnections hlacks
      ([] ++ LocalPublish.writes c (.fresh target e))
    exact ⟨f, Fanout.Run.stepThen hstep hrun, hf⟩

/-! ## What a publication has done -/

/-- What a publication that began at `c` has done once it is over. -/
structure Published (c : Cluster) (s : Nat) (target : Option ClientId) (e : Event)
    (f : Fanout) : Prop where
  /-- The live targets are written to, and nobody else. -/
  written : ∀ h frame, (h, frame) ∈ f.written ↔
    frame = e.frame ∧ ∃ m, Hears c s target m ∧ m.handle = h
  once : (f.written.map Prod.fst).Nodup
  /-- Whoever is written to ends as if it were the only one. -/
  received : ∀ m x, Hears c s target m → c.connection? m.handle = some x →
    f.cluster.connection? m.handle = some (x.sendAlone e.frame).1 ∧
      x.Written (x.sendAlone e.frame).1 e.frame (x.sendAlone e.frame).2
  kept : ∀ h, (∀ m, Hears c s target m → m.handle ≠ h) →
    f.cluster.connection? h = c.connection? h
  /-- Those that the event has not reached are removed, and nobody else. -/
  registered : ∀ m, m ∈ (f.cluster.registry s).members ↔
    m ∈ (c.registry s).members ∧ ¬(Hears c s target m ∧ c.misses e.frame m = true)
  agrees : (f.cluster.registry s).Agrees
  elsewhere : ∀ i, i ≠ s → f.cluster.server? i = c.server? i

theorem mem_handles (hready : Ready c s) {h : Nat} :
    h ∈ (c.audience s target).map (·.handle) ↔ ∃ m, Hears c s target m ∧ m.handle = h := by
  simp only [List.mem_map, mem_audience hready]

theorem mem_lost (hready : Ready c s) {m : Member} (hm : m ∈ (c.registry s).members) :
    m.id ∈ c.lost s target e ↔ Hears c s target m ∧ c.misses e.frame m = true := by
  rw [lost, List.mem_map]
  constructor
  · rintro ⟨m', hm', hid⟩
    obtain ⟨hhears, hmisses⟩ := List.mem_filter.mp hm'
    rw [mem_audience hready] at hhears
    have hfound := hready.agrees.mem_members.mp hm
    have hfound' := hready.agrees.mem_members.mp hhears.1
    rw [hid, hfound, Option.some.injEq] at hfound'
    exact hfound' ▸ ⟨hhears, hmisses⟩
  · rintro ⟨hhears, hmisses⟩
    exact ⟨m, List.mem_filter.mpr ⟨(mem_audience hready).mpr hhears, hmisses⟩, rfl⟩

theorem published_of_reached (hready : Ready c₀ s) (hreached : Reached c₀ s target e c)
    (hlacks : Lacks c₀ s (c₀.lost s target e) c) {f : Fanout} (hcluster : f.cluster = c)
    (hwritten : f.written = c₀.writesOf s target e) : Published c₀ s target e f := by
  subst hcluster
  have hregistry := hlacks.registry_eq
  have hagrees : (f.cluster.registry s).Agrees := hregistry ▸ hready.agrees.without _
  constructor
  case written =>
    intro h frame
    rw [hwritten, writesOf, List.mem_map]
    constructor
    · rintro ⟨m, hm, heq⟩
      cases heq
      exact ⟨rfl, m, (mem_audience hready).mp hm, rfl⟩
    · rintro ⟨rfl, m, hm, rfl⟩
      exact ⟨m, (mem_audience hready).mpr hm, rfl⟩
  case once =>
    rw [hwritten, writesOf, List.map_map]
    exact nodup_handles hready target
  case received =>
    intro m x hm hx
    have hmem : m.handle ∈ (c₀.audience s target).map (·.handle) :=
      (mem_handles hready).mpr ⟨m, hm, rfl⟩
    have hlive : x.live = true := by simpa [isLive, hx] using hm.2.2
    rw [hreached, if_pos hmem, hx]
    exact ⟨rfl, Connection.sendAlone_written (hready.idle m hm.1 x hx hlive) _⟩
  case kept =>
    intro h hh
    rw [hreached, if_neg]
    rw [mem_handles hready]
    rintro ⟨m, hm, hhandle⟩
    exact hh m hm hhandle
  case registered =>
    intro m
    have hfound : m ∈ (c₀.registry s).members ↔ (c₀.registry s).find? m.id = some m :=
      hready.agrees.mem_members
    rw [hagrees.mem_members, hregistry, Registry.find?_without]
    by_cases hm : m ∈ (c₀.registry s).members
    · rw [← mem_lost hready hm]
      split
      · next hlost => simp [hlost]
      · next hlost => simp [hlost, hfound]
    · rw [hfound] at hm ⊢
      split <;> simp [hm]
  case agrees => exact hagrees
  case elsewhere => exact hlacks.others

theorem published_of_run (hready : Ready c s) {f : Fanout}
    (hrun : Fanout.Run s (.start c target e) f) {r : Except Error Unit}
    (hstage : f.stage = .inr r) : r = .ok () ∧ Published c s target e f := by
  have hstands := (stands_start hready).run hready hrun
  cases hstands with
  | complete hreached hlacks =>
    cases hstage
    exact ⟨rfl, published_of_reached hready hreached hlacks rfl rfl⟩
  | fresh | delivering | begins | sending | pruning => cases hstage

/-- Who is a target depends on the registry, and whether it is live on its own connection. -/
theorem Hears.of_same {d : Cluster} {m : Member} (hregistry : d.registry s = c.registry s)
    (hconnection : d.connection? m.handle = c.connection? m.handle) (hears : Hears c s target m) :
    Hears d s target m := by
  obtain ⟨hmember, hclient, hlive⟩ := hears
  exact ⟨hregistry ▸ hmember, hclient, by rwa [isLive, hconnection]⟩

/-- What has become of a connection and what has been written to it depend on the registry and on
the connection itself. -/
theorem Published.isolated {d : Cluster} {f g : Fanout} (hpublished : Published c s target e f)
    (hpublished' : Published d s target e g) (hregistry : d.registry s = c.registry s) {h : Nat}
    (hconnection : d.connection? h = c.connection? h) (hready : Ready c s) :
    g.cluster.connection? h = f.cluster.connection? h ∧
      ∀ frame, (h, frame) ∈ g.written ↔ (h, frame) ∈ f.written := by
  have hhears : ∀ m, m.handle = h → (Hears d s target m ↔ Hears c s target m) := by
    rintro m rfl
    exact ⟨.of_same hregistry.symm hconnection.symm, .of_same hregistry hconnection⟩
  constructor
  · by_cases hheard : ∃ m, Hears c s target m ∧ m.handle = h
    · obtain ⟨m, hm, rfl⟩ := hheard
      obtain ⟨x, hx, _⟩ := exists_connection hready ((mem_audience hready).mpr hm)
      rw [(hpublished.received m x hm hx).1,
        (hpublished'.received m x ((hhears m rfl).mpr hm) (hconnection.trans hx)).1]
    · rw [hpublished.kept h fun m hm hhandle => hheard ⟨m, hm, hhandle⟩,
        hpublished'.kept h fun m hm hhandle => hheard ⟨m, (hhears m hhandle).mp hm, hhandle⟩,
        hconnection]
  · intro frame
    rw [hpublished.written, hpublished'.written]
    exact and_congr_right fun _ => exists_congr fun m => and_congr_left (hhears m)

/-- Every publication comes to the one result that it can have. Each live target is written to once,
and what becomes of it depends on its own writer only; those whose write fails are closed and
removed, even if the store fails, and nobody else is touched. -/
theorem publish_isolates_failures (hready : Ready c s) {f : Fanout}
    (hrun : Fanout.Run s (.start c target e) f) :
    (∀ r, f.stage = .inr r → r = .ok () ∧ Published c s target e f) ∧
    (∃ f', Fanout.Run s f f' ∧ f'.stage = .inr (.ok ())) ∧
    ∀ d g h, Ready d s → d.registry s = c.registry s → d.connection? h = c.connection? h →
      Fanout.Run s (.start d target e) g → f.stage = .inr (.ok ()) → g.stage = .inr (.ok ()) →
      g.cluster.connection? h = f.cluster.connection? h ∧
        ∀ frame, (h, frame) ∈ g.written ↔ (h, frame) ∈ f.written := by
  refine ⟨fun r hstage => published_of_run hready hrun hstage,
    ((stands_start hready).run hready hrun).completes hready, ?_⟩
  intro d g h hready' hregistry hconnection hrun' hstage hstage'
  exact (published_of_run hready hrun hstage).2.isolated (published_of_run hready' hrun' hstage').2
    hregistry hconnection hready

/-- The connections of a server: one takes what it is sent and one does not, one is dead, and one
has no room. The last one belongs to another client. -/
def crowd : List Connection :=
  [{ id := ⟨"a"⟩, client := "x", writer := .recorder {} },
    { id := ⟨"b"⟩, client := "x", writer := .recorder ⟨3, some Outbox.closedError, []⟩ },
    { id := ⟨"c"⟩, client := "x", live := false, writer := .recorder {} },
    { id := ⟨"d"⟩, client := "y",
      writer := .outbox { Outbox.ofSettings 1 5 with queue := [""] } }]

def crowdRegistry : Registry :=
  ((({} : Registry).insert ⟨⟨"a"⟩, "x", 0⟩).insert ⟨⟨"b"⟩, "x", 1⟩).insert
    ⟨⟨"c"⟩, "x", 2⟩
    |>.insert ⟨⟨"d"⟩, "y", 3⟩

/-- A server with the connections, on a store that refuses to unregister any. -/
def crowded : Cluster where
  stamp := .epoch
  connections := crowd
  servers := [{ id := ⟨"s"⟩, registry := crowdRegistry, sharing := some ⟨60000, 20000⟩ }]
  storeDelay := 10
  troubles := [⟨"unregister", none, Outbox.closedError⟩]
  ring := .ofCapacity 4

theorem members_crowd :
    crowdRegistry.members =
      [⟨⟨"a"⟩, "x", 0⟩, ⟨⟨"b"⟩, "x", 1⟩, ⟨⟨"c"⟩, "x", 2⟩,
        ⟨⟨"d"⟩, "y", 3⟩] := by
  decide +kernel

theorem agrees_crowd : crowdRegistry.Agrees :=
  (((Registry.agrees_empty.insert _).insert _).insert _).insert _

theorem registry_crowded : crowded.registry 0 = crowdRegistry := rfl

theorem ready_crowded : Ready crowded 0 where
  server := ⟨_, rfl, rfl⟩
  agrees := registry_crowded ▸ agrees_crowd
  member := by
    rw [registry_crowded, members_crowd]
    decide
  idle := by
    have hidle : ∀ x ∈ crowd, x.writer.Idle := by
      have hclosed : Outbox.closedError.isCancelled = false := rfl
      simp [crowd, Writer.Idle, hclosed, Outbox.ofSettings]
    intro m _ x hx _
    exact hidle x (List.mem_of_getElem? hx)

theorem hears_crowded {m : Member} : Hears crowded 0 (some "x") m ↔
    m = ⟨⟨"a"⟩, "x", 0⟩ ∨ m = ⟨⟨"b"⟩, "x", 1⟩ := by
  rw [Hears, registry_crowded, members_crowd]
  constructor
  · rintro ⟨hm, hclient, hlive⟩
    simp only [List.mem_cons, List.not_mem_nil, or_false] at hm
    rcases hm with rfl | rfl | rfl | rfl
    · exact Or.inl rfl
    · exact Or.inr rfl
    · cases hlive
    · simp at hclient
  · rintro (rfl | rfl) <;> simp [isLive, connection?, crowded, crowd]

/-- The event for the client `x` reaches the first connection; the second one is closed and
removed, and the others are where they were. -/
theorem publish_isolates_failures_crowded : ∃ f,
    Fanout.Run 0 (.start crowded (some "x") ⟨"ping", .null, none⟩) f ∧
      f.stage = .inr (.ok ()) ∧
      f.cluster.held 0 = ["event: ping\ndata: null\n\n"] ∧ f.cluster.isLive 0 = true ∧
      f.cluster.held 1 = [] ∧ f.cluster.isLive 1 = false ∧
      (∀ h, 1 < h → f.cluster.connection? h = crowded.connection? h) ∧
      ∀ m, m ∈ (f.cluster.registry 0).members ↔
        m ∈ crowdRegistry.members ∧ m ≠ ⟨⟨"b"⟩, "x", 1⟩ := by
  have hstart : Fanout.Run 0 (.start crowded (some "x") ⟨"ping", .null, none⟩)
    (.start crowded (some "x") ⟨"ping", .null, none⟩) := .refl
  obtain ⟨_, ⟨f, hrun, hstage⟩, _⟩ := publish_isolates_failures ready_crowded hstart
  obtain ⟨_, hpublished⟩ := (publish_isolates_failures ready_crowded hrun).1 _ hstage
  obtain ⟨hfirst, _⟩ := hpublished.received _ _ (hears_crowded.mpr (Or.inl rfl)) rfl
  obtain ⟨hsecond, _⟩ := hpublished.received _ _ (hears_crowded.mpr (Or.inr rfl)) rfl
  refine ⟨f, hrun, hstage, ?_, ?_, ?_, ?_, fun h hh => hpublished.kept h ?_, fun m => ?_⟩
  · rw [held, hfirst]
    decide
  · rw [isLive, hfirst]
    rfl
  · rw [held, hsecond]
    rfl
  · rw [isLive, hsecond]
    rfl
  · intro m hm
    rcases hears_crowded.mp hm with rfl | rfl
    · exact Nat.ne_of_lt (Nat.lt_of_succ_lt hh)
    · exact Nat.ne_of_lt hh
  · rw [hpublished.registered, registry_crowded, hears_crowded]
    refine and_congr_right fun _ => not_congr ⟨?_, ?_⟩
    · rintro ⟨rfl | rfl, hmisses⟩
      · cases hmisses
      · rfl
    · rintro rfl
      exact ⟨Or.inr rfl, rfl⟩

end EventHub.Cluster
