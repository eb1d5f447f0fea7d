import EventHub.Proofs.Cluster.Conduct
import EventHub.Proofs.Cluster.Isolation
/-!
# Deliveries among others

A delivery is made on one server, while others do whatever they do. From the call on, its targets
are settled, and it can be told of each of them what the delivery has done about it: what the
connection has accepted, which turns have joined its line, and how its send has ended.
-/

namespace EventHub.Cluster

variable {σ α : Type} {c₀ c c' : Cluster} {s : Nat} {server : Server} {ms : List Member}
  {frame : String} {target : Option ClientId} {event : Event} {cancelled : Bool}

/-! ## Where a delivery stands -/

def deliver (s : Nat) (c : Cluster) (cancelled : Bool) (d : Delivery) :
    Cluster × Progress Delivery (Except Error Unit) := c.stepDelivery cancelled s d

def Delivery.removals? : Delivery → Option Removals
  | .pruning r => some r
  | _ => none

/-- The verdicts that a step of a delivery comes to. When its token is cancelled, the sends are
given up and not looked at. -/
def Delivery.verdicts (cancelled : Bool) (c : Cluster) (d : Delivery) (h : Nat) : List Verdict :=
  match d with
  | .sending slots =>
    if cancelled then []
    else slots.filterMap fun slot => if slot.handle = h then slot.verdict? false c else none
  | _ => []

abbrev DeliveryErrand := Errand Cluster Delivery (Except Error Unit)

def deliveryAccount (e : DeliveryErrand) (h : Nat) : Account :=
  accountOf Delivery.verdicts e.strides h

def Answered (c : Cluster) (frame : String) (account : Nat → Account) (m : Member) : Prop :=
  ∃ result, (account m.handle).Fits c frame m.handle (.ended (.answered result)) ∧
    ∀ e, result = .error e → e.isCancelled = false

inductive Delivery.Course (s : Nat) (server : Server) (ms : List Member) (frame : String)
    (e : DeliveryErrand) : Delivery ⊕ Except Error Unit → Prop where
  | sending {slots : List Slot}
      (hholds : (slotKind frame).Holds e.world (deliveryAccount e) ms slots)
      (honly : SendsOnly Delivery.removals? e) : Course s server ms frame e (.inl (.sending slots))
  | pruning {r : Removals} (hover : ∀ m ∈ ms, Answered e.world frame (deliveryAccount e) m)
      (hcleared : Cleared s server.id server.sharing.isSome Delivery.removals?
        (deadAmong ms (deliveryAccount e)) e.strides r) :
      Course s server ms frame e (.inl (.pruning r))
  | withdrawn {err : Error} (hcancelled : err.isCancelled = true)
      (hsettled : ∀ m ∈ ms, ∃ st, st.Settled ∧
        (deliveryAccount e m.handle).Fits e.world frame m.handle st)
      (honly : SendsOnly Delivery.removals? e) : Course s server ms frame e (.inr (.error err))
  | complete (hover : ∀ m ∈ ms, Answered e.world frame (deliveryAccount e) m)
      (hcleared : Cleared s server.id server.sharing.isSome Delivery.removals?
        (deadAmong ms (deliveryAccount e)) e.strides ⟨none, []⟩) :
      Course s server ms frame e (.inr (.ok ()))

theorem amid_deliver (c : Cluster) (cancelled : Bool) (d : Delivery) :
    Amid s c (deliver s c cancelled d).1 :=
  ⟨(removes_stepDelivery c cancelled s d).steady, onward_stepDelivery d⟩

theorem clears_deliver (s : Nat) : Clears s (deliver s) .pruning .ok := fun _ _ _ => rfl

theorem failedOf_holds {account : Nat → Account} {slots : List Slot}
    (hholds : (slotKind frame).Holds c account ms slots) (hended : slots.all Slot.isEnded = true)
    (hids : ∀ m ∈ ms, ∃ x, c.connection? m.handle = some x ∧ x.id = m.id) :
    match c.failedOf slots with
    | .error e => e.isCancelled = true
    | .ok ids => ids = deadAmong ms account ∧ ∀ m ∈ ms, Answered c frame account m := by
  induction hholds with
  | nil => exact ⟨rfl, fun _ hm => absurd hm List.not_mem_nil⟩
  | @cons m slot ms' rest hshows _ ih =>
    obtain ⟨st, hshows, hfits⟩ := hshows
    rw [List.all_cons, Bool.and_eq_true] at hended
    have hrest := ih hended.2 fun m hm => hids m (List.mem_cons_of_mem _ hm)
    cases hshows with
    | sending state => cases hended.1
    | ended result =>
      have hdead := deadAmong_cons hfits.2.1 ms'
      rw [List.forall_mem_cons]
      cases result with
      | ok u =>
        rw [failedOf]
        cases hfailed : c.failedOf rest with
        | error e =>
          rw [hfailed] at hrest
          exact hrest
        | ok ids =>
          rw [hfailed] at hrest
          exact ⟨hrest.1.trans hdead.symm, ⟨_, hfits, fun e h => by cases h⟩, hrest.2⟩
      | error e =>
        rw [failedOf]
        cases hcancelled : e.isCancelled with
        | true => exact hcancelled
        | false =>
          rw [if_neg Bool.false_ne_true]
          cases hfailed : c.failedOf rest with
          | error e =>
            rw [hfailed] at hrest
            exact hrest
          | ok ids =>
            rw [hfailed] at hrest
            obtain ⟨x, hx, hid⟩ := hids m List.mem_cons_self
            refine ⟨?_, ⟨_, hfits, fun e' h => ?_⟩, hrest.2⟩
            · simp [hdead, hrest.1, hx, hid, Verdict.isDead, isFailure, hcancelled]
            · cases h
              exact hcancelled

/-- When all sends have ended, no member is left waiting. -/
theorem settled_of_ended {account : Nat → Account} {slots : List Slot}
    (hholds : (slotKind frame).Holds c account ms slots) (hended : slots.all Slot.isEnded = true) :
    ∀ m ∈ ms, ∃ st, st.Settled ∧ (account m.handle).Fits c frame m.handle st := by
  induction hholds with
  | nil => exact fun _ hm => absurd hm List.not_mem_nil
  | cons hshows _ ih =>
    obtain ⟨st, hshows, hfits⟩ := hshows
    rw [List.all_cons, Bool.and_eq_true] at hended
    intro m hm
    rcases List.mem_cons.mp hm with rfl | hm
    · cases hshows with
      | sending state => cases hended.1
      | ended result => exact ⟨_, .ended _, hfits⟩
    · exact ih hended.2 m hm

/-! ## Steps -/

def Delivery.afterLook (r : Cluster × List Slot × Bool) : Progress Delivery (Except Error Unit) :=
  if r.2.1.all Slot.isEnded then
    match r.1.failedOf r.2.1 with
    | .error e => .done (.error e)
    | .ok ids => .moved (.pruning ⟨none, ids⟩)
  else if r.2.2 then .moved (.sending r.2.1)
  else .blocked

theorem stepDelivery_sending (c : Cluster) (s : Nat) (slots : List Slot) :
    c.stepDelivery false s (.sending slots) =
      ((c.stepSlots false slots).1, Delivery.afterLook (c.stepSlots false slots)) := by
  rw [stepDelivery, if_neg Bool.false_ne_true, Delivery.afterLook]
  generalize c.stepSlots false slots = r
  obtain ⟨w, slots', moved⟩ := r
  dsimp only
  generalize w.failedOf slots' = failed
  cases slots'.all Slot.isEnded with
  | true => cases failed <;> rfl
  | false => cases moved <;> rfl

section

variable {e e' : DeliveryErrand}

theorem deliveryAccount_stride (e : DeliveryErrand) (d : Delivery) (h : Nat) :
    deliveryAccount (e.stride (deliver s) d) h = (deliveryAccount e h).add
      (notes e.world (deliver s e.world e.cancelled d).1
        (d.verdicts e.cancelled e.world h) h) :=
  accountOf_append ..

theorem course_abandon (hnodup : (ms.map (·.handle)).Nodup) {slots : List Slot}
    (hcancelled : e.cancelled = true)
    (hholds : (slotKind frame).Holds e.world (deliveryAccount e) ms slots)
    (honly : SendsOnly Delivery.removals? e) :
    Delivery.Course s server ms frame (e.stride (deliver s) (.sending slots))
      (e.stride (deliver s) (.sending slots)).stage ∧
    Attends s ms Delivery.removals? Delivery.verdicts (e.coming (deliver s) (.sending slots)) := by
  have hdropped := abandonSlots_dropped hnodup hholds
  have hstep : deliver s e.world e.cancelled (.sending slots) =
      (e.world.abandonSlots slots, .done (.error .cancelled)) := by
    rw [deliver, stepDelivery, if_pos hcancelled]
  have hverdicts : Delivery.verdicts e.cancelled e.world (.sending slots) = fun _ => [] := by
    funext h
    simp [Delivery.verdicts, hcancelled]
  refine ⟨?_, ?_⟩
  · have hstage : (e.stride (deliver s) (.sending slots)).stage = .inr (.error .cancelled) := by
      rw [Errand.stage_stride, hstep]
      rfl
    rw [hstage]
    refine .withdrawn rfl (fun m hm => ?_) (honly.stride rfl (hstep ▸ hdropped.only))
    obtain ⟨st, hst, hfits⟩ := hdropped.settled m hm
    refine ⟨st, hst, ?_⟩
    rw [deliveryAccount_stride, hverdicts, Errand.world_stride, hstep]
    exact hfits
  · rw [Errand.coming_eq hstep]
    constructor
    · exact registry_of_sends hdropped.only rfl
    · exact hdropped.untouched
    · exact fun h _ => congrFun hverdicts h
    · exact hverdicts ▸ hdropped.mortality

theorem course_afterLook {slots : List Slot} {r : Cluster × List Slot × Bool}
    (hworld : e.world = r.1) (hholds : (slotKind frame).Holds r.1 (deliveryAccount e) ms r.2.1)
    (hstays : r.2.2 = false → r.2.1 = slots) (honly : SendsOnly Delivery.removals? e)
    (hids : ∀ m ∈ ms, ∃ x, r.1.connection? m.handle = some x ∧ x.id = m.id) :
    Delivery.Course s server ms frame e ((Delivery.afterLook r).stage (.sending slots)) := by
  rw [Delivery.afterLook]
  split
  · next hended =>
    have hfailed := failedOf_holds hholds hended hids
    have hsettled := settled_of_ended hholds hended
    rw [← hworld] at hfailed hsettled
    cases hresult : r.1.failedOf r.2.1 with
    | error err =>
      rw [← hworld] at hresult
      rw [hresult] at hfailed
      exact .withdrawn hfailed hsettled honly
    | ok ids =>
      rw [← hworld] at hresult
      rw [hresult] at hfailed
      obtain ⟨rfl, hover⟩ := hfailed
      exact .pruning hover (honly.cleared _)
  · split
    · exact .sending (hworld ▸ hholds) honly
    · next hmoved =>
      rw [hstays (Bool.eq_false_iff.mpr hmoved)] at hholds
      exact .sending (hworld ▸ hholds) honly

theorem course_look (hnodup : (ms.map (·.handle)).Nodup)
    (hcontinues : Continues s server c₀ e.world)
    (hmembers : ∀ m ∈ ms, c₀.member? m.handle = some m) {slots : List Slot}
    (hcancelled : e.cancelled = false)
    (hholds : (slotKind frame).Holds e.world (deliveryAccount e) ms slots)
    (honly : SendsOnly Delivery.removals? e) :
    Delivery.Course s server ms frame (e.stride (deliver s) (.sending slots))
      (e.stride (deliver s) (.sending slots)).stage ∧
    Attends s ms Delivery.removals? Delivery.verdicts (e.coming (deliver s) (.sending slots)) := by
  have hround := (lawful_slotKind frame).round false hcontinues.tidy hnodup hholds
  rw [show pollAll ((slotKind frame).poll false) e.world slots = e.world.stepSlots false slots
    from (stepSlots_eq false slots e.world).symm] at hround
  have hstep : deliver s e.world e.cancelled (.sending slots) =
      ((e.world.stepSlots false slots).1,
        Delivery.afterLook (e.world.stepSlots false slots)) := by
    rw [deliver, hcancelled, stepDelivery_sending]
  have hverdicts : Delivery.verdicts e.cancelled e.world (.sending slots) =
      (slotKind frame).verdictsAt false e.world slots := by
    funext h
    simp only [Delivery.verdicts, hcancelled, Bool.false_eq_true, if_false]
    rfl
  have hids := fun m hm => (hcontinues.amid (amid_deliver e.world e.cancelled
    (.sending slots))).found (hmembers m hm)
  have hsends : SendsOnly Delivery.removals? (e.stride (deliver s) (.sending slots)) :=
    honly.stride rfl (hstep ▸ hround.only)
  have haccount : deliveryAccount (e.stride (deliver s) (.sending slots)) = fun h =>
      (deliveryAccount e h).add (notes e.world (e.world.stepSlots false slots).1
        ((slotKind frame).verdictsAt false e.world slots h) h) := by
    funext h
    rw [deliveryAccount_stride, hverdicts, hstep]
  refine ⟨?_, ?_⟩
  · have hstage : (e.stride (deliver s) (.sending slots)).stage =
        (Delivery.afterLook (e.world.stepSlots false slots)).stage (.sending slots) := by
      rw [Errand.stage_stride, hstep]
    rw [hstage]
    refine course_afterLook ?_ (haccount ▸ hround.holds) hround.stays hsends ?_
    · rw [Errand.world_stride, hstep]
    · simpa only [hstep] using hids
  · rw [Errand.coming_eq hstep]
    constructor
    · exact registry_of_sends hround.only rfl
    · exact hround.untouched
    · exact hverdicts ▸ hround.foreign
    · exact hverdicts ▸ hround.mortality

theorem course_prune (hcontinues : Continues s server c₀ e.world) {r : Removals}
    (hover : ∀ m ∈ ms, Answered e.world frame (deliveryAccount e) m)
    (hcleared : Cleared s server.id server.sharing.isSome Delivery.removals?
      (deadAmong ms (deliveryAccount e)) e.strides r) :
    Delivery.Course s server ms frame (e.stride (deliver s) (.pruning r))
      (e.stride (deliver s) (.pruning r)).stage ∧
    Attends s ms Delivery.removals? Delivery.verdicts (e.coming (deliver s) (.pruning r)) := by
  have hremoving : Removing s server ms Delivery.removals? Delivery.verdicts (deliver s) _ e r
      .pruning .ok := removing_stride (clears_deliver s) rfl rfl hcontinues hcleared
  obtain ⟨hconnections, haccounts, hattends, p, hstage, hcleared'⟩ := hremoving
  have haccount : deliveryAccount (e.stride (deliver s) (.pruning r)) = deliveryAccount e :=
    haccounts
  have hover' : ∀ m ∈ ms, Answered (e.stride (deliver s) (.pruning r)).world frame
      (deliveryAccount (e.stride (deliver s) (.pruning r))) m := by
    intro m hm
    obtain ⟨result, hfits, hnot⟩ := hover m hm
    refine ⟨result, ?_, hnot⟩
    rw [haccount]
    exact hfits.congr (congrArg (·[m.handle]?) hconnections)
  rw [← haccount] at hcleared'
  refine ⟨?_, hattends⟩
  rw [hstage]
  cases p with
  | blocked => exact .pruning hover' hcleared'
  | moved r' => exact .pruning hover' hcleared'
  | done u => exact .complete hover' hcleared'

theorem deliver_fresh (s : Nat) (c : Cluster) (cancelled : Bool) (target : Option ClientId)
    (event : Event) : deliver s c cancelled (.fresh target event) =
      (c, if cancelled then .done (.error .cancelled)
        else if (c.audience s target).isEmpty then .done (.ok ())
        else .moved (.sending (c.slotsOf s target event))) := by
  rw [deliver, stepDelivery, slotsOf, audience]
  cases cancelled with
  | true => rfl
  | false =>
    rw [if_neg Bool.false_ne_true, if_neg Bool.false_ne_true]
    exact (apply_ite (Prod.mk c) _ _ _).symm

theorem course_call (horder : InOrder s server c) (cancelled : Bool) (target : Option ClientId)
    (event : Event) :
    Delivery.Course s server (c.audience s target) event.frame
      (Errand.call (deliver s) c cancelled (.fresh target event))
      (Errand.call (deliver s) c cancelled (.fresh target event)).stage := by
  have hworld : (deliver s c cancelled (.fresh target event)).1 = c := by rw [deliver_fresh]
  have hfound (m : Member) (hm : m ∈ c.audience s target) :
      ∃ x, c.connection? m.handle = some x := by
    have hmember := (mem_targets_of_agrees horder.agrees).mp (List.mem_filter.mp hm).1
    exact taken_of_member? (horder.member m hmember.1)
  have hstage := congrArg (Progress.stage (.fresh target event))
    (congrArg Prod.snd (deliver_fresh s c cancelled target event))
  rw [← Errand.stage_call] at hstage
  generalize he : Errand.call (deliver s) c cancelled (.fresh target event) = e at hstage
  have haccount (h : Nat) : deliveryAccount e h = {} := by
    subst he
    exact accountOf_call (congrArg (·.connection? h) hworld) rfl
  have hew : e.world = c := he ▸ hworld
  have honly : SendsOnly Delivery.removals? e := by
    subst he
    intro t ht
    rw [Errand.mem_strides_call.mp ht]
    exact ⟨rfl, hworld.symm ▸ ConnectionsOnly.refl c⟩
  rw [hstage]
  split
  · refine .withdrawn rfl (fun m hm => ⟨_, .dropped, ?_⟩) honly
    obtain ⟨x, hx⟩ := hfound m hm
    rw [haccount, hew]
    exact ⟨rfl, rfl, x, hx, fun id hid => absurd hid List.not_mem_nil⟩
  · split
    · next hempty =>
      rw [List.isEmpty_iff] at hempty
      rw [hempty]
      exact .complete (fun m hm => absurd hm List.not_mem_nil) (honly.cleared [])
    · refine .sending ?_ honly
      rw [slotsOf, EntryKind.Holds, List.forall₂_map_right_iff, List.forall₂_same]
      intro m hm
      obtain ⟨x, hx⟩ := hfound m hm
      rw [haccount, hew]
      exact ⟨_, .sending .fresh, rfl, rfl, fun id hid => absurd hid List.not_mem_nil, x, hx,
        trivial⟩

/-- As long as the delivery does nothing itself, it stands where it stood. -/
theorem Delivery.Course.goesOn {stage : Delivery ⊕ Except Error Unit}
    (hcourse : Delivery.Course s server ms frame e stage) (honward : Onward e.world e'.world)
    (hstrides : e'.strides = e.strides) : Delivery.Course s server ms frame e' stage := by
  have haccount : deliveryAccount e' = deliveryAccount e := by
    funext h
    rw [deliveryAccount, deliveryAccount, hstrides]
  have hanswered {m : Member} (hm : Answered e.world frame (deliveryAccount e) m) :
      Answered e'.world frame (deliveryAccount e') m := by
    obtain ⟨result, hfits, hnot⟩ := hm
    exact ⟨result, haccount ▸ hfits.later honward.later, hnot⟩
  have hsends (honly : SendsOnly Delivery.removals? e) : SendsOnly Delivery.removals? e' :=
    fun t ht => honly t (hstrides ▸ ht)
  cases hcourse with
  | sending hholds honly => exact .sending (haccount ▸ hholds.onward honward) (hsends honly)
  | pruning hover hcleared =>
    rw [← haccount, ← hstrides] at hcleared
    exact .pruning (fun m hm => hanswered (hover m hm)) hcleared
  | withdrawn hcancelled hsettled honly =>
    refine .withdrawn hcancelled (fun m hm => ?_) (hsends honly)
    obtain ⟨st, hst, hfits⟩ := hsettled m hm
    exact ⟨st, hst, haccount ▸ hfits.later honward.later⟩
  | complete hover hcleared =>
    rw [← haccount, ← hstrides] at hcleared
    exact .complete (fun m hm => hanswered (hover m hm)) hcleared

theorem Delivery.Course.stride (hcourse : Delivery.Course s server ms frame e e.stage)
    (hnodup : (ms.map (·.handle)).Nodup) (hcontinues : Continues s server c₀ e.world)
    (hmembers : ∀ m ∈ ms, c₀.member? m.handle = some m) {d : Delivery}
    (hstage : e.stage = .inl d) :
    Delivery.Course s server ms frame (e.stride (deliver s) d) (e.stride (deliver s) d).stage ∧
    Attends s ms Delivery.removals? Delivery.verdicts (e.coming (deliver s) d) := by
  rw [hstage] at hcourse
  cases hcourse with
  | sending hholds honly =>
    cases hcancelled : e.cancelled with
    | true => exact course_abandon hnodup hcancelled hholds honly
    | false => exact course_look hnodup hcontinues hmembers hcancelled hholds honly
  | pruning hover hcleared => exact course_prune hcontinues hover hcleared

end

/-- A delivery that is made in a cluster in order takes its course, whatever happens meanwhile. -/
theorem delivery_course (horder : InOrder s server c) {e : DeliveryErrand}
    (hrun : Errand.Run (deliver s) (Amid s)
      (Errand.call (deliver s) c cancelled (.fresh target event)) e) :
    Delivery.Course s server (c.audience s target) event.frame e e.stage ∧
      ∀ t ∈ e.strides,
        Attends s (c.audience s target) Delivery.removals? Delivery.verdicts t := by
  have hnodup : ((c.audience s target).map (·.handle)).Nodup :=
    (nodup_targets_of_located horder.toLocated target).sublist (List.filter_sublist.map _)
  have hmembers (m : Member) (hm : m ∈ c.audience s target) : c.member? m.handle = some m :=
    horder.member m ((mem_targets_of_agrees horder.agrees).mp (List.mem_filter.mp hm).1).1
  have hworld : (deliver s c cancelled (.fresh target event)).1 = c := by rw [deliver_fresh]
  have hfirst : Attends s (c.audience s target) Delivery.removals? Delivery.verdicts
      ⟨c, .fresh target event, cancelled, _, (deliver s c cancelled (.fresh target event)).2⟩ :=
    attends_of_connections (congrArg Cluster.connections hworld) rfl
      (congrArg (·.registry s) hworld)
  refine attends_throughout
    (fun e => Delivery.Course s server (c.audience s target) event.frame e e.stage) amid_deliver
    horder hrun ⟨course_call horder cancelled target event, hfirst⟩
      (fun e e' hcourse honward hstrides hstage => ?_)
    fun e d hcourse hcontinues hstage => ?_
  · rw [hstage]
    exact hcourse.goesOn honward hstrides
  · exact hcourse.stride hnodup hcontinues hmembers hstage

end EventHub.Cluster
