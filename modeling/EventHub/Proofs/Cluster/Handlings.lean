import EventHub.Proofs.Cluster.Calls
import EventHub.Proofs.Cluster.Network
/-!
# Handling relayed messages

The handling of a message that another server has written calls the publisher of its server once,
with what that other server was asked to publish, whatever else happens in the cluster meanwhile.
Both servers write the same frames.
-/

namespace EventHub.Cluster

open Relay (Message)

/-! ## Calls on the publisher -/

/-- The call on the publisher of the server that the next step makes. -/
def LocalPublish.call? : LocalPublish → Option (Option ClientId × Event)
  | .fresh target event => some (target, event)
  | .delivering _ => none

def Publication.call? : Publication → Option (Option ClientId × Event)
  | .publishing _ _ p => p.call?
  | .relaying .. => none

def Handling.call? : Handling → Option (Option ClientId × Event)
  | .fresh _ => none
  | .publishing p => p.call?

def Slot.frame? : Slot → Option String
  | .sending s => some s.frame
  | .ended .. => none

def Delivery.frames : Delivery → List String
  | .sending slots => slots.filterMap Slot.frame?
  | .fresh .. | .pruning _ => []

def LocalPublish.frames : LocalPublish → List String
  | .fresh .. => []
  | .delivering d => d.frames

def Publication.frames : Publication → List String
  | .publishing _ _ p => p.frames
  | .relaying .. => []

def Handling.frames : Handling → List String
  | .fresh _ => []
  | .publishing p => p.frames

/-- Steps from the state `x`, and the calls on the publisher that they have made. Between two steps
anything may happen to the cluster that leaves `P` true. -/
inductive Calling {σ : Type}
    (step : Cluster → Bool → σ → Cluster × Progress σ (Except Error Unit))
    (call? : σ → Option (Option ClientId × Event)) (P : Cluster → Prop) (x : σ) :
    List (Option ClientId × Event) → Progress σ (Except Error Unit) → Prop where
  | start : Calling step call? P x [] (.moved x)
  | step {calls : List (Option ClientId × Event)} {y : σ} {c : Cluster} (cancelled : Bool)
      (hrun : Calling step call? P x calls (.moved y)) (hc : P c)
      (hmoves : (step c cancelled y).2.isBlocked = false) :
      Calling step call? P x (calls ++ (call? y).toList) (step c cancelled y).2

/-- The event is published in one call, and the frames that are written are those of the event. -/
structure PublishesOnce {σ : Type}
    (step : Cluster → Bool → σ → Cluster × Progress σ (Except Error Unit))
    (call? : σ → Option (Option ClientId × Event)) (frames : σ → List String)
    (P : Cluster → Prop) (x : σ) (target : Option ClientId) (e : Event) : Prop where
  underway : ∀ calls y, Calling step call? P x calls (.moved y) →
    calls <+: [(target, e)] ∧ ∀ frame ∈ frames y, frame = e.frame
  finished : ∀ calls r, Calling step call? P x calls (.done r) → calls = [(target, e)]

/-- An invariant of the states and the calls by then, which says at the end that there was one. -/
theorem PublishesOnce.of_invariant {σ : Type}
    {step : Cluster → Bool → σ → Cluster × Progress σ (Except Error Unit)}
    {call? : σ → Option (Option ClientId × Event)} {frames : σ → List String}
    {P : Cluster → Prop} {x : σ} {target : Option ClientId} {e : Event}
    (Inv : List (Option ClientId × Event) → σ → Prop) (hstart : Inv [] x)
    (hcalls : ∀ calls y, Inv calls y →
      calls <+: [(target, e)] ∧ ∀ frame ∈ frames y, frame = e.frame)
    (hmoved : ∀ c cancelled calls y y', P c → Inv calls y →
      (step c cancelled y).2 = .moved y' →
      Inv (calls ++ (call? y).toList) y')
    (hdone : ∀ c cancelled calls y r, P c → Inv calls y → (step c cancelled y).2 = .done r →
      calls ++ (call? y).toList = [(target, e)]) :
    PublishesOnce step call? frames P x target e := by
  have hinv : ∀ calls p, Calling step call? P x calls p →
      (∀ y, p = .moved y → Inv calls y) ∧
      ∀ r, p = .done r → calls = [(target, e)] := by
    intro calls p hrun
    induction hrun with
    | start => exact ⟨fun y hp => Progress.moved.inj hp ▸ hstart, fun r hp => by cases hp⟩
    | @step calls y c cancelled _ hc hmoves ih =>
      have hy := ih.1 y rfl
      exact ⟨fun y' hp => hmoved c cancelled calls y y' hc hy hp,
        fun r hp => hdone c cancelled calls y r hc hy hp⟩
  exact ⟨fun calls y hrun => hcalls calls y ((hinv calls _ hrun).1 y rfl),
    fun calls r hrun => (hinv calls _ hrun).2 r rfl⟩

/-! ## Deliveries -/

variable {target : Option ClientId} {e : Event} {calls : List (Option ClientId × Event)}

def Delivery.Carries (target : Option ClientId) (e : Event) : Delivery → Prop
  | .fresh target' e' => target' = target ∧ e' = e
  | .sending slots => ∀ frame ∈ slots.filterMap Slot.frame?, frame = e.frame
  | .pruning _ => True

def LocalPublish.Carries (target : Option ClientId) (e : Event)
    (calls : List (Option ClientId × Event)) : LocalPublish → Prop
  | .fresh target' e' => target' = target ∧ e' = e ∧ calls = []
  | .delivering d => d.Carries target e ∧ calls = [(target, e)]

theorem stepSend_frame {c c' : Cluster} {cancelled : Bool} {send send' : Send}
    (hstep : c.stepSend cancelled send = (c', .moved send')) : send'.frame = send.frame := by
  unfold stepSend at hstep
  split at hstep
  · cases hstep
  · next x hx =>
    generalize x.stepSend c.now cancelled send.frame send.state = p at hstep
    obtain ⟨x', _ | state | r⟩ := p <;> cases hstep
    rfl

/-- A send keeps its frame until it has ended. -/
theorem frames_stepSlots (cancelled : Bool) (slots : List Slot) (c : Cluster) :
    ((c.stepSlots cancelled slots).2.1.filterMap Slot.frame?).Sublist
      (slots.filterMap Slot.frame?) := by
  induction slots generalizing c with
  | nil => exact List.Sublist.refl _
  | cons slot rest ih =>
    cases slot with
    | ended h r => exact ih c
    | sending send =>
      rw [stepSlots]
      generalize hp : c.stepSend cancelled send = p
      obtain ⟨c', _ | send' | r⟩ := p
      · exact (ih c').cons_cons _
      · have hframe := stepSend_frame hp
        simp only [List.filterMap_cons, Slot.frame?, hframe]
        exact (ih c').cons_cons _
      · exact (ih c').cons _

theorem Delivery.carries_of_moved {c : Cluster} {cancelled : Bool} {s : Nat} {d d' : Delivery}
    (hd : d.Carries target e) (hstep : (c.stepDelivery cancelled s d).2 = .moved d') :
    d'.Carries target e := by
  cases d with
  | fresh target' e' =>
    obtain ⟨rfl, rfl⟩ := hd
    simp only [stepDelivery] at hstep
    split at hstep
    · cases hstep
    · split at hstep
      · cases hstep
      · cases hstep
        intro frame hframe
        obtain ⟨slot, hslot, hframe⟩ := List.mem_filterMap.mp hframe
        obtain ⟨m, _, rfl⟩ := List.mem_map.mp hslot
        exact (Option.some.inj hframe).symm
  | sending slots =>
    have hsublist := frames_stepSlots cancelled slots c
    cases cancelled with
    | true => cases hstep
    | false =>
      simp only [stepDelivery, Bool.false_eq_true, if_false] at hstep
      generalize c.stepSlots false slots = p at hstep hsublist
      obtain ⟨c', slots', moved⟩ := p
      have hslots' : Delivery.Carries target e (.sending slots') :=
        fun frame hframe => hd frame (hsublist.subset hframe)
      dsimp only at hstep
      split at hstep
      · split at hstep <;> cases hstep
        trivial
      · split at hstep <;> cases hstep
        exact hslots'
  | pruning r =>
    simp only [stepDelivery] at hstep
    generalize c.stepRemovals s r = p at hstep
    obtain ⟨c', _ | r' | n⟩ := p <;> cases hstep
    trivial

theorem Delivery.frame_of_carries {d : Delivery} (hd : d.Carries target e) :
    ∀ frame ∈ d.frames, frame = e.frame := by
  intro frame hframe
  cases d with
  | sending slots => exact hd frame hframe
  | fresh | pruning => cases hframe

/-! ## Publishing on one server -/

namespace LocalPublish

variable {c : Cluster} {cancelled : Bool} {s : Nat} {p p' : LocalPublish}

theorem prefix_of_carries (hp : p.Carries target e calls) : calls <+: [(target, e)] := by
  cases p with
  | fresh target' e' => exact hp.2.2 ▸ List.nil_prefix
  | delivering d => exact hp.2 ▸ List.prefix_refl _

theorem frame_of_carries (hp : p.Carries target e calls) :
    ∀ frame ∈ p.frames, frame = e.frame := by
  cases p with
  | fresh target' e' =>
    intro frame hframe
    cases hframe
  | delivering d => exact Delivery.frame_of_carries hp.1

/-- The first step makes the call, and no later one does. -/
theorem calls_after_step (hp : p.Carries target e calls) :
    calls ++ p.call?.toList = [(target, e)] := by
  cases p with
  | fresh target' e' =>
    obtain ⟨rfl, rfl, rfl⟩ := hp
    rfl
  | delivering d => exact (List.append_nil calls).trans hp.2

theorem carries_of_moved (hp : p.Carries target e calls)
    (hstep : (c.stepLocal cancelled s p).2 = .moved p') :
    p'.Carries target e (calls ++ p.call?.toList) := by
  have hcalls := calls_after_step hp
  cases p with
  | fresh target' e' =>
    obtain ⟨rfl, rfl, rfl⟩ := hp
    simp only [stepLocal] at hstep
    split at hstep
    · cases hstep
    · cases hstep
      exact ⟨⟨rfl, rfl⟩, rfl⟩
  | delivering d =>
    have hdelivery : ∀ d', (c.stepDelivery cancelled s d).2 = .moved d' → d'.Carries target e :=
      fun d' => Delivery.carries_of_moved hp.1
    simp only [stepLocal] at hstep
    generalize c.stepDelivery cancelled s d = q at hstep hdelivery
    obtain ⟨c', _ | d' | r⟩ := q <;> cases hstep
    exact ⟨hdelivery d' rfl, hcalls⟩

end LocalPublish

/-- An event is published in one call on the server that is asked to. -/
theorem publication_publishesOnce (s : Nat) (target : Option ClientId) (e : Event) :
    PublishesOnce (fun c cancelled => c.stepPublication cancelled s) Publication.call?
      Publication.frames (fun _ => True) (.ofEvent target e) target e := by
  refine .of_invariant (fun calls p => match p with
      | .publishing _ _ p => p.Carries target e calls
      | .relaying .. => calls = [(target, e)]) ⟨rfl, rfl, rfl⟩ ?_ ?_ ?_
  · intro calls p hp
    cases p with
    | publishing _ _ p =>
      exact ⟨LocalPublish.prefix_of_carries hp, LocalPublish.frame_of_carries hp⟩
    | relaying _ _ =>
      refine ⟨hp ▸ List.prefix_refl _, fun frame hframe => ?_⟩
      cases hframe
  · intro c cancelled calls p p' _ hp hstep
    cases p with
    | publishing _ _ p =>
      have hmoved : ∀ p', (c.stepLocal cancelled s p).2 = .moved p' →
          p'.Carries target e (calls ++ p.call?.toList) :=
        fun p' => LocalPublish.carries_of_moved hp
      simp only [stepPublication] at hstep
      generalize c.stepLocal cancelled s p = q at hstep hmoved
      obtain ⟨c', _ | q' | ⟨err | _⟩⟩ := q
      · cases hstep
      · cases hstep
        exact hmoved q' rfl
      · cases hstep
      · dsimp only at hstep
        split at hstep <;> cases hstep
        exact LocalPublish.calls_after_step hp
    | relaying _ _ =>
      simp only [stepPublication] at hstep
      split at hstep
      · cases hstep
      · split at hstep <;> cases hstep
  · intro c cancelled calls p r _ hp _
    cases p with
    | publishing _ _ p => exact LocalPublish.calls_after_step hp
    | relaying _ _ => exact (List.append_nil calls).trans hp

/-! ## Messages -/

def IsAt (s : Nat) (id : ServerId) (c : Cluster) : Prop := (c.server? s).map (·.id) = some id

variable {source server : ServerId} {stamp : Time.Timestamp} {s : Nat}

theorem stepHandling_encode (hforeign : source ≠ server) (hvalid : e.payload.Valid)
    (hdepth : e.payload.depth < Json.maxDepth) (hstamp : Network.StampOk stamp) {c : Cluster}
    (hserver : IsAt s server c) (cancelled : Bool) :
    c.stepHandling cancelled s (.fresh (Message.ofEvent source target e stamp).encode) =
      (c, .moved (.publishing (.fresh target e.carried))) := by
  obtain ⟨x, hx, rfl⟩ := Option.map_eq_some_iff.mp hserver
  have hevent := Message.event_ofEvent source target stamp hvalid hdepth
  have hreceived := received_encode x.id hstamp.1 hstamp.2 hevent
  rw [if_neg (show (Message.ofEvent source target e stamp).source ≠ x.id from hforeign)]
    at hreceived
  simp only [stepHandling, hx, hreceived]
  rfl

theorem handling_publishesOnce {raw : String} (hfirst : ∀ c cancelled, IsAt s server c →
      c.stepHandling cancelled s (.fresh raw) = (c, .moved (.publishing (.fresh target e)))) :
    PublishesOnce (fun c cancelled => c.stepHandling cancelled s) Handling.call? Handling.frames
      (IsAt s server) (.fresh raw) target e := by
  refine .of_invariant (fun calls h => match h with
      | .fresh raw' => raw' = raw ∧ calls = []
      | .publishing p => p.Carries target e calls) ⟨rfl, rfl⟩ ?_ ?_ ?_
  · intro calls h hh
    cases h with
    | fresh raw' =>
      refine ⟨hh.2 ▸ List.nil_prefix, fun frame hframe => ?_⟩
      cases hframe
    | publishing p =>
      exact ⟨LocalPublish.prefix_of_carries hh, LocalPublish.frame_of_carries hh⟩
  · intro c cancelled calls h h' hc hh hstep
    cases h with
    | fresh raw' =>
      obtain ⟨rfl, rfl⟩ := hh
      rw [hfirst c cancelled hc] at hstep
      cases hstep
      exact ⟨rfl, rfl, rfl⟩
    | publishing p =>
      have hmoved : ∀ p', (c.stepLocal cancelled s p).2 = .moved p' →
          p'.Carries target e (calls ++ p.call?.toList) :=
        fun p' => LocalPublish.carries_of_moved hh
      simp only [stepHandling] at hstep
      generalize c.stepLocal cancelled s p = q at hstep hmoved
      obtain ⟨c', _ | q' | r⟩ := q <;> cases hstep
      exact hmoved q' rfl
  · intro c cancelled calls h r hc hh hstep
    cases h with
    | fresh raw' =>
      obtain ⟨rfl, rfl⟩ := hh
      rw [hfirst c cancelled hc] at hstep
      cases hstep
    | publishing p => exact LocalPublish.calls_after_step hh

/-! ## Publishers that note their calls -/

def Journal.answer (j : Journal) : Except Error Unit := j.failure.elim (.ok ()) .error

def noted (c : Cluster) (s : Nat) (call : Option ClientId × Event) : Cluster :=
  c.modifyServer s fun x =>
    { x with journal := x.journal.map fun j => { j with calls := j.calls ++ [call] } }

theorem stepLocal_journal {c : Cluster} {x : Server} {j : Journal} (hx : c.server? s = some x)
    (hj : x.journal = some j) (cancelled : Bool) :
    c.stepLocal cancelled s (.fresh target e) = (c.noted s (target, e), .done j.answer) := by
  simp only [stepLocal, hx, Option.bind_some, hj]
  obtain ⟨_, _ | err⟩ := j <;> rfl

/-- A handling whose publisher notes its calls ends, with the answer of the publisher, when the call
has been noted. -/
theorem ends_handling_journal {raw : String} {c : Cluster} {cancelled : Bool} {x : Server}
    {j : Journal} (hfirst : ∀ c cancelled, IsAt s server c →
      c.stepHandling cancelled s (.fresh raw) = (c, .moved (.publishing (.fresh target e))))
    (hx : c.server? s = some x) (hid : x.id = server) (hj : x.journal = some j) :
    (∃ c' o, Ends cancelled c (.handling s (.fresh raw)) c' o) ∧
      ∀ c' o, Ends cancelled c (.handling s (.fresh raw)) c' o →
        o = .result j.answer ∧ ∃ now, c' = noted { c with now := now } s (target, e) := by
  have hat : IsAt s server c := by
    rw [IsAt, hx, Option.map_some, hid]
  constructor
  · have hcall : (Activity.handling s (.publishing (.fresh target e))).step c cancelled true =
        (c.noted s (target, e), .done (.result j.answer)) := by
      simp only [Activity.step, stepHandling, stepLocal_journal hx hj]
      rfl
    refine ⟨_, _, .moved true ?_ (.done true hcall)⟩
    simp only [Activity.step, hfirst c cancelled hat]
    rfl
  · intro c' o hends
    obtain ⟨a, rfl, hend⟩ := hends.of_steps (f := Activity.handling s) (g := .result)
      (fun c h => c.stepHandling cancelled s h)
      (P := fun c h c' a => c.server? s = some x →
        h = .fresh raw ∨ h = .publishing (.fresh target e) →
          a = j.answer ∧ ∃ now : Nat, c' = noted { c with now := now } s (target, e))
      (fun _ _ _ => rfl) (fun _ _ _ _ _ hrest hx hh => hrest hx hh)
      (by
        intro c h c₁ h₁ c' a hstep hrest hx hh
        rcases hh with rfl | rfl
        · rw [hfirst c cancelled (by rw [IsAt, hx, Option.map_some, hid])] at hstep
          cases hstep
          exact hrest hx (Or.inr rfl)
        · simp only [stepHandling, stepLocal_journal hx hj] at hstep
          cases hstep)
      (by
        intro c h c' a hstep hx hh
        rcases hh with rfl | rfl
        · rw [hfirst c cancelled (by rw [IsAt, hx, Option.map_some, hid])] at hstep
          cases hstep
        · simp only [stepHandling, stepLocal_journal hx hj] at hstep
          cases hstep
          exact ⟨rfl, c.now, rfl⟩)
    exact ⟨congrArg Outcome.result (hend hx (Or.inl rfl)).1, (hend hx (Or.inl rfl)).2⟩

/-- A server that handles the message of another one makes one call on its publisher, with the
target and the event that the other one published, and writes the frames that the other one
writes. -/
theorem relayed_event_published_once (hforeign : source ≠ server) (target : Option ClientId)
    (hvalid : e.payload.Valid) (hdepth : e.payload.depth < Json.maxDepth)
    (hexact : e.payload.Exact) (hstamp : Network.StampOk stamp) (s : Nat) :
    let raw := (Message.ofEvent source target e stamp).encode
    PublishesOnce (fun c cancelled => c.stepHandling cancelled s) Handling.call? Handling.frames
      (IsAt s server) (.fresh raw) target e ∧
    (∀ origin, PublishesOnce (fun c cancelled => c.stepPublication cancelled origin)
      Publication.call? Publication.frames (fun _ => True) (.ofEvent target e) target e) ∧
    (∀ c cancelled, IsAt s server c →
      c.stepHandling cancelled s (.fresh raw) = (c, .moved (.publishing (.fresh target e))) ∧
      (c.stepHandling cancelled s (.publishing (.fresh target e))).2.isBlocked = false) ∧
    (∀ c cancelled x j, c.server? s = some x → x.id = server → x.journal = some j →
      (∃ c' o, Ends cancelled c (.handling s (.fresh raw)) c' o) ∧
        ∀ c' o, Ends cancelled c (.handling s (.fresh raw)) c' o →
          o = .result j.answer ∧ ∃ now, c' = noted { c with now := now } s (target, e)) := by
  intro raw
  have hfirst : ∀ c cancelled, IsAt s server c →
      c.stepHandling cancelled s (.fresh raw) = (c, .moved (.publishing (.fresh target e))) := by
    intro c cancelled hc
    rw [stepHandling_encode hforeign hvalid hdepth hstamp hc,
      Event.carried_eq hvalid hdepth hexact]
  refine ⟨handling_publishesOnce hfirst, fun origin => publication_publishesOnce origin target e,
    fun c cancelled hc => ⟨hfirst c cancelled hc, ?_⟩,
    fun c cancelled x j hx hid hj => ends_handling_journal hfirst hx hid hj⟩
  simp only [stepHandling, stepLocal]
  cases (c.server? s).bind (·.journal) <;> rfl

/-- An event whose texts are escaped twice on their way. -/
def tricky : Event where
  name := "a\"\n\\u0041"
  payload := .object [("z", .string "\\\"\u2028"), ("", .array [.number (.int 18446744073709551615),
    .object [("b", .null), ("a", .number (.int (-9223372036854775808)))]])]
  id := some ""

/-- The server `b`, whose publisher notes its calls. -/
def recording : Cluster where
  stamp := .epoch
  servers := [{ id := ⟨"b"⟩, journal := some {} }]
  ring := .ofCapacity 4

theorem relayed_event_published_once_tricky :
    let raw := (Message.ofEvent ⟨"a"⟩ (some "") tricky .epoch).encode
    (∃ c' o, Ends false recording (.handling 0 (.fresh raw)) c' o) ∧
      ∀ c' o, Ends false recording (.handling 0 (.fresh raw)) c' o →
        (c'.server? 0).bind (·.journal) = some ⟨[(some "", tricky)], none⟩ := by
  have hvalid : tricky.payload.Valid := by
    simp [tricky, Json.Valid, Json.ValidFields, Json.ValidItems]
  have hexact : tricky.payload.Exact := by
    simp [tricky, Json.Exact, Json.ExactFields, Json.ExactItems]
  have hforeign : (⟨"a"⟩ : ServerId) ≠ ⟨"b"⟩ := by decide
  have hstamp : Network.StampOk .epoch := ⟨by decide, by decide⟩
  obtain ⟨_, _, _, hrecorded⟩ :=
    relayed_event_published_once hforeign (some "") hvalid (by decide) hexact hstamp 0
  obtain ⟨hends, hnoted⟩ := hrecorded recording false _ {} rfl rfl rfl
  refine ⟨hends, fun c' o hends => ?_⟩
  obtain ⟨_, now, rfl⟩ := hnoted c' o hends
  rfl

end EventHub.Cluster
