import EventHub.Proofs.Cluster.Relaying
/-!
# Events for one client

A publication for a client looks the connections of the client up once, and has to do with no others
from then on. Each of them gets the frame, and once, unless its send fails and it is closed.
-/

namespace EventHub.Cluster

variable {σ α : Type} {c c' c₁ : Cluster} {s h : Nat} {server : Server} {client : ClientId}
  {target : Option ClientId} {event : Event}

/-! ## Frames -/

def framesIn (strides : List (Stride Cluster σ α)) (h : Nat) : List String :=
  strides.flatMap fun t => news t.before t.after h

theorem framesIn_append (strides strides' : List (Stride Cluster σ α)) (h : Nat) :
    framesIn (strides ++ strides') h = framesIn strides h ++ framesIn strides' h :=
  List.flatMap_append

theorem framesIn_concat (strides : List (Stride Cluster σ α))
    (t : Stride Cluster σ α) (h : Nat) :
    framesIn (strides ++ [t]) h = framesIn strides h ++ news t.before t.after h := by
  rw [framesIn_append]
  exact congrArg (framesIn strides h ++ ·) (List.append_nil _)

theorem framesIn_of_still {strides : List (Stride Cluster σ α)}
    (hstill : ∀ t ∈ strides, t.after.connections = t.before.connections) (h : Nat) :
    framesIn strides h = [] := by
  rw [framesIn, List.flatMap_eq_nil_iff]
  intro t ht
  refine news_of_untouched ?_
  rw [connection?, connection?, hstill t ht]

theorem framesIn_within {τ β : Type} (f : σ → τ) (k : Progress σ α → Progress τ β)
    (strides : List (Stride Cluster σ α)) (h : Nat) :
    framesIn (strides.map (Errand.within f k)) h = framesIn strides h := by
  rw [framesIn, List.flatMap_map]
  rfl

theorem Account.Fits.received_once {a : Account} {frame : String} {st : Status}
    (hfits : a.Fits c frame h st) : a.received = [] ∨ a.received = [frame] := by
  cases st with
  | waiting s => exact .inl hfits.1
  | dropped => exact .inl hfits.1
  | ended v =>
    cases v with
    | foundDead => exact .inl hfits.1
    | answered r =>
      cases r with
      | ok u => exact .inr hfits.1
      | error err => exact .inl hfits.1

theorem EntryKind.Holds.exists_fits {ε : Type} {k : EntryKind ε} {account : Nat → Account}
    {ms : List Member} {entries : List ε} (hholds : k.Holds c account ms entries) :
    ∀ m ∈ ms, ∃ st, (account m.handle).Fits c k.frame m.handle st := by
  induction hholds with
  | nil => exact fun m hm => absurd hm List.not_mem_nil
  | cons hshows _ ih =>
    obtain ⟨st, _, hfits⟩ := hshows
    exact List.forall_mem_cons.mpr ⟨⟨st, hfits⟩, ih⟩

theorem Delivery.Course.exists_fits {ms : List Member} {frame : String} {e : DeliveryErrand}
    {stage : Delivery ⊕ Except Error Unit} (hcourse : Delivery.Course s server ms frame e stage) :
    ∀ m ∈ ms, ∃ st, (deliveryAccount e m.handle).Fits e.world frame m.handle st := by
  have hanswered {m : Member} (hm : Answered e.world frame (deliveryAccount e) m) :
      ∃ st, (deliveryAccount e m.handle).Fits e.world frame m.handle st := by
    obtain ⟨result, hfits, _⟩ := hm
    exact ⟨_, hfits⟩
  intro m hm
  cases hcourse with
  | sending hholds honly => exact hholds.exists_fits m hm
  | pruning hover hcleared => exact hanswered (hover m hm)
  | withdrawn hcancelled hsettled honly =>
    obtain ⟨st, _, hfits⟩ := hsettled m hm
    exact ⟨st, hfits⟩
  | complete hover hcleared => exact hanswered (hover m hm)

/-! ## Deliveries to a client -/

theorem onward_since {act : Cluster → Bool → σ → Cluster × Progress σ α}
    {cancelled : Bool} {x : σ}
    {e : Errand Cluster σ α} (hact : ∀ c cancelled x, Amid s c (act c cancelled x).1)
    (hrun : Errand.Run act (Amid s) (Errand.call act c cancelled x) e) :
    ∀ t ∈ e.strides, Onward t.after e.world := by
  induction hrun with
  | refl =>
    intro t ht
    rw [Errand.mem_strides_call.mp ht]
    exact .refl _
  | tail _ hstep ih =>
    cases hstep with
    | others w henv => exact fun t ht => (ih t ht).trans henv.onward
    | cancel => exact ih
    | stride x hx =>
      intro t ht
      rcases Errand.mem_strides_stride.mp ht with ht | rfl
      · exact (ih t ht).trans (hact _ _ _).onward
      · exact .refl _

/-- A connection that has died stays dead. -/
theorem Later.isLive_eq_false (hlater : Later c c') (htaken : Taken c h)
    (hdead : c.isLive h = false) : c'.isLive h = false := by
  obtain ⟨x, hx⟩ := htaken
  obtain ⟨x', hx', hlater'⟩ := hlater h x hx
  rw [isLive_of_found hx] at hdead
  rw [isLive_of_found hx', Bool.eq_false_iff]
  intro hlive
  rw [hlater'.live hlive] at hdead
  cases hdead

def clientAt (c : Cluster) (h : Nat) : Option ClientId := (c.connection? h).map (·.client)

theorem clientAt_of_member? {m : Member} (hm : c.member? m.handle = some m) :
    c.clientAt m.handle = some m.client := by
  obtain ⟨x, hx, hmember⟩ := Option.map_eq_some_iff.mp hm
  rw [clientAt, hx, Option.map_some]
  exact congrArg some (congrArg Member.client hmember)

theorem clientAt_of_audience (hlocated : Located s c) {m : Member}
    (hm : m ∈ c.audience s (some client)) : c.clientAt m.handle = some client := by
  obtain ⟨hmember, hclient, _⟩ := (mem_audience_of_agrees hlocated.agrees).mp hm
  rw [clientAt_of_member? (hlocated.member m hmember), hclient client rfl]

theorem Later.clientAt (hlater : Later c c') (hclient : c.clientAt h = some client) :
    c'.clientAt h = some client := by
  obtain ⟨x, hx, hx'⟩ := Option.map_eq_some_iff.mp hclient
  obtain ⟨y, hy, hlater'⟩ := hlater h x hx
  rw [Cluster.clientAt, hy, Option.map_some, hlater'.client_eq, hx']

section

variable {e₁ : DeliveryErrand} {cancelled : Bool}

theorem others_of_delivery (horder : InOrder s server c₁)
    (hrun : Errand.Run (deliver s) (Amid s)
      (Errand.call (deliver s) c₁ cancelled (.fresh (some client) event)) e₁) :
    ∀ t ∈ e₁.strides, ∀ h, t.before.clientAt h ≠ some client →
      t.after.connection? h = t.before.connection? h := by
  intro t ht h hother
  refine ((delivery_course horder hrun).2 t ht).untouched h fun hmem => hother ?_
  obtain ⟨m, hm, rfl⟩ := List.mem_map.mp hmem
  obtain ⟨hbefore, _⟩ := (continues_throughout amid_deliver horder hrun).2 t ht
  exact hbefore.later.clientAt (clientAt_of_audience horder.toLocated hm)

/-- A delivery gives its frame to no connection twice, and nothing else to any. -/
theorem once_of_delivery (horder : InOrder s server c₁)
    (hrun : Errand.Run (deliver s) (Amid s)
      (Errand.call (deliver s) c₁ cancelled (.fresh target event)) e₁) (h : Nat) :
    framesIn e₁.strides h = [] ∨ framesIn e₁.strides h = [event.frame] := by
  obtain ⟨hcourse, hattends⟩ := delivery_course horder hrun
  show (deliveryAccount e₁ h).received = [] ∨ (deliveryAccount e₁ h).received = [event.frame]
  by_cases hh : h ∈ (c₁.audience s target).map (·.handle)
  · obtain ⟨m, hm, rfl⟩ := List.mem_map.mp hh
    obtain ⟨st, hfits⟩ := hcourse.exists_fits m hm
    exact hfits.received_once
  · rw [deliveryAccount, accountOf_foreign hattends hh]
    exact .inl rfl

/-- When a delivery has succeeded, whoever was to have the frame has got it or has died. -/
theorem reached_of_delivery (horder : InOrder s server c₁)
    (hrun : Errand.Run (deliver s) (Amid s)
      (Errand.call (deliver s) c₁ cancelled (.fresh target event)) e₁)
    (hend : e₁.stage = .inr (.ok ())) {m : Member} (hears : Hears c₁ s target m) :
    framesIn e₁.strides m.handle = [event.frame] ∨
      framesIn e₁.strides m.handle = [] ∧ e₁.world.isLive m.handle = false := by
  obtain ⟨hcourse, hattends⟩ := delivery_course horder hrun
  rw [hend] at hcourse
  cases hcourse with
  | complete hover hcleared =>
    obtain ⟨result, ⟨hreceived, hverdicts, _⟩, hnot⟩ :=
      hover m ((mem_audience_of_agrees horder.agrees).mpr hears)
    cases result with
    | ok u => exact .inl hreceived
    | error err =>
      -- The send has failed in a stride that has closed the connection.
      obtain ⟨t, ht, hfailed⟩ := mem_verdicts.mp (hverdicts ▸ List.mem_singleton_self _)
      have hdead := (hattends t ht).mortality.closed m.handle err hfailed (hnot err rfl)
      have hmember := ((continues_throughout amid_deliver horder hrun).2 t ht).2.later.member?
        (horder.member m hears.1)
      exact .inr ⟨hreceived, (onward_since amid_deliver hrun t ht).later.isLive_eq_false
        (taken_of_member? hmember) hdead⟩

end

/-! ## Publications of servers with and without relays -/

namespace Publication

def ofDelivery (target : Option ClientId) (event : Event) (d : Delivery) : Publication :=
  .publishing target event (.delivering d)

def afterDelivery (target : Option ClientId) (event : Event) (relays : Bool) :
    Except Error Unit → Publication ⊕ Except Error Unit
  | .error e => .inr (.error e)
  | .ok () => if relays then .inl (.relaying target event) else .inr (.ok ())

def goingOn (target : Option ClientId) (event : Event) (relays : Bool) :
    Progress Delivery (Except Error Unit) → Progress Publication (Except Error Unit)
  | .blocked => .blocked
  | .moved d => .moved (ofDelivery target event d)
  | .done (.error e) => .done (.error e)
  | .done (.ok ()) => if relays then .moved (.relaying target event) else .done (.ok ())

end Publication

def PassesOn (s : Nat) (relays : Bool) (c : Cluster) : Prop :=
  (c.server? s).any Server.relays = relays

theorem PassesOn.sameVoice {relays : Bool} (hpasses : PassesOn s relays c)
    (hsame : SameVoice s c c') : PassesOn s relays c' := by
  have hvoice (c : Cluster) : (c.server? s).any Server.relays =
      ((c.server? s).map Server.voice).any (·.2.2) := by
    rw [Option.any_map]
    rfl
  rw [PassesOn, hvoice, hsame, ← hvoice, hpasses]

theorem embeds_ofDelivery (s : Nat) (target : Option ClientId) (event : Event) (relays : Bool) :
    Errand.Embeds (PassesOn s relays) (Around s) (deliver s) (publicize s)
      (Publication.ofDelivery target event) (Publication.goingOn target event relays)
      (Publication.afterDelivery target event relays) where
  step w d hpasses := by
    have hafter : PassesOn s relays (w.stepDelivery false s d).1 :=
      hpasses.sameVoice ((unrelayed_stepDelivery d).sameVoice s)
    show w.stepPublication false s (.publishing target event (.delivering d)) = _
    rw [deliver, stepPublication, stepLocal]
    generalize w.stepDelivery false s d = p at hafter
    obtain ⟨w', _ | d' | ⟨e | _⟩⟩ := p
    · rfl
    · rfl
    · rfl
    · have hafter : (w'.server? s).any Server.relays = relays := hafter
      simp only [Progress.mapState, hafter, Publication.goingOn]
      cases relays <;> rfl
  stage d p := by
    obtain _ | d' | ⟨e | _⟩ := p
    · rfl
    · rfl
    · rfl
    · cases relays <;> rfl
  keeps w d hpasses := hpasses.sameVoice ((unrelayed_stepDelivery d).sameVoice s)
  others _ _ haround hpasses := hpasses.sameVoice haround.voice

/-- What a publication has done that has begun its delivery: it was made in the world `c₁`, where
the connections are looked up. -/
structure Delivers (s : Nat) (target : Option ClientId) (event : Event) (e : PublicationErrand)
    (c₁ : Cluster) (e₁ : DeliveryErrand) : Prop where
  order : ∃ server, InOrder s server c₁
  run : Errand.Run (deliver s) (Amid s)
    (Errand.call (deliver s) c₁ false (.fresh target event)) e₁
  strides : ∃ (first : Stride Cluster Publication (Except Error Unit)) (relays : Bool)
    (rest : List (Stride Cluster Publication (Except Error Unit))),
    e.strides = first :: e₁.strides.map (Errand.within (Publication.ofDelivery target event)
      (Publication.goingOn target event relays)) ++ rest ∧
    first.after.connections = first.before.connections ∧
    ∀ t ∈ rest, t.after.connections = t.before.connections
  later : Later e₁.world e.world
  ended : e.stage = .inr (.ok ()) → e₁.stage = .inr (.ok ())

inductive Publication.Course (s : Nat) (target : Option ClientId) (event : Event)
    (e : PublicationErrand) : Prop where
  | begun (first : Stride Cluster Publication (Except Error Unit)) {server : Server}
      (horder : InOrder s server e.world)
      (hstill : first.after.connections = first.before.connections) (hstrides : e.strides = [first])
      (hstage : e.stage = .inl (.ofDelivery target event (.fresh target event)))
  | delivering (first : Stride Cluster Publication (Except Error Unit)) {server : Server}
      {relays : Bool} {c₁ : Cluster} (horder : InOrder s server c₁)
      (hstill : first.after.connections = first.before.connections) {e₁ : DeliveryErrand}
      (hrun : Errand.Run (deliver s) (Around s)
        (Errand.call (deliver s) c₁ false (.fresh target event)) e₁)
      (hfollows : Errand.Follows (PassesOn s relays) (Publication.ofDelivery target event)
        (Publication.goingOn target event relays) (Publication.afterDelivery target event relays)
        [first] e₁ e)
  | relayed {c₁ : Cluster} {e₁ : DeliveryErrand}
    (hdelivers : Delivers s target event e c₁ e₁)
      (hstage : e.stage = .inr (.ok ()))

theorem publicize_relaying (w : Cluster) (s : Nat) (target : Option ClientId) (event : Event) :
    ∃ w', publicize s w false (.relaying target event) = (w', .done (.ok ())) ∧
      w'.connections = w.connections := by
  rw [publicize, stepPublication, if_neg Bool.false_ne_true]
  split
  · exact ⟨_, rfl, rfl⟩
  · exact ⟨_, rfl, connections_relay w s _ _⟩

section

variable {first : Stride Cluster Publication (Except Error Unit)} {relays : Bool}
  {e : PublicationErrand} {e₁ : DeliveryErrand}

/-- With its message handed to the relay, a publication has done what its delivery has done. -/
theorem delivers_of_relaying
    (hfollows : Errand.Follows (PassesOn s relays) (Publication.ofDelivery target event)
      (Publication.goingOn target event relays) (Publication.afterDelivery target event relays)
      [first] e₁ e)
    (horder : InOrder s server c₁) (hstill : first.after.connections = first.before.connections)
    (hrun : Errand.Run (deliver s) (Around s)
      (Errand.call (deliver s) c₁ false (.fresh target event)) e₁)
    (hend : e₁.stage = .inr (.ok ())) :
    Delivers s target event (e.stride (publicize s) (.relaying target event)) c₁ e₁ ∧
      (e.stride (publicize s) (.relaying target event)).stage = .inr (.ok ()) := by
  obtain ⟨w, hlast, hconnections⟩ := publicize_relaying e.world s target event
  have hdone : publicize s e.world e.cancelled (.relaying target event) =
      (w, .done (.ok ())) := hfollows.never.2 ▸ hlast
  refine ⟨⟨⟨_, horder⟩, hrun.mono fun _ _ h => h.toAmid,
    ⟨first, relays, [e.coming (publicize s) (.relaying target event)], ?_, hstill, ?_⟩, ?_,
    fun _ => hend⟩, ?_⟩
  · rw [Errand.strides_stride, hfollows.strides]
    rfl
  · intro t ht
    rw [List.mem_singleton.mp ht, Errand.coming_eq hdone]
    exact hconnections
  · rw [Errand.world_stride, hdone, ← hfollows.world]
    exact .of_connections hconnections
  · rw [Errand.stage_stride, hdone]
    rfl

end

theorem Publication.Course.step {e e' : PublicationErrand}
    (hcourse : Publication.Course s target event e)
    (hstep : Errand.Step (publicize s) (Around s) e e') (hnever : e'.cancelled = false) :
    Publication.Course s target event e' := by
  cases hcourse with
  | begun first horder hstill hstrides hstage =>
    cases hstep with
    | others w haround =>
      obtain ⟨server', horder'⟩ := horder.around haround
      exact .begun first horder' hstill hstrides hstage
    | cancel => cases hnever
    | stride p hp =>
      rw [hstage] at hp
      obtain rfl := Sum.inl.inj hp
      let relays := (e.world.server? s).any Server.relays
      have hbegins : Errand.Follows (PassesOn s relays) (Publication.ofDelivery target event)
          (Publication.goingOn target event relays)
          (Publication.afterDelivery target event relays) [first]
          (⟨e.world, .inl (.fresh target event), false, [], []⟩ : DeliveryErrand) e :=
        ⟨rfl, rfl, hstage, ⟨rfl, hnever⟩, hstrides⟩
      exact .delivering first horder hstill .refl (hbegins.stride (embeds_ofDelivery s ..) _)
  | @delivering first server relays c₁ horder hstill e₁ hrun hfollows =>
    have hembeds := embeds_ofDelivery s target event relays
    cases hstage : e₁.stage with
    | inl d =>
      obtain ⟨e₁', hstep', hfollows'⟩ := hfollows.project hembeds hstep hnever hstage
      exact .delivering first horder hstill (hrun.tail hstep') hfollows'
    | inr r =>
      have hwhole := hfollows.stage
      rw [hstage] at hwhole
      cases hstep with
      | others w haround =>
        have haround' : Around s e₁.world w := hfollows.world ▸ haround
        exact .delivering first horder hstill (hrun.tail (.others e₁ w haround'))
          (hfollows.meanwhile hembeds haround')
      | cancel => cases hnever
      | stride p hp =>
        rw [hp] at hwhole
        -- Only a delivery that has succeeded is followed by anything, and that is the relay.
        obtain ⟨rfl, rfl⟩ : r = .ok () ∧ p = .relaying target event := by
          cases r with
          | error err => cases hwhole
          | ok u =>
            cases relays with
            | false => cases hwhole
            | true => exact ⟨rfl, Sum.inl.inj hwhole⟩
        obtain ⟨hdelivers, hdone⟩ :=
          delivers_of_relaying hfollows horder hstill hrun hstage
        exact .relayed hdelivers hdone
  | relayed hdelivers hstage =>
    cases hstep with
    | others w haround =>
      obtain ⟨horder, hrun, hstrides, hlater, hended⟩ := hdelivers
      exact .relayed ⟨horder, hrun, hstrides, hlater.trans haround.onward.later, hended⟩ hstage
    | cancel => cases hnever
    | stride p hp =>
      rw [hstage] at hp
      cases hp

theorem publicize_fresh (hserver : c.server? s = some server) (hjournal : server.journal = none)
    (target : Option ClientId) (event : Event) :
    publicize s c false (.ofEvent target event) =
      (c, .moved (.ofDelivery target event (.fresh target event))) := by
  simp [publicize, Publication.ofEvent, Publication.ofDelivery, stepPublication, stepLocal, hserver,
    hjournal]

theorem publication_course (horder : InOrder s server c) (hjournal : server.journal = none)
    {e : PublicationErrand} (hrun : Errand.Run (publicize s) (Around s)
      (Errand.call (publicize s) c false (.ofEvent target event)) e)
    (hnever : e.cancelled = false) : Publication.Course s target event e := by
  induction hrun with
  | refl =>
    have hfirst := publicize_fresh horder.server hjournal target event
    have hworld : InOrder s server
        (Errand.call (publicize s) c false (.ofEvent target event)).world := by
      rw [Errand.call, Errand.world_stride, hfirst]
      exact horder
    refine .begun _ hworld ?_ rfl ?_
    · exact congrArg (fun p => p.1.connections) hfirst
    · rw [Errand.call, Errand.stage_stride, hfirst]
      rfl
  | tail _ hstep ih => exact (ih (hstep.never hnever)).step hstep hnever

/-- Either a publication is still to be delivered, or what it does is what its delivery does. -/
theorem Publication.Course.delivers {e : PublicationErrand}
    (hcourse : Publication.Course s target event e) :
    (∃ first, e.strides = [first] ∧ first.after.connections = first.before.connections ∧
      e.stage ≠ .inr (.ok ())) ∨ ∃ c₁ e₁, Delivers s target event e c₁ e₁ := by
  cases hcourse with
  | begun first horder hstill hstrides hstage =>
    exact .inl ⟨first, hstrides, hstill, by rw [hstage]; exact Sum.inl_ne_inr⟩
  | @delivering first server relays c₁ horder hstill e₁ hrun hfollows =>
    refine .inr ⟨c₁, e₁, ⟨⟨_, horder⟩, hrun.mono fun _ _ h => h.toAmid,
      ⟨first, relays, [], ?_, hstill, fun _ ht => absurd ht List.not_mem_nil⟩,
        ?_, fun hend => ?_⟩⟩
    · rw [hfollows.strides, List.append_nil]
      rfl
    · rw [hfollows.world]
      exact .refl _
    · have hwhole := hfollows.stage
      rw [hend] at hwhole
      cases hstage : e₁.stage with
      | inl d =>
        rw [hstage] at hwhole
        cases hwhole
      | inr r =>
        rw [hstage] at hwhole
        cases r with
        | ok u => rfl
        | error err => cases hwhole
  | relayed hdelivers hstage => exact .inr ⟨_, _, hdelivers⟩

/-! ## Who has the frame -/

structure Addressed (s : Nat) (client : ClientId) (event : Event) (e : PublicationErrand) :
    Prop where
  /-- The connections of other clients are left alone. -/
  others : ∀ t ∈ e.strides, ∀ h, t.before.clientAt h ≠ some client →
    t.after.connection? h = t.before.connection? h
  /-- No connection gets the frame twice, or anything else. -/
  once : ∀ h, framesIn e.strides h = [] ∨ framesIn e.strides h = [event.frame]
  /-- The second step looks the connections of the client up. When the publication has succeeded,
  each of them has got the frame, or has died of it. -/
  reached : e.stage = .inr (.ok ()) → ∃ t, e.strides[1]? = some t ∧
    ∀ m, Hears t.before s (some client) m → framesIn e.strides m.handle = [event.frame] ∨
      framesIn e.strides m.handle = [] ∧ e.world.isLive m.handle = false

theorem Delivers.framesIn_eq {e : PublicationErrand} {e₁ : DeliveryErrand}
    (hdelivers : Delivers s target event e c₁ e₁) (h : Nat) :
    framesIn e.strides h = framesIn e₁.strides h := by
  obtain ⟨first, relays, rest, hstrides, hstill, hrest⟩ := hdelivers.strides
  rw [hstrides, List.cons_append, ← List.singleton_append, framesIn_append, framesIn_append,
    framesIn_within, framesIn_of_still hrest, List.append_nil,
    framesIn_of_still (by simpa using hstill), List.nil_append]

theorem Delivers.exists_second {e : PublicationErrand} {e₁ : DeliveryErrand}
    (hdelivers : Delivers s target event e c₁ e₁) :
    ∃ t, e.strides[1]? = some t ∧ t.before = c₁ := by
  obtain ⟨first, relays, rest, hstrides, _⟩ := hdelivers.strides
  obtain ⟨later, hlater⟩ := hdelivers.run.strides_prefix
  let begins : DeliveryErrand := ⟨c₁, .inl (.fresh target event), false, [], []⟩
  refine ⟨Errand.within (Publication.ofDelivery target event)
    (Publication.goingOn target event relays)
    (begins.coming (deliver s) (.fresh target event)), ?_, rfl⟩
  rw [hstrides, ← hlater]
  rfl

theorem Delivers.addressed {e : PublicationErrand} {e₁ : DeliveryErrand}
    (hdelivers : Delivers s (some client) event e c₁ e₁) : Addressed s client event e := by
  obtain ⟨server, horder⟩ := hdelivers.order
  obtain ⟨first, relays, rest, hstrides, hstill, hrest⟩ := hdelivers.strides
  constructor
  case others =>
    intro t ht h hother
    have hsame (hstill : t.after.connections = t.before.connections) :
        t.after.connection? h = t.before.connection? h := by
      rw [connection?, connection?, hstill]
    rw [hstrides] at ht
    rcases List.mem_cons.mp ht with rfl | ht
    · exact hsame hstill
    · rcases List.mem_append.mp ht with ht | ht
      · obtain ⟨t₁, ht₁, rfl⟩ := List.mem_map.mp ht
        exact others_of_delivery horder hdelivers.run t₁ ht₁ h hother
      · exact hsame (hrest t ht)
  case once =>
    intro h
    rw [hdelivers.framesIn_eq]
    exact once_of_delivery horder hdelivers.run h
  case reached =>
    intro hend
    obtain ⟨t, hsecond, rfl⟩ := hdelivers.exists_second
    refine ⟨t, hsecond, fun m hears => ?_⟩
    rw [hdelivers.framesIn_eq]
    refine (reached_of_delivery horder hdelivers.run (hdelivers.ended hend) hears).imp_right
      fun hdied => ⟨hdied.1, hdelivers.later.isLive_eq_false ?_ hdied.2⟩
    have hlast := (continues_throughout amid_deliver horder hdelivers.run).1.later
    exact taken_of_member? (hlast.member? (horder.member m hears.1))

/-- However a publication for a client goes, and whatever happens meanwhile. -/
theorem addressed_of_run (horder : InOrder s server c) (hjournal : server.journal = none)
    {e : PublicationErrand} (hrun : Errand.Run (publicize s) (Around s)
      (Errand.call (publicize s) c false (.ofEvent (some client) event)) e)
    (hnever : e.cancelled = false) : Addressed s client event e := by
  rcases (publication_course horder hjournal hrun hnever).delivers with
    ⟨first, hstrides, hstill, hgoing⟩ | ⟨c₁, e₁, hdelivers⟩
  · refine ⟨fun t ht h _ => ?_, fun h => .inl ?_, fun hend => absurd hend hgoing⟩
    · rw [hstrides, List.mem_singleton] at ht
      rw [connection?, connection?, ht, hstill]
    · rw [hstrides, framesIn_of_still (by simpa using hstill)]
  · exact hdelivers.addressed

theorem amid_publicize (c : Cluster) (cancelled : Bool) (p : Publication) :
    Amid s c (publicize s c cancelled p).1 :=
  ⟨(removes_stepPublication c cancelled s p).steady, onward_stepPublication p⟩

theorem Addressed.framesIn_other {e : PublicationErrand} (haddressed : Addressed s client event e)
    (horder : InOrder s server c) {cancelled : Bool} {p : Publication}
    (hrun : Errand.Run (publicize s) (Around s) (Errand.call (publicize s) c cancelled p) e)
    {other : ClientId} (hother : c.clientAt h = some other) (hne : other ≠ client) :
    framesIn e.strides h = [] := by
  rw [framesIn, List.flatMap_eq_nil_iff]
  intro t ht
  have hbefore := ((continues_throughout amid_publicize horder
    (hrun.mono fun _ _ haround => haround.toAmid)).2 t ht).1.later.clientAt hother
  refine news_of_untouched (haddressed.others t ht h ?_)
  rw [hbefore]
  exact fun hsame => hne (Option.some.inj hsame)

end EventHub.Cluster
