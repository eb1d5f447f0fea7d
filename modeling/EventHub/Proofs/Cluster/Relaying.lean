import EventHub.Proofs.Cluster.Decorators
import EventHub.Proofs.Cluster.Links
import EventHub.Proofs.Cluster.Withdrawals
import EventHub.Proofs.Relay.Message
/-!
# Publications and the relay

A publication of a server is one that its publisher makes with the relay of the server behind it.
So it comes to what the publisher comes to alone, and when all that the publisher had to send has
been sent, the relay is handed the message, once.
-/

namespace EventHub.Cluster

variable {c c' : Cluster} {s : Nat} {server : Server} {target : Option ClientId} {event : Event}
  {r : Except Error Unit}

/-! ## Publishers of servers -/

def publishHere (s : Nat) (c : Cluster) (cancelled : Bool) (p : LocalPublish) :
    Cluster × Progress LocalPublish (Except Error Unit) := c.stepLocal cancelled s p

abbrev LocalErrand := Errand Cluster LocalPublish (Except Error Unit)

/-- A call that publishes to the own connections and to the relay, and what has happened since. -/
abbrev PublicationErrand := Errand Cluster Publication (Except Error Unit)

/-- The publisher of the server `s` with the relay of the server behind it, which answers at
once. -/
def Server.decorator (server : Server) (s : Nat) : Decorator Cluster LocalPublish Empty where
  id := server.id
  channels := server.channels
  stamp := Cluster.stamp
  start := .fresh
  publish := publishHere s
  hand c channel message := ((c.relay s channel message).1, .inr (c.relay s channel message).2)
  relay _ q := q.elim

def publicationOf (target : Option ClientId) (event : Event) :
    Decorated LocalPublish Empty → Publication
  | .publishing p => .publishing target event p
  | .relaying => .relaying target event
  | .handing q => q.elim

def Publication.ofLocal (target : Option ClientId) (event : Event)
    (p : Progress LocalPublish (Except Error Unit)) : Progress Publication (Except Error Unit) :=
  (Decorated.ofPublish p).mapState (publicationOf target event)

def Speaks (s : Nat) (server : Server) (c : Cluster) : Prop :=
  (c.server? s).map Server.voice = some (server.id, server.channels, true)

theorem Speaks.sameVoice (hspeaks : Speaks s server c) (hsame : SameVoice s c c') :
    Speaks s server c' := hsame.trans hspeaks

theorem Speaks.exists_server (hspeaks : Speaks s server c) :
    ∃ server', c.server? s = some server' ∧ server'.id = server.id ∧
      server'.channels = server.channels ∧ server'.relays = true := by
  obtain ⟨server', hserver', hvoice⟩ := Option.map_eq_some_iff.mp hspeaks
  rw [Server.voice, Prod.mk.injEq, Prod.mk.injEq] at hvoice
  exact ⟨server', hserver', hvoice⟩

/-- While a server speaks, its publication steps as its decorated publisher does. -/
theorem publicize_eq (hspeaks : Speaks s server c) (x : Decorated LocalPublish Empty) :
    publicize s c false (publicationOf target event x) =
      (((server.decorator s).step target event c false x).1,
        ((server.decorator s).step target event c false x).2.mapState
          (publicationOf target event)) := by
  cases x with
  | publishing p =>
    have hafter : Speaks s server (c.stepLocal false s p).1 :=
      hspeaks.sameVoice ((unrelayed_stepLocal p).sameVoice s)
    show c.stepPublication false s (.publishing target event p) =
      ((c.stepLocal false s p).1, Publication.ofLocal target event (c.stepLocal false s p).2)
    rw [stepPublication]
    generalize c.stepLocal false s p = q at hafter
    obtain ⟨c', _ | p' | ⟨e | _⟩⟩ := q
    · rfl
    · rfl
    · rfl
    · obtain ⟨server', hserver', _, _, hrelays⟩ := hafter.exists_server
      dsimp only at hserver'
      simp only [hserver', Option.any_some, hrelays, if_true]
      rfl
  | relaying =>
    obtain ⟨server', hserver', hid, hchannels, _⟩ := hspeaks.exists_server
    show c.stepPublication false s (.relaying target event) = _
    simp only [stepPublication, Bool.false_eq_true, if_false, hserver', hid, hchannels]
    rfl
  | handing q => exact q.elim

theorem embeds_publication (s : Nat) (server : Server) (target : Option ClientId)
    (event : Event) : Errand.Embeds (Speaks s server) (Around s)
      ((server.decorator s).step target event) (publicize s) (publicationOf target event)
      (Progress.mapState (publicationOf target event)) fun r => .inr r where
  step _ x hspeaks := publicize_eq hspeaks x
  stage _ p := by
    cases p <;> rfl
  keeps w x hspeaks := by
    cases x with
    | publishing p => exact hspeaks.sameVoice ((unrelayed_stepLocal p).sameVoice s)
    | relaying => exact hspeaks.sameVoice (sameVoice_relay w s _ _)
    | handing q => exact q.elim
  others _ _ haround hspeaks := hspeaks.sameVoice haround.voice

/-! ## Deliveries of publishers -/

theorem embeds_delivery (s : Nat) : Errand.Embeds (fun _ => True) (Around s) (deliver s)
    (publishHere s) .delivering (Progress.mapState .delivering) fun r => .inr r where
  step _ _ _ := rfl
  stage _ p := by
    cases p <;> rfl
  keeps _ _ _ := trivial
  others _ _ _ _ := trivial

theorem InOrder.around (horder : InOrder s server c) (haround : Around s c c') :
    ∃ server', InOrder s server' c' := by
  obtain ⟨server', hserver', _⟩ := haround.toSteady.exists_after horder.server
  exact ⟨server', haround.located horder.toLocated, hserver', haround.onward.tidy horder.tidy⟩

inductive LocalCourse (s : Nat) (target : Option ClientId) (event : Event) (e : LocalErrand) :
    Prop where
  | begun (first : Stride Cluster LocalPublish (Except Error Unit)) {server : Server}
      (horder : InOrder s server e.world) (hstrides : e.strides = [first])
      (hstage : e.stage = .inl (.delivering (.fresh target event)))
  | delivering (first : Stride Cluster LocalPublish (Except Error Unit)) {server : Server}
      {c₁ : Cluster} (horder : InOrder s server c₁) {e₁ : DeliveryErrand}
      (hrun : Errand.Run (deliver s) (Around s)
        (Errand.call (deliver s) c₁ false (.fresh target event)) e₁)
      (hfollows : Errand.Follows (fun _ => True) .delivering (Progress.mapState .delivering)
        (fun r => .inr r) [first] e₁ e)

theorem local_course (horder : InOrder s server c) (hjournal : server.journal = none)
    {e : LocalErrand} (hrun : Errand.Run (publishHere s) (Around s)
      (Errand.call (publishHere s) c false (.fresh target event)) e)
    (hnever : e.cancelled = false) : LocalCourse s target event e := by
  induction hrun with
  | refl =>
    have hfirst : publishHere s c false (.fresh target event) =
        (c, .moved (.delivering (.fresh target event))) := by
      simp [publishHere, stepLocal, horder.server, hjournal]
    have hworld : InOrder s server
        (Errand.call (publishHere s) c false (.fresh target event)).world := by
      rw [Errand.call, Errand.world_stride, hfirst]
      exact horder
    refine .begun _ hworld rfl ?_
    rw [Errand.call, Errand.stage_stride, hfirst]
    rfl
  | @tail e _ _ hstep ih =>
    cases ih (hstep.never hnever) with
    | begun first horder' hstrides hstage =>
      cases hstep with
      | others w haround =>
        obtain ⟨server', horder''⟩ := horder'.around haround
        exact .begun first horder'' hstrides hstage
      | cancel => cases hnever
      | stride p hp =>
        rw [hstage] at hp
        obtain rfl := Sum.inl.inj hp
        have hbegins : Errand.Follows (fun _ => True) .delivering (Progress.mapState .delivering)
            (fun r => .inr r) [first]
            (⟨e.world, .inl (.fresh target event), false, [], []⟩ : DeliveryErrand) e :=
          ⟨trivial, rfl, hstage, ⟨rfl, hnever⟩, hstrides⟩
        exact .delivering first horder' .refl (hbegins.stride (embeds_delivery s) _)
    | delivering first horder' hrun hfollows =>
      obtain ⟨e₁', hrun', hfollows'⟩ :=
        hfollows.of_run (embeds_delivery s) (.single hstep) hnever
      exact .delivering first horder' (hrun.trans hrun') hfollows'

/-- What a publisher has done that has delivered an event: all sends to those who were to have it
when the delivery `e₁` began have ended. -/
structure DeliveredBy (s : Nat) (target : Option ClientId) (event : Event) (e : LocalErrand)
    (c₁ : Cluster) (e₁ : DeliveryErrand) : Prop where
  run : Errand.Run (deliver s) (Amid s)
    (Errand.call (deliver s) c₁ false (.fresh target event)) e₁
  strides : ∃ first, e.strides =
    first :: e₁.strides.map (Errand.within .delivering (Progress.mapState .delivering))
  answered : ∀ m ∈ c₁.audience s target, Answered e.world event.frame (deliveryAccount e₁) m

theorem delivered_of_run (horder : InOrder s server c) (hjournal : server.journal = none)
    {e : LocalErrand} (hrun : Errand.Run (publishHere s) (Around s)
      (Errand.call (publishHere s) c false (.fresh target event)) e)
    (hnever : e.cancelled = false) (hend : e.stage = .inr (.ok ())) :
    ∃ c₁ e₁, DeliveredBy s target event e c₁ e₁ := by
  cases local_course horder hjournal hrun hnever with
  | begun first horder' hstrides hstage =>
    rw [hend] at hstage
    cases hstage
  | @delivering first server' c₁ horder' e₁ hrun₁ hfollows =>
    have hamid := hrun₁.mono fun _ _ haround => haround.toAmid
    obtain ⟨hcourse, _⟩ := delivery_course horder' hamid
    have hstage := hfollows.stage
    rw [hend] at hstage
    cases hend₁ : e₁.stage with
    | inl d =>
      rw [hend₁] at hstage
      cases hstage
    | inr r =>
      rw [hend₁] at hstage hcourse
      obtain rfl := Sum.inr.inj hstage
      cases hcourse with
      | complete hover hcleared =>
        exact ⟨c₁, e₁, hamid, ⟨first, hfollows.strides⟩, hfollows.world ▸ hover⟩

/-! ## Publications -/

/-- The stride in which the relay of the server `s` is handed the message of an event. -/
structure Hands (s : Nat) (server : Server) (target : Option ClientId) (event : Event) (w : Cluster)
    (t : Stride Cluster Publication (Except Error Unit)) : Prop where
  before : t.before = w
  after : t.after = (w.relay s server.channels.broadcast
    (Relay.Message.ofEvent server.id target event w.stamp).encode).1
  only : OnlyRelays t.before t.after

/-- What a publication of the server `s` has done that has come to the result `r`: all that the
publisher does alone in the call `e₁`, of which the relay hears nothing, and then, if it has
succeeded, one stride in which the relay is handed the message. -/
structure Relayed (s : Nat) (server : Server) (c : Cluster) (target : Option ClientId)
    (event : Event) (e₁ : LocalErrand)
    (relayed : List (Stride Cluster Publication (Except Error Unit))) (e : PublicationErrand)
    (r : Except Error Unit) : Prop where
  alone : Errand.Run (publishHere s) (Around s)
    (Errand.call (publishHere s) c false (.fresh target event)) e₁
  never : e₁.cancelled = false
  result : e₁.stage = .inr r
  strides : e.strides = e₁.strides.map
    (Errand.within (.publishing target event) (Publication.ofLocal target event)) ++ relayed
  unrelayed : ∀ t ∈ e₁.strides, Unrelayed t.before t.after
  failed : ∀ err, r = .error err → relayed = []
  succeeded : r = .ok () → ∃ t, relayed = [t] ∧ Hands s server target event e₁.world t
  /-- Before the relay is handed the message, all sends to the own connections have ended. -/
  delivered : r = .ok () → server.journal = none →
    ∃ c₁ e₂, DeliveredBy s target event e₁ c₁ e₂

theorem hands_of_relays {w : Cluster}
    {relayed : List (Stride Cluster (Decorated LocalPublish Empty) (Except Error Unit))}
    (hrelays : (server.decorator s).Relays target event w relayed) :
    ∃ t, relayed.map (Errand.within (publicationOf target event)
      (Progress.mapState (publicationOf target event))) = [t] ∧
      Hands s server target event w t := by
  cases hrelays with
  | @intro t rest hstate hbefore hafter hrest =>
    have hnone : rest = [] := List.eq_nil_iff_forall_not_mem.mpr fun u hu => by
      obtain ⟨q, _⟩ := hrest u hu
      exact q.elim
    rw [hnone]
    refine ⟨_, rfl, hbefore, hafter, ?_⟩
    show OnlyRelays t.before t.after
    rw [hbefore, hafter]
    exact onlyRelays_relay w s _ _

theorem speaks_of_relays (hserver : c.server? s = some server) (hrelays : server.relays = true) :
    Speaks s server c := by
  rw [Speaks, hserver, Option.map_some, Server.voice, hrelays]

theorem relayed_of_run (horder : InOrder s server c) (hrelays : server.relays = true)
    {e : PublicationErrand} (hrun : Errand.Run (publicize s) (Around s)
      (Errand.call (publicize s) c false (.ofEvent target event)) e)
    (hnever : e.cancelled = false) (hstage : e.stage = .inr r) :
    ∃ e₁ relayed, Relayed s server c target event e₁ relayed e r := by
  have hspeaks := speaks_of_relays horder.server hrelays
  have hembeds := embeds_publication s server target event
  obtain ⟨e₀, hrun₀, hfollows⟩ :=
    (hembeds.follows_call hspeaks (.publishing (.fresh target event))).of_run hembeds hrun hnever
  have hstage₀ : e₀.stage = .inr r := by
    have hwhole := hfollows.stage
    rw [hstage] at hwhole
    cases hend : e₀.stage with
    | inl x =>
      rw [hend] at hwhole
      cases hwhole
    | inr r₀ =>
      rw [hend] at hwhole
      rw [Sum.inr.inj hwhole]
  obtain ⟨e₁, relayed, hechoes⟩ := Decorator.echoes_of_run hrun₀ hfollows.never.1 hstage₀
  refine ⟨e₁, _, hechoes.alone, hechoes.never, hechoes.result, ?_, ?_, fun err herr => ?_,
    fun hok => hands_of_relays (hechoes.succeeded hok), fun hok hjournal => ?_⟩
  · rw [hfollows.strides, hechoes.strides, List.nil_append, List.map_append, List.map_map]
    rfl
  · exact hechoes.alone.strides_all fun w cancelled p => unrelayed_stepLocal p
  · rw [hechoes.failed err herr, List.map_nil]
  · exact delivered_of_run horder hjournal hechoes.alone hechoes.never (hok ▸ hechoes.result)

/-- Whatever the publisher of a server comes to alone, a publication comes to. -/
theorem exists_publication (hspeaks : Speaks s server c) {e₁ : LocalErrand}
    (halone : Errand.Run (publishHere s) (Around s)
      (Errand.call (publishHere s) c false (.fresh target event)) e₁)
    (hnever : e₁.cancelled = false) (hresult : e₁.stage = .inr r) :
    ∃ e, Errand.Run (publicize s) (Around s)
      (Errand.call (publicize s) c false (.ofEvent target event)) e ∧ e.cancelled = false ∧
      e.stage = .inr r := by
  have hembeds := embeds_publication s server target event
  have hanswers : (server.decorator s).Answers (Around s) := fun _ q => q.elim
  obtain ⟨e₀, hrun₀, hnever₀, hstage₀, _⟩ :=
    hanswers.exists_run_of_alone halone hnever hresult
  obtain ⟨e, hrun, hfollows⟩ :=
    (hembeds.follows_call hspeaks (.publishing (.fresh target event))).lift
      hembeds hrun₀ hnever₀
  refine ⟨e, hrun, hfollows.never.2, ?_⟩
  rw [hfollows.stage, hstage₀]
  rfl

/-- A relay behind a publisher changes nothing of what the publisher does and comes to, whatever the
publisher is and whatever the relay answers, unless the token is cancelled. When the publisher has
succeeded, the relay is handed one message, on the broadcast channel, with the name of the server,
the target and the event; when it has failed, none. It is so with the publications of a server: when
its relay is handed the message, all sends to its own connections have ended. -/
theorem relay_is_transparent :
    (∀ {ω σ τ : Type} (d : Decorator ω σ τ) (env : ω → ω → Prop) (w : ω)
        (target : Option ClientId) (event : Event)
        (e : Errand ω (Decorated σ τ) (Except Error Unit)) (r : Except Error Unit),
      Errand.Run (d.step target event) env (d.decorated w target event) e →
      e.cancelled = false → e.stage = .inr r →
      ∃ e₁ relayed, d.Echoes env w target event e₁ relayed e r) ∧
    (∀ {ω σ τ : Type} (d : Decorator ω σ τ) (env : ω → ω → Prop) (w : ω)
        (target : Option ClientId)
        (event : Event) (e₁ : Errand ω σ (Except Error Unit)) (r : Except Error Unit),
      d.Answers env → Errand.Run d.publish env (d.alone w target event) e₁ →
      e₁.cancelled = false → e₁.stage = .inr r →
      ∃ e, Errand.Run (d.step target event) env (d.decorated w target event) e ∧
        e.cancelled = false ∧ e.stage = .inr r ∧
        e₁.strides.map (Errand.within .publishing Decorated.ofPublish) <+: e.strides) ∧
    (∀ {ω σ τ : Type} (d : Decorator ω σ τ) (w : ω) (target : Option ClientId)
        (event : Event),
      Time.Date.minYear ≤ (d.stamp w).date.year →
      (d.stamp w).date.year ≤ Time.Date.maxYear →
      Relay.Message.decode (d.message target event w) =
        .ok ⟨d.id, target, event.name, event.payload.compact, event.id, d.stamp w⟩) ∧
    (∀ (s : Nat) (server : Server) (c : Cluster) (target : Option ClientId) (event : Event)
        (r : Except Error Unit), InOrder s server c → server.relays = true →
      (∀ e, Errand.Run (publicize s) (Around s)
          (Errand.call (publicize s) c false (.ofEvent target event)) e →
        e.cancelled = false → e.stage = .inr r →
        ∃ e₁ relayed, Relayed s server c target event e₁ relayed e r) ∧
      (∀ e₁, Errand.Run (publishHere s) (Around s)
          (Errand.call (publishHere s) c false (.fresh target event)) e₁ →
        e₁.cancelled = false → e₁.stage = .inr r →
        ∃ e, Errand.Run (publicize s) (Around s)
          (Errand.call (publicize s) c false (.ofEvent target event)) e ∧
          e.cancelled = false ∧ e.stage = .inr r)) := by
  refine ⟨fun d env w target event e r hrun hnever hstage => ?_,
    fun d env w target event e₁ r hanswers halone hnever hresult => ?_,
    fun d w target event hlow hhigh => ?_, fun s server c target event r horder hrelays => ?_⟩
  · exact Decorator.echoes_of_run hrun hnever hstage
  · exact hanswers.exists_run_of_alone halone hnever hresult
  · exact Relay.Message.decode_encode hlow hhigh
  · exact ⟨fun e hrun hnever hstage => relayed_of_run horder hrelays hrun hnever hstage,
      fun e₁ halone hnever hresult =>
        exists_publication (speaks_of_relays horder.server hrelays) halone hnever hresult⟩

def crowdRelay : Server := { crowdServer with link := .script { down := true } }

def crowdRelayed : Cluster := { crowded with servers := [crowdRelay] }

/-- The event for the client `x` is published, while the clock goes on. -/
def crowdPublished : PublicationErrand :=
  Errand.call (publicize 0) crowdRelayed false (.ofEvent (some "x") ⟨"ping", .null, none⟩)
  |> Errand.go (publicize 0) 2
  |> goAt (publicize 0) 3 4
  |> goAt (publicize 0) 13 3

theorem run_crowdPublished : Errand.Run (publicize 0) (Around 0)
    (Errand.call (publicize 0) crowdRelayed false (.ofEvent (some "x") ⟨"ping", .null, none⟩))
    crowdPublished :=
  (Errand.run_go 2 _).trans <|
    (run_goAt (around_clock 0) 3 4 _).trans (run_goAt (around_clock 0) 13 3 _)

theorem inOrder_crowdRelayed : InOrder 0 crowdRelay crowdRelayed where
  agrees := agrees_crowd
  member := ready_crowded.member
  server := rfl
  tidy := inOrder_crowded.tidy

/-- The relay cannot be reached, and the publication succeeds nevertheless. -/
theorem relay_is_transparent_crowded :
    crowdPublished.stage = .inr (.ok ()) ∧
    (∃ e₁ relayed,
      Relayed 0 crowdRelay crowdRelayed (some "x") ⟨"ping", .null, none⟩ e₁ relayed
      crowdPublished (.ok ())) ∧
    (crowdPublished.world.server? 0).map Server.link = some (.script
      { down := true
        published := [(crowdRelay.channels.broadcast, (Relay.Message.ofEvent ⟨"s"⟩ (some "x")
          ⟨"ping", .null, none⟩ .epoch).encode)] }) ∧
    crowdPublished.world.held 0 = ["event: ping\ndata: null\n\n"] ∧
    crowdPublished.world.isLive 1 = false := by
  have hstage : crowdPublished.stage = .inr (.ok ()) := rfl
  have hown := relay_is_transparent.2.2.2 0 crowdRelay crowdRelayed (some "x")
    ⟨"ping", .null, none⟩ (.ok ()) inOrder_crowdRelayed rfl
  refine ⟨hstage, hown.1 _ run_crowdPublished rfl hstage, ?_, ?_, ?_⟩ <;> decide +kernel

end EventHub.Cluster
