import EventHub.Proofs.Cluster.Fanout
import EventHub.Proofs.Connection.Fading
/-!
# Who is removed is dead

Publications, sweeps and whatever else runs on a server remove only connections that have been
closed, so that their streams have been told to end. What an activity is going to remove is part of
its state; `Spares` says that it spares whoever is live.
-/

namespace EventHub

/-- The states that the activity goes on from satisfy `P`. -/
def Progress.To {σ α : Type} (P : σ → Prop) : Progress σ α → Prop
  | .moved s => P s
  | .blocked | .done _ => True

theorem Progress.to_true {σ α : Type} (p : Progress σ α) : p.To fun _ => True := by
  cases p <;> trivial

theorem Progress.To.lift {σ τ α β : Type} {P : σ → Prop} {Q : τ → Prop}
    {f : σ → τ} {g : α → β} {p : Progress σ α} (hp : p.To P)
    (hf : ∀ s, P s → Q (f s)) : ((p.mapState f).map g).To Q := by
  cases p with
  | moved s => exact hf s hp
  | blocked | done => trivial

namespace Cluster

variable {c c' : Cluster} {s h : Nat} {id : ConnectionId} {cancelled : Bool}

/-! ## Connections -/

structure Grows (c c' : Cluster) : Prop where
  each : ∀ h x, c.connection? h = some x → ∃ x', c'.connection? h = some x' ∧ x.Fades x'

/-- What the connections of a cluster become by sends and the ends of their streams. -/
structure Fades (c c' : Cluster) : Prop extends Grows c c' where
  length_eq : c'.connections.length = c.connections.length

theorem Fades.refl (c : Cluster) : Fades c c :=
  ⟨⟨fun _ x hx => ⟨x, hx, Connection.Fades.refl x⟩⟩, rfl⟩

theorem Fades.trans {c'' : Cluster} (hfades : Fades c c') (hfades' : Fades c' c'') :
    Fades c c'' := by
  refine ⟨⟨fun h x hx => ?_⟩, hfades'.length_eq.trans hfades.length_eq⟩
  obtain ⟨x', hx', hconnection⟩ := hfades.each h x hx
  obtain ⟨x'', hx'', hconnection'⟩ := hfades'.each h x' hx'
  exact ⟨x'', hx'', hconnection.trans hconnection'⟩

theorem Fades.of_connections (hconnections : c'.connections = c.connections) : Fades c c' :=
  ⟨⟨fun _ x hx => ⟨x, by rwa [connection?, hconnections], Connection.Fades.refl x⟩⟩,
    by rw [hconnections]⟩

theorem fades_modifyConnection (h : Nat) {f : Connection → Connection}
    (hf : ∀ x : Connection, x.Fades (f x)) : Fades c (c.modifyConnection h f) := by
  refine ⟨⟨fun i x hx => ?_⟩, by simp [modifyConnection]⟩
  rw [connection?] at hx
  simp only [connection?, modifyConnection, List.getElem?_modify, hx]
  split
  · exact ⟨f x, rfl, hf x⟩
  · exact ⟨x, rfl, Connection.Fades.refl x⟩

theorem fades_setConnection {x y : Connection} (hx : c.connection? h = some x)
    (hfades : x.Fades y) : Fades c (c.setConnection h y) := by
  refine ⟨⟨fun i z hz => ?_⟩, by simp [setConnection]⟩
  rw [connection?_setConnection hx]
  split
  · next hi =>
    rw [hi, hx, Option.some.injEq] at hz
    exact ⟨y, rfl, hz ▸ hfades⟩
  · exact ⟨z, hz, Connection.Fades.refl z⟩

theorem Fades.exists_before (hfades : Fades c c') {x' : Connection}
    (hx' : c'.connection? h = some x') : ∃ x, c.connection? h = some x ∧ x.Fades x' := by
  have hlt : h < c.connections.length := by
    rw [← hfades.length_eq]
    exact (List.getElem?_eq_some_iff.mp hx').1
  obtain ⟨y, hy, hfaded⟩ := hfades.each h _ (List.getElem?_eq_getElem hlt)
  rw [hx', Option.some.injEq] at hy
  exact ⟨_, List.getElem?_eq_getElem hlt, hy ▸ hfaded⟩

theorem connection?_of_append {x y : Connection}
    (hconnections : c'.connections = c.connections ++ [x]) :
    c'.connection? h = some y ↔
      c.connection? h = some y ∨ h = c.connections.length ∧ y = x := by
  rw [connection?, hconnections, List.getElem?_append, connection?]
  split
  · next hlt => simp [Nat.ne_of_lt hlt]
  · next hge =>
    rw [List.getElem?_eq_none (Nat.le_of_not_lt hge), List.getElem?_singleton]
    split
    · next heq =>
      have hlast : h = c.connections.length := by omega
      simp [hlast, eq_comm]
    · next hne =>
      have hlast : h ≠ c.connections.length := by omega
      simp [hlast]

theorem grows_of_append {x : Connection} (hconnections : c'.connections = c.connections ++ [x]) :
    Grows c c' :=
  ⟨fun _ y hy =>
    ⟨y, (connection?_of_append hconnections).mpr (Or.inl hy), Connection.Fades.refl y⟩⟩

theorem Grows.member? (hgrows : Grows c c') {m : Member} (hm : c.member? h = some m) :
    c'.member? h = some m := by
  obtain ⟨x, hx, rfl⟩ := Option.map_eq_some_iff.mp hm
  obtain ⟨x', hx', hfaded⟩ := hgrows.each h x hx
  rw [Cluster.member?, hx', Option.map_some, hfaded.id_eq, hfaded.client_eq]

def Dead (c : Cluster) (id : ConnectionId) : Prop :=
  ∃ h x, c.connection? h = some x ∧ x.id = id ∧ x.live = false

theorem Grows.dead (hgrows : Grows c c') (hdead : Dead c id) : Dead c' id := by
  obtain ⟨h, x, hx, hid, hlive⟩ := hdead
  obtain ⟨x', hx', hfaded⟩ := hgrows.each h x hx
  exact ⟨h, x', hx', hfaded.id_eq.trans hid, hfaded.dead hlive⟩

def DeadAt (c : Cluster) (h : Nat) : Prop := ∃ x, c.connection? h = some x ∧ x.live = false

theorem Grows.deadAt (hgrows : Grows c c') (hdead : DeadAt c h) : DeadAt c' h := by
  obtain ⟨x, hx, hlive⟩ := hdead
  obtain ⟨x', hx', hfaded⟩ := hgrows.each h x hx
  exact ⟨x', hx', hfaded.dead hlive⟩

def Taken (c : Cluster) (h : Nat) : Prop := ∃ x, c.connection? h = some x

theorem Grows.taken (hgrows : Grows c c') (htaken : Taken c h) : Taken c' h := by
  obtain ⟨x, hx⟩ := htaken
  obtain ⟨x', hx', _⟩ := hgrows.each h x hx
  exact ⟨x', hx'⟩

theorem taken_of_member? {m : Member} (hm : c.member? h = some m) : Taken c h := by
  obtain ⟨x, hx, _⟩ := Option.map_eq_some_iff.mp hm
  exact ⟨x, hx⟩

theorem fades_stepSend (c : Cluster) (cancelled : Bool) (send : Send) :
    Fades c (c.stepSend cancelled send).1 := by
  unfold stepSend
  split
  · exact Fades.refl c
  · next x hx => exact fades_setConnection hx (Connection.fades_stepSend x _ _ _ _)

/-- A send that fails leaves its connection dead. -/
theorem deadAt_of_stepSend (cancelled : Bool) {send : Send} (htaken : Taken c send.handle)
    (e : Error) (herror : (c.stepSend cancelled send).2 = .done (.error e))
    (hcancelled : e.isCancelled = false) : DeadAt (c.stepSend cancelled send).1 send.handle := by
  obtain ⟨x, hx⟩ := htaken
  simp only [stepSend, hx] at herror ⊢
  refine ⟨_, (connection?_setConnection hx _ _).trans (if_pos rfl),
    Connection.dead_of_stepSend ?_ hcancelled⟩
  generalize x.stepSend c.now cancelled send.frame send.state = p at herror
  obtain ⟨y, _ | state | r⟩ := p <;> cases herror
  rfl

theorem handle_of_stepSend (c : Cluster) (cancelled : Bool) (send send' : Send)
    (hmoved : (c.stepSend cancelled send).2 = .moved send') : send'.handle = send.handle := by
  unfold stepSend at hmoved
  split at hmoved
  · cases hmoved
  · next x _ =>
    dsimp only at hmoved
    generalize x.stepSend c.now cancelled send.frame send.state = p at hmoved
    obtain ⟨y, _ | state | r⟩ := p <;> cases hmoved
    rfl

/-! ## Sends of a delivery -/

/-- A send goes to a connection, and one that has failed has left its connection dead. -/
def Slot.Spares (c : Cluster) : Slot → Prop
  | .sending send => Taken c send.handle
  | .ended h r => ∀ e, r = .error e → e.isCancelled = false → DeadAt c h

theorem Slot.Spares.grows {slot : Slot} (hspares : slot.Spares c) (hgrows : Grows c c') :
    slot.Spares c' := by
  cases slot with
  | sending send => exact hgrows.taken hspares
  | ended h r => exact fun e he hcancelled => hgrows.deadAt (hspares e he hcancelled)

theorem fades_abandonSlots (slots : List Slot) (c : Cluster) : Fades c (c.abandonSlots slots) := by
  induction slots generalizing c with
  | nil => exact Fades.refl c
  | cons slot rest ih =>
    cases slot with
    | sending send =>
      exact (fades_modifyConnection send.handle fun x => Connection.fades_abandon x _).trans (ih _)
    | ended _ _ => exact ih c

theorem fades_stepSlots (cancelled : Bool) (slots : List Slot) (c : Cluster) :
    Fades c (c.stepSlots cancelled slots).1 := by
  induction slots generalizing c with
  | nil => exact Fades.refl c
  | cons slot rest ih =>
    cases slot with
    | sending send =>
      have hsend := fades_stepSend c cancelled send
      rw [stepSlots]
      generalize c.stepSend cancelled send = p at hsend
      obtain ⟨c', _ | send' | r⟩ := p <;> exact hsend.trans (ih c')
    | ended _ _ => exact ih c

theorem spares_stepSlots (cancelled : Bool) {slots : List Slot}
    (hspares : ∀ slot ∈ slots, slot.Spares c) :
    ∀ slot ∈ (c.stepSlots cancelled slots).2.1,
      slot.Spares (c.stepSlots cancelled slots).1 := by
  induction slots generalizing c with
  | nil => simp [stepSlots]
  | cons slot rest ih =>
    obtain ⟨hslot, hrest⟩ := List.forall_mem_cons.mp hspares
    cases slot with
    | ended h r =>
      rw [stepSlots]
      exact List.forall_mem_cons.mpr
        ⟨hslot.grows (fades_stepSlots cancelled rest c).toGrows, ih hrest⟩
    | sending send =>
      have hfades := fades_stepSend c cancelled send
      have hdead := deadAt_of_stepSend cancelled hslot
      have hmoved := handle_of_stepSend c cancelled send
      have htaken := hfades.taken hslot
      rw [stepSlots]
      generalize c.stepSend cancelled send = p at hfades hdead hmoved htaken
      have hrest' : ∀ slot ∈ rest, slot.Spares p.1 :=
        fun x hx => (hrest x hx).grows hfades.toGrows
      have hlater := (fades_stepSlots cancelled rest p.1).toGrows
      obtain ⟨c', _ | send' | r⟩ := p
      · exact List.forall_mem_cons.mpr ⟨hlater.taken htaken, ih hrest'⟩
      · refine List.forall_mem_cons.mpr ⟨hlater.taken ?_, ih hrest'⟩
        exact (hmoved send' rfl).symm ▸ htaken
      · refine List.forall_mem_cons.mpr ⟨fun e he hcancelled => ?_, ih hrest'⟩
        exact hlater.deadAt (hdead e (he ▸ rfl) hcancelled)

theorem dead_of_failedOf {slots : List Slot} {ids : List ConnectionId}
    (hspares : ∀ slot ∈ slots, slot.Spares c) (hfailed : c.failedOf slots = .ok ids) :
    ∀ id ∈ ids, Dead c id := by
  induction slots generalizing ids with
  | nil =>
    cases hfailed
    simp
  | cons slot rest ih =>
    obtain ⟨hslot, hrest⟩ := List.forall_mem_cons.mp hspares
    match slot with
    | .sending send => exact ih hrest hfailed
    | .ended _ (.ok ()) => exact ih hrest hfailed
    | .ended h (.error e) =>
      rw [failedOf] at hfailed
      cases hcancelled : e.isCancelled with
      | true =>
        rw [hcancelled] at hfailed
        cases hfailed
      | false =>
        rw [hcancelled, if_neg Bool.false_ne_true] at hfailed
        cases hids : c.failedOf rest with
        | error e =>
          rw [hids] at hfailed
          cases hfailed
        | ok ids' =>
          rw [hids] at hfailed
          cases hfailed
          intro id hid
          rcases List.mem_append.mp hid with hid | hid
          · obtain ⟨x, hx, hlive⟩ := hslot e rfl hcancelled
            rw [hx, Option.map_some, Option.toList_some, List.mem_singleton] at hid
            exact ⟨h, x, hx, hid.symm, hlive⟩
          · exact ih hrest hids id hid

/-! ## Heartbeats -/

def Beat.Spares (c : Cluster) : Beat → Prop
  | .fresh m => c.member? m.handle = some m
  | .sending m send => send.handle = m.handle ∧ c.member? m.handle = some m
  | .ended m dead => dead = true → Dead c m.id

theorem Beat.Spares.grows {b : Beat} (hspares : b.Spares c) (hgrows : Grows c c') :
    b.Spares c' := by
  cases b with
  | fresh m => exact hgrows.member? hspares
  | sending m send => exact ⟨hspares.1, hgrows.member? hspares.2⟩
  | ended m dead => exact fun hdead => hgrows.dead (hspares hdead)

theorem dead_of_deadAt {m : Member} (hm : c.member? m.handle = some m)
    (hdead : DeadAt c m.handle) : Dead c m.id := by
  obtain ⟨x, hx, hlive⟩ := hdead
  rw [member?, hx, Option.map_some, Option.some.injEq] at hm
  exact ⟨m.handle, x, hx, congrArg Member.id hm, hlive⟩

theorem fades_stepBeat (c : Cluster) (cancelled : Bool) (b : Beat) :
    Fades c (c.stepBeat cancelled b).1 := by
  cases b with
  | fresh m =>
    rw [stepBeat]
    split <;> exact Fades.refl c
  | sending m send =>
    have hsend := fades_stepSend c cancelled send
    rw [stepBeat]
    generalize c.stepSend cancelled send = p at hsend
    obtain ⟨c', _ | send' | r⟩ := p <;> exact hsend
  | ended _ _ => exact Fades.refl c

theorem spares_stepBeat {b : Beat} (hspares : b.Spares c) :
    (c.stepBeat cancelled b).2.1.Spares (c.stepBeat cancelled b).1 := by
  cases b with
  | fresh m =>
    rw [stepBeat]
    split
    · exact ⟨rfl, hspares⟩
    · next hlive =>
      obtain ⟨x, hx⟩ := taken_of_member? hspares
      refine fun _ => dead_of_deadAt hspares ⟨x, hx, ?_⟩
      simpa [isLive, hx] using hlive
  | sending m send =>
    obtain ⟨hhandle, hm⟩ := hspares
    have hfades := fades_stepSend c cancelled send
    have htaken : Taken c send.handle := hhandle ▸ taken_of_member? hm
    have hdead := deadAt_of_stepSend cancelled htaken
    have hmoved := handle_of_stepSend c cancelled send
    rw [stepBeat]
    generalize c.stepSend cancelled send = p at hfades hdead hmoved
    obtain ⟨c', _ | send' | r⟩ := p
    · exact ⟨hhandle, hfades.member? hm⟩
    · exact ⟨(hmoved _ rfl).trans hhandle, hfades.member? hm⟩
    · intro hfailure
      cases r with
      | ok => cases hfailure
      | error e =>
        refine dead_of_deadAt (hfades.member? hm) (hhandle ▸ hdead e rfl ?_)
        simpa [isFailure] using hfailure
  | ended m dead => exact hspares

theorem fades_stepBeats (cancelled : Bool) (beats : List Beat) (c : Cluster) :
    Fades c (c.stepBeats cancelled beats).1 := by
  induction beats generalizing c with
  | nil => exact Fades.refl c
  | cons b rest ih => exact (fades_stepBeat c cancelled b).trans (ih _)

theorem spares_stepBeats (cancelled : Bool) {beats : List Beat}
    (hspares : ∀ b ∈ beats, b.Spares c) :
    ∀ b ∈ (c.stepBeats cancelled beats).2.1, b.Spares (c.stepBeats cancelled beats).1 := by
  induction beats generalizing c with
  | nil => simp [stepBeats]
  | cons b rest ih =>
    obtain ⟨hb, hrest⟩ := List.forall_mem_cons.mp hspares
    have hfades := fades_stepBeat c cancelled b
    exact List.forall_mem_cons.mpr
      ⟨(spares_stepBeat hb).grows (fades_stepBeats cancelled rest _).toGrows,
        ih fun x hx => (hrest x hx).grows hfades.toGrows⟩

theorem dead_of_deadOf {beats : List Beat} (hspares : ∀ b ∈ beats, b.Spares c) :
    ∀ id ∈ deadOf beats, Dead c id := by
  intro id hid
  obtain ⟨b, hb, hid⟩ := List.mem_filterMap.mp hid
  match b with
  | .ended m true =>
    cases hid
    exact hspares _ hb rfl

/-! ## Whatever removes connections -/

def Removal.Spares (c : Cluster) (r : Removal) : Prop := ∀ id ∈ r.pending, Dead c id

def Removals.Spares (c : Cluster) (r : Removals) : Prop := ∀ id ∈ r.pending, Dead c id

def Delivery.Spares (c : Cluster) : Delivery → Prop
  | .fresh .. => True
  | .sending slots => ∀ slot ∈ slots, slot.Spares c
  | .pruning r => r.Spares c

def LocalPublish.Spares (c : Cluster) : LocalPublish → Prop
  | .fresh .. => True
  | .delivering d => d.Spares c

def Publication.Spares (c : Cluster) : Publication → Prop
  | .publishing _ _ p => p.Spares c
  | .relaying .. => True

def Handling.Spares (c : Cluster) : Handling → Prop
  | .fresh _ => True
  | .publishing p => p.Spares c

def Sweep.Spares (c : Cluster) : Sweep → Prop
  | .fresh => True
  | .beating beats => ∀ b ∈ beats, b.Spares c
  | .evicting _ r => r.Spares c

def Loop.Spares (c : Cluster) : Loop Sweep → Prop
  | .starting _ | .waiting _ => True
  | .working _ w => w.Spares c

def Subscriber.Spares (c : Cluster) : Subscriber → Prop
  | .subscribing _ | .resting .. | .listening _ => True
  | .handling _ h => h.Spares c

theorem Delivery.Spares.grows {d : Delivery} (hspares : d.Spares c) (hgrows : Grows c c') :
    d.Spares c' := by
  cases d with
  | fresh target e => trivial
  | sending slots => exact fun slot hslot => (hspares slot hslot).grows hgrows
  | pruning r => exact fun id hid => hgrows.dead (hspares id hid)

theorem LocalPublish.Spares.grows {p : LocalPublish} (hspares : p.Spares c)
    (hgrows : Grows c c') : p.Spares c' := by
  cases p with
  | fresh target e => trivial
  | delivering d => exact Delivery.Spares.grows hspares hgrows

theorem Publication.Spares.grows {p : Publication} (hspares : p.Spares c)
    (hgrows : Grows c c') : p.Spares c' := by
  cases p with
  | publishing target e p => exact LocalPublish.Spares.grows hspares hgrows
  | relaying target e => trivial

theorem Handling.Spares.grows {x : Handling} (hspares : x.Spares c) (hgrows : Grows c c') :
    x.Spares c' := by
  cases x with
  | fresh raw => trivial
  | publishing p => exact LocalPublish.Spares.grows hspares hgrows

theorem Sweep.Spares.grows {w : Sweep} (hspares : w.Spares c) (hgrows : Grows c c') :
    w.Spares c' := by
  cases w with
  | fresh => trivial
  | beating beats => exact fun b hb => (hspares b hb).grows hgrows
  | evicting count r => exact fun id hid => hgrows.dead (hspares id hid)

/-- What one step does to the connections, and that it goes on to spare those that live. -/
structure Sparing {σ α : Type} (c : Cluster) (P : Cluster → σ → Prop)
    (q : Cluster × Progress σ α) : Prop where
  fades : Fades c q.1
  spares : q.2.To (P q.1)

theorem Sparing.lift {σ τ α β : Type} {P : Cluster → σ → Prop}
    {Q : Cluster → τ → Prop}
    {f : σ → τ} {g : α → β} {q : Cluster × Progress σ α} (hsparing : Sparing c P q)
    (hf : ∀ c s, P c s → Q c (f s)) : Sparing c Q (q.1, (q.2.mapState f).map g) :=
  ⟨hsparing.fades, hsparing.spares.lift fun s => hf q.1 s⟩

theorem connections_stepRemoval (c : Cluster) (s : Nat) (r : Removal) :
    (c.stepRemoval s r).1.connections = c.connections := by
  cases r with
  | fresh id =>
    simp only [stepRemoval]
    cases c.server? s with
    | none => rfl
    | some server =>
      dsimp only
      split
      · rfl
      · split <;> rfl
  | unregistering id w =>
    simp only [stepRemoval]
    cases c.server? s with
    | none => rfl
    | some server =>
      have hcall := stepCall_step c (.unregister server.id id) w
      dsimp only
      generalize c.stepCall (.unregister server.id id) w = p at hcall
      cases hcall <;> rfl

theorem pending_stepRemoval (c : Cluster) (s : Nat) (r : Removal) :
    (c.stepRemoval s r).2.To fun r' => r'.pending = [] := by
  cases r with
  | fresh id =>
    obtain ⟨c', ⟨result, hstep⟩ | hstep⟩ := stepRemoval_fresh c s id <;> rw [hstep]
    · trivial
    · rfl
  | unregistering id w =>
    simp only [stepRemoval]
    cases c.server? s with
    | none => trivial
    | some server =>
      dsimp only
      cases (c.stepCall (.unregister server.id id) w).2 with
      | moved w' => rfl
      | blocked | done => trivial

theorem sparing_stepRemoval (c : Cluster) (s : Nat) (r : Removal) :
    Sparing c Removal.Spares (c.stepRemoval s r) := by
  refine ⟨Fades.of_connections (connections_stepRemoval c s r), ?_⟩
  have hpending := pending_stepRemoval c s r
  cases hp : (c.stepRemoval s r).2 with
  | moved r' =>
    rw [hp] at hpending
    intro id hid
    rw [show r'.pending = [] from hpending] at hid
    cases hid
  | blocked | done => trivial

theorem sparing_stepRemovals (s : Nat) {r : Removals} (hspares : r.Spares c) :
    Sparing c Removals.Spares (c.stepRemovals s r) := by
  obtain ⟨current, rest⟩ := r
  have hrest : ∀ id ∈ rest, Dead c id :=
    fun id hid => hspares id (by simp [Removals.pending, hid])
  cases current with
  | none =>
    cases rest with
    | nil => exact ⟨Fades.refl c, trivial⟩
    | cons id rest => exact ⟨Fades.refl c, hspares⟩
  | some removal =>
    obtain ⟨hfades, hremoval⟩ := sparing_stepRemoval c s removal
    simp only [stepRemovals]
    generalize c.stepRemoval s removal = p at hfades hremoval
    have hrest' : ∀ id ∈ rest, Dead p.1 id := fun id hid => hfades.dead (hrest id hid)
    obtain ⟨c', _ | removal' | result⟩ := p
    · exact ⟨hfades, trivial⟩
    · refine ⟨hfades, fun id hid => ?_⟩
      rcases List.mem_append.mp hid with hid | hid
      · exact hremoval id (by simpa using hid)
      · exact hrest' id hid
    · exact ⟨hfades, hrest'⟩

/-! ## Publications -/

theorem sparing_stepDelivery (cancelled : Bool) (hlocated : Located s c) {d : Delivery}
    (hspares : d.Spares c) : Sparing c Delivery.Spares (c.stepDelivery cancelled s d) := by
  cases d with
  | fresh target e =>
    rw [stepDelivery]
    split
    · exact ⟨Fades.refl c, trivial⟩
    · dsimp only
      split
      · exact ⟨Fades.refl c, trivial⟩
      · refine ⟨Fades.refl c, fun slot hslot => ?_⟩
        obtain ⟨m, hm, rfl⟩ := List.mem_map.mp hslot
        have hmember := (mem_targets_of_agrees hlocated.agrees).mp (List.mem_filter.mp hm).1
        exact taken_of_member? (hlocated.member m hmember.1)
  | sending slots =>
    rw [stepDelivery]
    split
    · exact ⟨fades_abandonSlots slots c, trivial⟩
    · have hfades := fades_stepSlots cancelled slots c
      have hslots := spares_stepSlots cancelled hspares
      generalize c.stepSlots cancelled slots = p at hfades hslots
      obtain ⟨c', slots', moved⟩ := p
      dsimp only at hfades hslots ⊢
      split
      · split
        · exact ⟨hfades, trivial⟩
        · next ids hids => exact ⟨hfades, dead_of_failedOf hslots hids⟩
      · split
        · exact ⟨hfades, hslots⟩
        · exact ⟨hfades, trivial⟩
  | pruning r => exact (sparing_stepRemovals s hspares).lift fun _ _ h => h

theorem sparing_stepLocal (cancelled : Bool) (hlocated : Located s c) {p : LocalPublish}
    (hspares : p.Spares c) : Sparing c LocalPublish.Spares (c.stepLocal cancelled s p) := by
  cases p with
  | fresh target e =>
    rw [stepLocal]
    split
    · exact ⟨Fades.of_connections rfl, trivial⟩
    · exact ⟨Fades.refl c, trivial⟩
  | delivering d =>
    obtain ⟨hfades, hdelivery⟩ := sparing_stepDelivery cancelled hlocated hspares
    rw [stepLocal]
    generalize c.stepDelivery cancelled s d = q at hfades hdelivery
    obtain ⟨c', _ | d' | r⟩ := q <;> exact ⟨hfades, hdelivery⟩

theorem connections_relay (c : Cluster) (s : Nat) (channel message : String) :
    (c.relay s channel message).1.connections = c.connections := by
  unfold relay
  split <;> rfl

theorem sparing_stepPublication (cancelled : Bool) (hlocated : Located s c) {p : Publication}
    (hspares : p.Spares c) : Sparing c Publication.Spares (c.stepPublication cancelled s p) := by
  cases p with
  | publishing target e q =>
    obtain ⟨hfades, hlocal⟩ := sparing_stepLocal cancelled hlocated hspares
    rw [stepPublication]
    generalize c.stepLocal cancelled s q = step at hfades hlocal
    obtain ⟨c', _ | q' | ⟨e | _⟩⟩ := step
    · exact ⟨hfades, trivial⟩
    · exact ⟨hfades, hlocal⟩
    · exact ⟨hfades, trivial⟩
    · dsimp only
      split <;> exact ⟨hfades, trivial⟩
  | relaying target e =>
    rw [stepPublication]
    split
    · exact ⟨Fades.refl c, trivial⟩
    · split
      · exact ⟨Fades.refl c, trivial⟩
      · exact ⟨Fades.of_connections (connections_relay c s _ _), trivial⟩

theorem sparing_stepHandling (cancelled : Bool) (hlocated : Located s c) {x : Handling}
    (hspares : x.Spares c) :
    Sparing c Handling.Spares (c.stepHandling cancelled s x) := by
  cases x with
  | fresh raw =>
    rw [stepHandling]
    split
    · exact ⟨Fades.refl c, trivial⟩
    · next server _ =>
      cases hreceived : received server.id raw with
      | error e => exact ⟨Fades.refl c, trivial⟩
      | ok p =>
        cases p with
        | none => exact ⟨Fades.refl c, trivial⟩
        | some p =>
          refine ⟨Fades.refl c, ?_⟩
          unfold received at hreceived
          split at hreceived
          · cases hreceived
          · split at hreceived
            · cases hreceived
            · split at hreceived <;> cases hreceived
              trivial
  | publishing p =>
    obtain ⟨hfades, hlocal⟩ := sparing_stepLocal cancelled hlocated hspares
    rw [stepHandling]
    generalize c.stepLocal cancelled s p = q at hfades hlocal
    obtain ⟨c', _ | p' | r⟩ := q <;> exact ⟨hfades, hlocal⟩

/-! ## Sweeps and loops -/

theorem sparing_stepSweep (cancelled : Bool) (hlocated : Located s c) {w : Sweep}
    (hspares : w.Spares c) : Sparing c Sweep.Spares (c.stepSweep cancelled s w) := by
  cases w with
  | fresh =>
    rw [stepSweep]
    split
    · exact ⟨Fades.refl c, trivial⟩
    · refine ⟨Fades.refl c, fun b hb => ?_⟩
      obtain ⟨m, hm, rfl⟩ := List.mem_map.mp hb
      exact hlocated.member m hm
  | beating beats =>
    have hfades := fades_stepBeats cancelled beats c
    have hbeats := spares_stepBeats cancelled hspares
    rw [stepSweep]
    generalize c.stepBeats cancelled beats = p at hfades hbeats
    obtain ⟨c', beats', moved⟩ := p
    dsimp only at hfades hbeats ⊢
    split
    · exact ⟨hfades, dead_of_deadOf hbeats⟩
    · split
      · exact ⟨hfades, hbeats⟩
      · exact ⟨hfades, trivial⟩
  | evicting count r => exact (sparing_stepRemovals s hspares).lift fun _ _ h => h

theorem sparing_stepHeartbeat (cancelled stopFirst : Bool) (hlocated : Located s c)
    {l : Loop Sweep} (hspares : l.Spares c) :
    Sparing c Loop.Spares (c.stepHeartbeat cancelled stopFirst s l) := by
  cases l with
  | starting period => exact ⟨Fades.refl c, trivial⟩
  | waiting t =>
    simp only [stepHeartbeat, stepLoop]
    split
    · exact ⟨Fades.refl c, trivial⟩
    · split <;> exact ⟨Fades.refl c, trivial⟩
  | working t w =>
    obtain ⟨hfades, hsweep⟩ := sparing_stepSweep cancelled hlocated hspares
    simp only [stepHeartbeat, stepLoop]
    generalize c.stepSweep cancelled s w = p at hfades hsweep
    obtain ⟨c', _ | w' | n⟩ := p
    · exact ⟨hfades, trivial⟩
    · exact ⟨hfades, hsweep⟩
    · exact ⟨hfades, trivial⟩

theorem connections_subscribe (c : Cluster) (s : Nat) :
    (c.subscribe s).1.connections = c.connections := by
  unfold subscribe
  split
  · rfl
  · dsimp only
    split <;> rfl

theorem sparing_stepSubscriber (cancelled stopFirst : Bool) (hlocated : Located s c)
    {x : Subscriber} (hspares : x.Spares c) :
    Sparing c Subscriber.Spares (c.stepSubscriber cancelled stopFirst s x) := by
  cases x with
  | subscribing pause =>
    have hsubscribe := connections_subscribe c s
    rw [stepSubscriber]
    split
    · exact ⟨Fades.refl c, trivial⟩
    · generalize c.subscribe s = p at hsubscribe
      obtain ⟨c', _ | feed⟩ := p <;> exact ⟨Fades.of_connections hsubscribe, trivial⟩
  | resting time pause =>
    rw [stepSubscriber]
    split
    · exact ⟨Fades.refl c, trivial⟩
    · split <;> exact ⟨Fades.refl c, trivial⟩
  | listening feed =>
    rw [stepSubscriber]
    split
    · exact ⟨Fades.refl c, trivial⟩
    · split
      · split
        · exact ⟨Fades.refl c, trivial⟩
        · split <;> exact ⟨Fades.refl c, trivial⟩
      all_goals exact ⟨Fades.refl c, trivial⟩
  | handling feed h =>
    obtain ⟨hfades, hhandling⟩ := sparing_stepHandling cancelled hlocated hspares
    rw [stepSubscriber]
    generalize c.stepHandling cancelled s h = p at hfades hhandling
    obtain ⟨c', _ | h' | ⟨e | _⟩⟩ := p
    · exact ⟨hfades, trivial⟩
    · exact ⟨hfades, hhandling⟩
    · dsimp only
      split <;> exact ⟨hfades, trivial⟩
    · exact ⟨hfades, trivial⟩

end Cluster

end EventHub
