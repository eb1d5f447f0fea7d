import EventHub.Proofs.Cluster.Removals
/-!
# What a step does to the store

Whatever an activity does, its step registers a connection, takes one out of a registry, unregisters
one, is refused by the store, or does nothing that the store and the registries hear of.
-/

namespace EventHub.Cluster

variable {c c' : Cluster} {s : Nat} {cancelled : Bool}

/-- What a step of an activity does, from what it had taken out of a registry before the step to
what it has taken out after it, with the call that it brings to an end. -/
inductive Deed (c : Cluster) : Option (Nat × ConnectionId) → Cluster →
    Option (Nat × ConnectionId) → Option (Store.Call × Except Error Nat) → Prop where
  | quiet {l : Option (Nat × ConnectionId)} {c' : Cluster} (hquiet : Quiet c c') :
      Deed c l c' l none
  | registered {s h : Nat} {server : Server} {x : Connection} {lifetime : Nat}
      {calls : List Store.Call} (hserver : c.server? s = some server)
      (hx : c.connection? h = some x) :
      Deed c none (enrol { c with
        storeCalls := calls
        store := (c.store.perform (.register (recordOf server.id x) lifetime)).1 } s h) none
        (some (.register (recordOf server.id x) lifetime, .ok 0))
  | notRegistered {c' : Cluster} {record : Store.Record} {lifetime : Nat} {e : Error}
      (hquiet : Quiet c c') : Deed c none c' none (some (.register record lifetime, .error e))
  | taken {s : Nat} {server : Server} {id : ConnectionId} {m : Member}
      (hserver : c.server? s = some server) (hm : server.registry.find? id = some m) :
      Deed c none (c.setRegistry s (server.registry.take id).1) (some (s, id)) none
  | unregistered {s : Nat} {server : Server} {id : ConnectionId} {calls : List Store.Call}
      (hserver : c.server? s = some server) :
      Deed c (some (s, id)) { c with
        storeCalls := calls
        store := (c.store.perform (.unregister server.id id)).1 } none
        (some (.unregister server.id id, .ok 0))
  | refused {c' : Cluster} {s : Nat} {server : Server} {id : ConnectionId} {e : Error}
      (hserver : c.server? s = some server) (hquiet : Quiet c c') :
      Deed c (some (s, id)) c' none (some (.unregister server.id id, .error e))

def Shares (c : Cluster) : Prop :=
  ∀ s server, c.server? s = some server → server.sharing.isSome = true

/-! ## Registrations -/

/-- What a step of adding a connection may come to: it registers the connection, puts it into the
registry and ends well, or it changes nothing. -/
inductive AddStep (c : Cluster) (s h : Nat) : Cluster × Progress StoreWait (Except Error Unit) →
    Option (Store.Call × Except Error Nat) → Prop where
  | quiet {c' : Cluster} {p : Progress StoreWait (Except Error Unit)} (hquiet : Quiet c c') :
      AddStep c s h (c', p) none
  | failed {c' : Cluster} {record : Store.Record} {lifetime : Nat} {e : Error}
      (hquiet : Quiet c c') :
      AddStep c s h (c', .done (.error e)) (some (.register record lifetime, .error e))
  | registered {server : Server} {x : Connection} {lifetime : Nat} {calls : List Store.Call}
      (hserver : c.server? s = some server) (hx : c.connection? h = some x) :
      AddStep c s h (enrol { c with
        storeCalls := calls
        store := (c.store.perform (.register (recordOf server.id x) lifetime)).1 } s h,
        .done (.ok ())) (some (.register (recordOf server.id x) lifetime, .ok 0))

theorem stepAdd_step (hshares : c.Shares) (cancelled : Bool) (s h : Nat) (w : StoreWait) :
    AddStep c s h (c.stepAdd cancelled s h w) ((Activity.add s h w).settled? c cancelled) := by
  cases cancelled with
  | true => exact .quiet (Quiet.refl c)
  | false =>
    cases hserver : c.server? s with
    | none =>
      simp only [stepAdd, Activity.settled?, registration?, hserver, Bool.false_eq_true, if_false]
      exact .quiet (Quiet.refl c)
    | some server =>
      cases hx : c.connection? h with
      | none =>
        simp only [stepAdd, Activity.settled?, registration?, hserver, hx, Bool.false_eq_true,
          if_false]
        exact .quiet (Quiet.refl c)
      | some x =>
        obtain ⟨sharing, hsharing⟩ := Option.isSome_iff_exists.mp (hshares s server hserver)
        simp only [stepAdd, Activity.settled?, registration?, hserver, hx, hsharing,
          Bool.false_eq_true, if_false, Option.map_some, Option.bind_some, settled?]
        have hcall := stepCall_step c (.register (recordOf server.id x) sharing.lifetime) w
        generalize c.stepCall (.register (recordOf server.id x) sharing.lifetime) w = p at hcall
        cases hcall with
        | blocked => exact .quiet (Quiet.refl c)
        | moved => exact .quiet (Quiet.of_eq rfl rfl rfl)
        | failed => exact .failed (Quiet.of_eq rfl rfl rfl)
        | performed => exact .registered hserver hx

/-- Adding a connection changes nothing until it ends well. -/
theorem quiet_stepAdd (hshares : c.Shares) {h : Nat} {w : StoreWait}
    (hresult : (c.stepAdd cancelled s h w).2 ≠ .done (.ok ())) :
    Quiet c (c.stepAdd cancelled s h w).1 := by
  have hstep := stepAdd_step hshares cancelled s h w
  generalize c.stepAdd cancelled s h w = p, (Activity.add s h w).settled? c cancelled = answer
    at hstep hresult
  cases hstep with
  | quiet hquiet => exact hquiet
  | failed hquiet => exact hquiet
  | registered => exact absurd rfl hresult

theorem deed_stepAdd (hshares : c.Shares) (cancelled : Bool) (s h : Nat) (w : StoreWait) :
    Deed c none (c.stepAdd cancelled s h w).1 none ((Activity.add s h w).settled? c cancelled) := by
  have hstep := stepAdd_step hshares cancelled s h w
  generalize c.stepAdd cancelled s h w = p, (Activity.add s h w).settled? c cancelled = answer
    at hstep
  cases hstep with
  | quiet hquiet => exact .quiet hquiet
  | failed hquiet => exact .notRegistered hquiet
  | registered hserver hx => exact .registered hserver hx

/-! ## Removals -/

theorem Removes.deed {before after : Option Removal} (hremoves : Removes s c before (c', after))
    (hshares : c.Shares)
    (hserver : (before.bind Removal.leaving?).isSome = true → (c.server? s).isSome = true) :
    Deed c ((before.bind Removal.leaving?).map (s, ·)) c'
      ((after.bind Removal.leaving?).map (s, ·))
      (before.bind fun r => (r.call? c s).bind fun q => c.settled? q.1 q.2) := by
  cases hremoves with
  | quiet hquiet hfresh =>
    rw [hfresh]
    exact .quiet hquiet
  | step r =>
    cases r with
    | fresh id =>
      simp only [stepRemoval]
      cases hs : c.server? s with
      | none => exact .quiet (Quiet.refl c)
      | some server =>
        cases hm : server.registry.find? id with
        | none =>
          simp only [Registry.take, hm]
          exact .quiet (Quiet.refl c)
        | some m =>
          have htaken := Deed.taken hs hm
          simp only [Registry.take, hm, hshares s server hs, if_true] at htaken ⊢
          exact htaken
    | unregistering id w =>
      obtain ⟨server, hs⟩ := Option.isSome_iff_exists.mp (hserver rfl)
      simp only [stepRemoval, Option.bind_some, Removal.call?, hs, Option.map_some, settled?]
      have hcall := stepCall_step c (.unregister server.id id) w
      generalize c.stepCall (.unregister server.id id) w = p at hcall
      cases hcall with
      | blocked => exact .quiet (Quiet.refl c)
      | moved => exact .quiet (Quiet.of_eq rfl rfl rfl)
      | failed => exact .refused hs (Quiet.of_eq rfl rfl rfl)
      | performed => exact .unregistered hs

/-! ## Activities -/

def leavingAfter (a : Activity) : Progress Activity Outcome → Option (Nat × ConnectionId)
  | .blocked => a.leaving?
  | .moved a => a.leaving?
  | .done _ => none

theorem leaving?_of_removal? {a : Activity} {r : Option Removal}
    (ha : a.removal? = r.map (s, ·)) : a.leaving? = (r.bind Removal.leaving?).map (s, ·) := by
  rw [Activity.leaving?, ha]
  cases r <;> rfl

theorem deed_of_removes {σ α : Type} {f : σ → Activity} {g : α → Outcome}
    {removal? : σ → Option Removal} {x : σ} {p : Cluster × Progress σ α}
    (hremoves : Removes s c (removal? x) (p.1, removalAfter removal? x p.2)) (hshares : c.Shares)
    (hserver : ∀ s id, (f x).leaving? = some (s, id) → (c.server? s).isSome = true)
    (hremoval : ∀ x, (f x).removal? = (removal? x).map (s, ·))
    (hsettled : (f x).settled? c cancelled =
      (f x).removal?.bind fun p => (p.2.call? c p.1).bind fun q => c.settled? q.1 q.2) :
    Deed c (f x).leaving? p.1 (leavingAfter (f x) ((p.2.mapState f).map g))
      ((f x).settled? c cancelled) := by
  have hleaving (x : σ) := leaving?_of_removal? (hremoval x)
  have hafter : leavingAfter (f x) ((p.2.mapState f).map g) =
      ((removalAfter removal? x p.2).bind Removal.leaving?).map (s, ·) := by
    cases p.2 with
    | blocked | moved => exact hleaving _
    | done => rfl
  have hcall : (f x).settled? c cancelled =
      (removal? x).bind fun r => (r.call? c s).bind fun q => c.settled? q.1 q.2 := by
    rw [hsettled, hremoval]
    cases removal? x <;> rfl
  rw [hafter, hcall, hleaving]
  refine hremoves.deed hshares fun hsome => ?_
  obtain ⟨id, hid⟩ := Option.isSome_iff_exists.mp hsome
  exact hserver s id (by rw [hleaving, hid]; rfl)

theorem deed_of_quiet {σ α : Type} {f : σ → Activity} {g : α → Outcome} {x : σ}
    {p : Cluster × Progress σ α} (hquiet : Quiet c p.1) (hremoval : ∀ x, (f x).removal? = none)
    (hsettled : (f x).settled? c cancelled = none) :
    Deed c (f x).leaving? p.1 (leavingAfter (f x) ((p.2.mapState f).map g))
      ((f x).settled? c cancelled) := by
  have hleaving (x : σ) : (f x).leaving? = none := by rw [Activity.leaving?, hremoval]; rfl
  have hafter : leavingAfter (f x) ((p.2.mapState f).map g) = none := by
    cases p.2 with
    | blocked | moved => exact hleaving _
    | done => rfl
  rw [hafter, hsettled, hleaving]
  exact .quiet hquiet

theorem step_deed (hshares : c.Shares) (a : Activity) (cancelled stopFirst : Bool)
    (hserver : ∀ s id, a.leaving? = some (s, id) → (c.server? s).isSome = true) :
    Deed c a.leaving? (a.step c cancelled stopFirst).1
      (leavingAfter a (a.step c cancelled stopFirst).2) (a.settled? c cancelled) := by
  cases a with
  | add s h w =>
    have hadd := deed_stepAdd hshares cancelled s h w
    simp only [Activity.step]
    generalize c.stepAdd cancelled s h w = p at hadd
    obtain ⟨c', _ | w' | r⟩ := p <;> exact hadd
  | removal s r => exact deed_of_removes (.step r) hshares hserver (fun _ => rfl) rfl
  | removals s r =>
    exact deed_of_removes (removes_stepRemovals c s r) hshares hserver (fun _ => rfl) rfl
  | publication s p =>
    exact deed_of_removes (removes_stepPublication c cancelled s p) hshares hserver
      (fun _ => rfl) rfl
  | handling s h =>
    exact deed_of_removes (removes_stepHandling c cancelled s h) hshares hserver (fun _ => rfl) rfl
  | sweep s w =>
    exact deed_of_removes (removes_stepSweep c cancelled s w) hshares hserver (fun _ => rfl) rfl
  | heartbeat s l =>
    exact deed_of_removes (removes_stepHeartbeat c cancelled stopFirst s l) hshares hserver
      (fun _ => rfl) rfl
  | subscriber s x =>
    exact deed_of_removes (removes_stepSubscriber c cancelled stopFirst s x) hshares hserver
      (fun _ => rfl) rfl
  | send s => exact deed_of_quiet (quiet_stepSend c cancelled s) (fun _ => rfl) rfl
  | write h frame w => exact deed_of_quiet (quiet_stepWrite c h frame w) (fun _ => rfl) rfl
  | count s w => exact deed_of_quiet (quiet_stepCount c s w) (fun _ => rfl) rfl
  | refresh s r => exact deed_of_quiet (quiet_stepRefresh c s r) (fun _ => rfl) rfl
  | refreshing s l =>
    exact deed_of_quiet (quiet_stepRefreshing c cancelled stopFirst s l) (fun _ => rfl) rfl
  | sleep time =>
    simp only [Activity.step]
    split <;> exact .quiet (Quiet.refl c)

end EventHub.Cluster
