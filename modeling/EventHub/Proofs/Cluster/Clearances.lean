import EventHub.Proofs.Cluster.Errands
import EventHub.Proofs.Cluster.Surroundings
/-!
# Removing many connections

Pruning, evicting and unregistering go through the names of a snapshot one by one. Each name has one
turn, in which it is taken out of the registry if it is still there, and the store is asked once for
each name that was. Nothing that the store answers, and nothing that others do in between, makes a
loop skip a name, ask twice or come to a halt.
-/

namespace EventHub.Cluster

variable {σ α : Type} {c c' : Cluster} {s : Nat} {sid : ServerId} {shares : Bool}
  {ids : List ConnectionId} {r r' : Removals}

/-! ## One step -/

/-- A connection that has been taken out has still to be unregistered if the server shares. -/
def unregisteringOf (shares : Bool) (id : ConnectionId) : Option Removal :=
  if shares then some (.unregistering id .fresh) else none

inductive RemovalStep (s : Nat) (sid : ServerId) (shares : Bool) (c : Cluster) :
    Removals → Cluster × Progress Removals Unit → Prop where
  | finished : RemovalStep s sid shares c ⟨none, []⟩ (c, .done ())
  | next (id : ConnectionId) (rest : List ConnectionId) :
      RemovalStep s sid shares c ⟨none, id :: rest⟩ (c, .moved ⟨some (.fresh id), rest⟩)
  | gone (id : ConnectionId) (rest : List ConnectionId)
      (hgone : (c.registry s).contains id = false) :
      RemovalStep s sid shares c ⟨some (.fresh id), rest⟩ (c, .moved ⟨none, rest⟩)
  | taken (id : ConnectionId) (rest : List ConnectionId)
      (hpresent : (c.registry s).contains id = true) :
      RemovalStep s sid shares c ⟨some (.fresh id), rest⟩
        (c.setRegistry s ((c.registry s).take id).1, .moved ⟨unregisteringOf shares id, rest⟩)
  | asks (id : ConnectionId) (rest : List ConnectionId) (c' : Cluster) (time : Option Nat)
      (hcalls : c'.storeCalls = c.storeCalls ++ [.unregister sid id])
      (hservers : c'.servers = c.servers) :
      RemovalStep s sid shares c ⟨some (.unregistering id .fresh), rest⟩
        (c', .moved ⟨time.map fun time => .unregistering id (.until time), rest⟩)
  | waits (id : ConnectionId) (time : Nat) (rest : List ConnectionId) (htime : c.now < time) :
      RemovalStep s sid shares c ⟨some (.unregistering id (.until time)), rest⟩ (c, .blocked)
  | answered (id : ConnectionId) (time : Nat) (rest : List ConnectionId) (c' : Cluster)
      (htime : time ≤ c.now) (hcalls : c'.storeCalls = c.storeCalls)
      (hservers : c'.servers = c.servers) :
      RemovalStep s sid shares c ⟨some (.unregistering id (.until time)), rest⟩
        (c', .moved ⟨none, rest⟩)

theorem finishCall_spec (c : Cluster) (call : Store.Call) :
    (c.finishCall call).1.storeCalls = c.storeCalls ∧
      (c.finishCall call).1.servers = c.servers := by
  unfold finishCall
  split <;> exact ⟨rfl, rfl⟩

theorem stepRemovals_fresh {server : Server} (hserver : c.server? s = some server)
    (id : ConnectionId) (rest : List ConnectionId) :
    RemovalStep s server.id server.sharing.isSome c ⟨some (.fresh id), rest⟩
      (c.stepRemovals s ⟨some (.fresh id), rest⟩) := by
  have hregistry := Cluster.registry_eq hserver
  cases hfound : server.registry.find? id with
  | none =>
    have hgone : (c.registry s).contains id = false := by
      rw [hregistry, Registry.contains, hfound, Option.isSome_none]
    simp only [stepRemovals, stepRemoval, hserver, Registry.take, hfound]
    exact .gone id rest hgone
  | some m =>
    have hpresent : (c.registry s).contains id = true := by
      rw [hregistry, Registry.contains, hfound, Option.isSome_some]
    have htaken : RemovalStep s server.id server.sharing.isSome c _ _ := .taken id rest hpresent
    rw [hregistry] at htaken
    simp only [Registry.take, hfound] at htaken
    simp only [stepRemovals, stepRemoval, hserver, Registry.take, hfound]
    cases hsharing : server.sharing.isSome with
    | true => simpa only [hsharing, unregisteringOf, if_true] using htaken
    | false => simpa only [hsharing, unregisteringOf, Bool.false_eq_true, if_false] using htaken

theorem stepRemovals_unregistering {server : Server} (hserver : c.server? s = some server)
    (id : ConnectionId) (w : StoreWait) (rest : List ConnectionId) :
    RemovalStep s server.id server.sharing.isSome c ⟨some (.unregistering id w), rest⟩
      (c.stepRemovals s ⟨some (.unregistering id w), rest⟩) := by
  simp only [stepRemovals, stepRemoval, hserver]
  cases w with
  | fresh =>
    by_cases hdelay : c.storeDelay = 0
    · obtain ⟨hcalls, hservers⟩ := finishCall_spec
        { c with storeCalls := c.storeCalls ++ [.unregister server.id id] }
        (.unregister server.id id)
      rw [stepCall, if_pos hdelay]
      exact .asks id rest _ none hcalls hservers
    · rw [stepCall, if_neg hdelay]
      exact .asks id rest _ (some _) rfl rfl
  | «until» time =>
    by_cases htime : time ≤ c.now
    · obtain ⟨hcalls, hservers⟩ := finishCall_spec c (.unregister server.id id)
      rw [stepCall, if_pos htime]
      exact .answered id time rest _ htime hcalls hservers
    · rw [stepCall, if_neg htime]
      exact .waits id time rest (Nat.not_le.mp htime)

theorem removalStep_stepRemovals {server : Server} (hserver : c.server? s = some server)
    (r : Removals) :
    RemovalStep s server.id server.sharing.isSome c r (c.stepRemovals s r) := by
  obtain ⟨_ | ⟨id⟩ | ⟨id, w⟩, rest⟩ := r
  · cases rest with
    | nil => exact .finished
    | cons id rest => exact .next id rest
  · exact stepRemovals_fresh hserver id rest
  · exact stepRemovals_unregistering hserver id w rest

/-! ## Turns -/

def Removals.turn? (r : Removals) : Option ConnectionId :=
  match r.current with
  | some (.fresh id) => some id
  | _ => none

def Removals.owed (r : Removals) (sid : ServerId) : List Store.Call :=
  match r.current with
  | some (.unregistering id .fresh) => [.unregister sid id]
  | _ => []

def Removals.following (r : Removals) : Progress Removals Unit → Removals
  | .blocked => r
  | .moved r => r
  | .done () => ⟨none, []⟩

def afterTurn (r : Registry) : Option ConnectionId → Registry
  | some id => (r.take id).1
  | none => r

theorem RemovalStep.registry_eq {q : Cluster × Progress Removals Unit}
    (hstep : RemovalStep s sid shares c r q) :
    q.1.registry s = afterTurn (c.registry s) r.turn? := by
  have hsame {c' : Cluster} (hservers : c'.servers = c.servers) :
      c'.registry s = c.registry s := by
    rw [registry, registry, server?, server?, hservers]
  cases hstep with
  | finished | next | waits => rfl
  | gone id rest hgone =>
    refine (Registry.take_of_none ?_).symm
    rw [Registry.contains, Option.isSome_eq_false_iff, Option.isNone_iff_eq_none] at hgone
    rw [Registry.take, hgone]
  | taken id rest hpresent =>
    cases hserver : c.server? s with
    | none =>
      rw [registry, hserver] at hpresent
      cases hpresent
    | some server => exact (registry_setRegistry hserver _ s).trans (if_pos rfl)
  | asks id rest c' time hcalls hservers => exact hsame hservers
  | answered id time rest c' htime hcalls hservers => exact hsame hservers

theorem RemovalStep.pending_eq {q : Cluster × Progress Removals Unit}
    (hstep : RemovalStep s sid shares c r q) :
    r.turn?.toList ++ (r.following q.2).pending = r.pending := by
  cases hstep with
  | finished | next | gone | waits | answered => rfl
  | taken id rest hpresent => cases shares <;> rfl
  | asks id rest c' time hcalls hservers => cases time <;> rfl

/-! ## Records -/

def turnsOf (removals? : σ → Option Removals) (strides : List (Stride Cluster σ α)) :
    List ConnectionId :=
  strides.filterMap fun t => (removals? t.state).bind Removals.turn?

def foundOf (s : Nat) (removals? : σ → Option Removals) (strides : List (Stride Cluster σ α)) :
    List ConnectionId :=
  strides.filterMap fun t =>
    ((removals? t.state).bind Removals.turn?).filter fun id => (t.before.registry s).contains id

def askedOf (strides : List (Stride Cluster σ α)) : List Store.Call :=
  strides.flatMap fun t => t.after.storeCalls.drop t.before.storeCalls.length

def unregisterAll (sid : ServerId) (shares : Bool) (ids : List ConnectionId) : List Store.Call :=
  if shares then ids.map (.unregister sid) else []

structure Cleared (s : Nat) (sid : ServerId) (shares : Bool) (removals? : σ → Option Removals)
    (ids : List ConnectionId) (strides : List (Stride Cluster σ α)) (r : Removals) : Prop where
  turns : turnsOf removals? strides ++ r.pending = ids
  asked : askedOf strides ++ r.owed sid = unregisterAll sid shares (foundOf s removals? strides)

variable {removals? : σ → Option Removals} {strides : List (Stride Cluster σ α)} {x : σ}

theorem RemovalStep.asked_eq {q : Cluster × Progress Removals Unit}
    (hstep : RemovalStep s sid shares c r q) {calls : List Store.Call} {found : List ConnectionId}
    (hcalls : calls ++ r.owed sid = unregisterAll sid shares found) :
    calls ++ q.1.storeCalls.drop c.storeCalls.length ++ (r.following q.2).owed sid =
      unregisterAll sid shares
        (found ++ (r.turn?.filter fun id => (c.registry s).contains id).toList) := by
  have hquiet (hsame : q.1.storeCalls = c.storeCalls) :
      calls ++ q.1.storeCalls.drop c.storeCalls.length = calls := by
    rw [hsame, List.drop_length, List.append_nil]
  cases hstep with
  | finished | next | waits =>
    rw [hquiet rfl]
    exact hcalls.trans (congrArg _ (List.append_nil _).symm)
  | gone id rest hgone =>
    rw [hquiet rfl, Removals.turn?, Option.filter_some, if_neg (Bool.eq_false_iff.mp hgone)]
    exact hcalls.trans (congrArg _ (List.append_nil _).symm)
  | taken id rest hpresent =>
    have hcalls : calls = unregisterAll sid shares found := (List.append_nil _).symm.trans hcalls
    rw [hquiet rfl, Removals.turn?, Option.filter_some, if_pos hpresent, hcalls]
    cases shares with
    | true => simp [unregisterAll, Removals.following, Removals.owed, unregisteringOf]
    | false => rfl
  | asks id rest c' time hnew hservers =>
    have howed :
        Removals.owed ⟨time.map fun time => .unregistering id (.until time), rest⟩ sid =
          [] := by
      cases time <;> rfl
    rw [hnew, List.drop_left]
    simp only [Removals.following, howed, List.append_nil]
    exact hcalls.trans (congrArg _ (List.append_nil _).symm)
  | answered id time rest c' htime hsame hservers =>
    rw [hquiet hsame]
    exact hcalls.trans (congrArg _ (List.append_nil _).symm)

theorem Cleared.step (hcleared : Cleared s sid shares removals? ids strides r)
    {t : Stride Cluster σ α} (hr : removals? t.state = some r) {p : Progress Removals Unit}
    (hstep : RemovalStep s sid shares t.before r (t.after, p)) :
    Cleared s sid shares removals? ids (strides ++ [t]) (r.following p) where
  turns := by
    rw [turnsOf, List.filterMap_append, List.append_assoc, ← hcleared.turns, ← hstep.pending_eq]
    refine congrArg _ (congrArg (· ++ _) ?_)
    simp only [List.filterMap_cons, List.filterMap_nil, hr, Option.bind_some]
    cases r.turn? <;> rfl
  asked := by
    have hasked := hstep.asked_eq hcleared.asked
    rw [askedOf, List.flatMap_append, foundOf, List.filterMap_append]
    simp only [List.flatMap_singleton, List.filterMap_cons, List.filterMap_nil, hr,
      Option.bind_some]
    rw [askedOf, foundOf] at hasked
    refine hasked.trans (congrArg _ (congrArg _ ?_))
    cases Option.filter (fun id => (t.before.registry s).contains id) r.turn? <;> rfl

/-- Before the first turn nothing has been removed and nothing asked for. -/
theorem cleared_start (ids : List ConnectionId)
    (hquiet : ∀ t ∈ strides,
      removals? t.state = none ∧ t.after.storeCalls = t.before.storeCalls) :
    Cleared s sid shares removals? ids strides ⟨none, ids⟩ := by
  have hturns : turnsOf removals? strides = [] :=
    List.filterMap_eq_nil_iff.mpr fun t ht => by rw [(hquiet t ht).1]; rfl
  have hfound : foundOf s removals? strides = [] :=
    List.filterMap_eq_nil_iff.mpr fun t ht => by rw [(hquiet t ht).1]; rfl
  have hasked : askedOf strides = [] :=
    List.flatMap_eq_nil_iff.mpr fun t ht => by rw [(hquiet t ht).2, List.drop_length]
  refine ⟨by rw [hturns]; rfl, ?_⟩
  rw [hasked, hfound]
  cases shares <;> rfl

/-! ## Calls that remove -/

/-- Where the call stands at removals, which `f` says, its step is one of the removals; `g` is what
it comes to. -/
def Clears (s : Nat) (act : Cluster → Bool → σ → Cluster × Progress σ α)
    (f : Removals → σ) (g : Unit → α) : Prop :=
  ∀ c cancelled r, act c cancelled (f r) =
    ((c.stepRemovals s r).1, ((c.stepRemovals s r).2.mapState f).map g)

def Tick (c c' : Cluster) : Prop := ∃ now, c.now ≤ now ∧ c' = { c with now := now }

def Removals.effort (r : Removals) : Nat :=
  (match r.current with
    | none => 1
    | some (.fresh _) => 4
    | some (.unregistering _ .fresh) => 3
    | some (.unregistering _ (.until _)) => 2) + 4 * r.rest.length

theorem RemovalStep.effort_lt {q : Cluster × Progress Removals Unit}
    (hstep : RemovalStep s sid shares c r q) :
    match q.2 with
    | .moved r' => r'.effort < r.effort
    | _ => True := by
  cases hstep with
  | finished | waits => trivial
  | next id rest => simp [Removals.effort]; omega
  | gone id rest hgone => simp [Removals.effort]
  | taken id rest hpresent => cases shares <;> simp [Removals.effort, unregisteringOf]
  | asks id rest c' time hcalls hservers => cases time <;> simp [Removals.effort]
  | answered id time rest c' htime hcalls hservers => simp [Removals.effort]

theorem RemovalStep.server?_isSome {q : Cluster × Progress Removals Unit}
    (hstep : RemovalStep s sid shares c r q) :
    (q.1.server? s).isSome = (c.server? s).isSome := by
  have hsame {c' : Cluster} (hservers : c'.servers = c.servers) :
      (c'.server? s).isSome = (c.server? s).isSome := by
    rw [server?, server?, hservers]
  cases hstep with
  | finished | next | gone | waits => rfl
  | taken id rest hpresent =>
    rw [setRegistry, server?_modifyServer, if_pos rfl, Option.isSome_map]
  | asks id rest c' time hcalls hservers => exact hsame hservers
  | answered id time rest c' htime hcalls hservers => exact hsame hservers

variable {act : Cluster → Bool → σ → Cluster × Progress σ α}
  {f : Removals → σ} {g : Unit → α}

/-- Removals that are under way go on until they have come to their one result. -/
theorem Clears.goesOn (hclears : Clears s act f g) {env : Cluster → Cluster → Prop}
    {e e' : Errand Cluster σ α} (hrun : Errand.Run act env e e') (hstage : e.stage = .inl (f r)) :
    (∃ r', e'.stage = .inl (f r')) ∨ e'.stage = .inr (g ()) := by
  induction hrun with
  | refl => exact .inl ⟨r, hstage⟩
  | @tail e₁ _ _ hstep ih =>
    cases hstep with
    | others w henv => exact ih
    | cancel => exact ih
    | stride x hx =>
      rw [hx] at ih
      obtain ⟨r', hr'⟩ := ih.resolve_right (by intro h; cases h)
      obtain rfl := Sum.inl.inj hr'
      rw [Errand.stage_stride, hclears]
      cases (e₁.world.stepRemovals s r').2 with
      | blocked => exact .inl ⟨r', rfl⟩
      | moved r'' => exact .inl ⟨r'', rfl⟩
      | done u => exact .inr rfl

/-- Removals that are under way come to their end by themselves; only the clock has to go on. -/
theorem Clears.finishes (hclears : Clears s act f g) {e : Errand Cluster σ α}
    (hserver : (e.world.server? s).isSome = true) (hstage : e.stage = .inl (f r)) :
    ∃ e', Errand.Run act Tick e e' ∧ e'.stage = .inr (g ()) := by
  induction hn : r.effort using Nat.strongRecOn generalizing e r with
  | ind n ih =>
    subst hn
    -- A step that gets on leaves less to do.
    have hgo {e : Errand Cluster σ α} {p : Progress Removals Unit}
        (hserver : (e.world.server? s).isSome = true) (hstage : e.stage = .inl (f r))
        (hp : (e.world.stepRemovals s r).2 = p) (hmoves : p ≠ .blocked) :
        ∃ e', Errand.Run act Tick e e' ∧ e'.stage = .inr (g ()) := by
      obtain ⟨server, hs⟩ := Option.isSome_iff_exists.mp hserver
      have hturn := removalStep_stepRemovals hs r
      have hstep : Errand.Step act Tick e (e.stride act (f r)) := .stride e _ hstage
      have hstage' : (e.stride act (f r)).stage = ((p.mapState f).map g).stage (f r) := by
        rw [Errand.stage_stride, hclears, hp]
      have hworld : (e.stride act (f r)).world = (e.world.stepRemovals s r).1 := by
        rw [Errand.world_stride, hclears]
      have hserver' : ((e.stride act (f r)).world.server? s).isSome = true := by
        rw [hworld, hturn.server?_isSome, hserver]
      have hless := hturn.effort_lt
      rw [hp] at hless
      cases p with
      | blocked => exact absurd rfl hmoves
      | done u => exact ⟨_, .single hstep, hstage'⟩
      | moved r' =>
        obtain ⟨e', hrun, hend⟩ := ih _ hless hserver' hstage' rfl
        exact ⟨e', .head hstep hrun, hend⟩
    obtain ⟨server, hs⟩ := Option.isSome_iff_exists.mp hserver
    have hturn := removalStep_stepRemovals hs r
    cases hp : (e.world.stepRemovals s r).2 with
    | moved r' => exact hgo hserver hstage hp (by intro h; cases h)
    | done u => exact hgo hserver hstage hp (by intro h; cases h)
    | blocked =>
      generalize e.world.stepRemovals s r = q at hturn hp
      cases hturn with
      | waits id time rest htime =>
        -- The store answers when the clock has come to the time.
        have htick : Tick e.world { e.world with now := time } :=
          ⟨time, Nat.le_of_lt htime, rfl⟩
        have hdue : ({ e.world with now := time } : Cluster).stepRemovals s
            ⟨some (.unregistering id (.until time)), rest⟩ =
            ((({ e.world with now := time } : Cluster).finishCall (.unregister server.id id)).1,
              .moved ⟨none, rest⟩) := by
          have hs' : ({ e.world with now := time } : Cluster).server? s = some server := hs
          simp only [stepRemovals, stepRemoval, hs', stepCall, Nat.le_refl, if_true]
          rfl
        obtain ⟨e', hrun, hend⟩ := hgo (e := e.meanwhile { e.world with now := time }) hserver
          hstage (congrArg Prod.snd hdue) (by intro h; cases h)
        exact ⟨e', .head (.others e _ htick) hrun, hend⟩
      | finished | next | gone | taken | asks | answered => cases hp

end EventHub.Cluster
