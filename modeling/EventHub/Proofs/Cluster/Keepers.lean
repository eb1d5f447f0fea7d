import EventHub.Proofs.Cluster.Calls
import EventHub.Proofs.Cluster.Registrations
import Mathlib.Logic.Relation
/-!
# Servers that keep their records alive

A server that shares the store, with the loop that refreshes its records. The store answers at once,
connections come and go at any time, and the clock moves as it does in a machine: only while the
loop waits, and not beyond its next tick. Every call on the store is noted with its time. `Change`
is all that one step may come to.
-/

namespace EventHub

def Store.Call.Registers (id : ServerId) (x : ConnectionId) (lifetime : Nat)
    (call : Store.Call) : Prop :=
  ∃ record, call = .register record lifetime ∧ record.server = id ∧ record.connection = x

/-- After the call the record of the connection has its full lifetime before it. -/
def Store.Call.Renews (id : ServerId) (x : ConnectionId) (lifetime : Nat)
    (call : Store.Call) : Prop :=
  call.Registers id x lifetime ∨ ∃ ids, call = .refresh id ids lifetime ∧ x ∈ ids

theorem Registry.mem_ids {r : Registry} {id : ConnectionId} :
    id ∈ r.ids ↔ (r.find? id).isSome = true := Table.isSome_find?.symm

namespace Cluster

/-! ## Servers and their store -/

/-- What the records of the server `s` depend on besides its registry is as before. -/
structure Keeps (s : Nat) (c c' : Cluster) : Prop where
  now : c'.now = c.now
  delay : c'.storeDelay = c.storeDelay
  troubles : c'.troubles = c.troubles
  server : (c'.server? s).map (fun x => (x.id, x.sharing)) =
    (c.server? s).map fun x => (x.id, x.sharing)

/-- The server at the place shares a store that answers at once and never fails. -/
structure Shared (s : Nat) (id : ServerId) (sharing : Sharing) (c : Cluster) : Prop where
  server : ∃ server, c.server? s = some server ∧ server.id = id ∧
    server.sharing = some sharing
  delay : c.storeDelay = 0
  troubles : c.troubles = []

variable {s : Nat} {id : ServerId} {sharing : Sharing} {c c' : Cluster}

theorem Keeps.refl (s : Nat) (c : Cluster) : Keeps s c c := ⟨rfl, rfl, rfl, rfl⟩

theorem Shared.keeps (hshared : c.Shared s id sharing) (hkeeps : Keeps s c c') :
    c'.Shared s id sharing := by
  obtain ⟨⟨server, hserver, hid, hsharing⟩, hdelay, htroubles⟩ := hshared
  refine ⟨?_, hkeeps.delay.trans hdelay, hkeeps.troubles.trans htroubles⟩
  have hmap := hkeeps.server
  rw [hserver, Option.map_some, Option.map_eq_some_iff] at hmap
  obtain ⟨server', hserver', hpart⟩ := hmap
  simp only [Prod.mk.injEq] at hpart
  exact ⟨server', hserver', hpart.1.trans hid, hpart.2.trans hsharing⟩

theorem keeps_setRegistry (c : Cluster) (s i : Nat) (r : Registry) :
    Keeps s c (c.setRegistry i r) := by
  refine ⟨rfl, rfl, rfl, ?_⟩
  rw [setRegistry, server?_modifyServer]
  split
  · rw [Option.map_map]
    rfl
  · rfl

theorem keeps_enrol (c : Cluster) (s i h : Nat) : Keeps s c (c.enrol i h) := by
  unfold enrol
  split
  · exact Keeps.refl s c
  · exact keeps_setRegistry c s i _

theorem storeCalls_enrol (c : Cluster) (s h : Nat) : (c.enrol s h).storeCalls = c.storeCalls := by
  unfold enrol
  split <;> rfl

/-- A call on a store that answers at once and never fails. -/
theorem Shared.stepCall_fresh (hshared : c.Shared s id sharing) (call : Store.Call) :
    c.stepCall call .fresh =
      ({ c with storeCalls := c.storeCalls ++ [call], store := (c.store.perform call).1 },
        .done (.ok (c.store.perform call).2)) := by
  have htrouble (calls : List Store.Call) : { c with storeCalls := calls }.trouble? call = none :=
    trouble?_of_nil hshared.troubles call
  rw [stepCall, if_pos hshared.delay, finishCall, htrouble]

/-! ## Adding and removing -/

/-- A step is over at once, with the given calls on the store, of which none refreshes. Only a
connection that one of them registers comes into the registry. -/
structure Acts (s : Nat) (id : ServerId) (lifetime : Nat) (c c' : Cluster)
    (calls : List Store.Call) : Prop where
  keeps : Keeps s c c'
  storeCalls : c'.storeCalls = c.storeCalls ++ calls
  ids : ∀ x ∈ (c'.registry s).ids, x ∈ (c.registry s).ids ∨
    ∃ call ∈ calls, call.Registers id x lifetime
  others : ∀ ids expiry, Store.Call.refresh id ids expiry ∉ calls

theorem Acts.refl (s : Nat) (id : ServerId) (lifetime : Nat) (c : Cluster) :
    Acts s id lifetime c c [] :=
  ⟨Keeps.refl s c, (List.append_nil _).symm, fun _ hx => .inl hx, fun _ _ => List.not_mem_nil⟩

theorem Shared.acts_stepAdd (hshared : c.Shared s id sharing) (cancelled : Bool) (h : Nat) :
    ∃ calls, Acts s id sharing.lifetime c (c.stepAdd cancelled s h .fresh).1 calls := by
  obtain ⟨server, hserver, rfl, hsharing⟩ := hshared.server
  cases cancelled with
  | true => exact ⟨[], Acts.refl ..⟩
  | false =>
    cases hx : c.connection? h with
    | none =>
      simp only [stepAdd, hserver, hx, Bool.false_eq_true, if_false]
      exact ⟨[], Acts.refl ..⟩
    | some x =>
      simp only [stepAdd, hserver, hx, hsharing, hshared.stepCall_fresh, Bool.false_eq_true,
        if_false]
      generalize hcall : Store.Call.register (recordOf server.id x) sharing.lifetime = call
      have henrol := registers_enrol
        (c := { c with storeCalls := c.storeCalls ++ [call], store := (c.store.perform call).1 })
        (s := s) (h := h) hserver hx
      have hregistry : (enrol { c with
          storeCalls := c.storeCalls ++ [call]
          store := (c.store.perform call).1 } s h).registry s =
            (c.registry s).insert ⟨x.id, x.client, h⟩ :=
        henrol.registry.elim (·.2) fun hends => absurd rfl hends.1
      refine ⟨[call], ?_, storeCalls_enrol _ s h, fun y hy => ?_, fun ids expiry hrefresh => ?_⟩
      · obtain ⟨hnow, hdelay, htroubles, hserver'⟩ := keeps_enrol { c with
          storeCalls := c.storeCalls ++ [call]
          store := (c.store.perform call).1 } s s h
        exact ⟨hnow, hdelay, htroubles, hserver'⟩
      · rw [hregistry, Registry.mem_ids, Registry.find?_insert] at hy
        split at hy
        · next hid =>
          exact .inr ⟨call, List.mem_singleton.mpr rfl, _, hcall.symm, rfl, hid⟩
        · exact .inl (Registry.mem_ids.mpr hy)
      · rw [← hcall, List.mem_singleton] at hrefresh
        cases hrefresh

theorem Shared.acts_stepRemoval (hshared : c.Shared s id sharing) (lifetime : Nat) (r : Removal) :
    ∃ calls, Acts s id lifetime c (c.stepRemoval s r).1 calls := by
  obtain ⟨server, hserver, rfl, hsharing⟩ := hshared.server
  cases r with
  | fresh x =>
    have hregistry := (stepRemoval_fresh_spec c s x).2
    refine ⟨[], ?_, ?_, fun y hy => ?_, fun _ _ => List.not_mem_nil⟩
    · simp only [stepRemoval, hserver]
      split
      · exact Keeps.refl s c
      · split <;> exact keeps_setRegistry c s s _
    · simp only [stepRemoval, hserver, List.append_nil]
      split
      · rfl
      · split <;> rfl
    · rw [hregistry, Registry.mem_ids, Registry.find?_take] at hy
      split at hy
      · cases hy
      · exact .inl (Registry.mem_ids.mpr hy)
  | unregistering x w =>
    simp only [stepRemoval, hserver]
    cases w with
    | fresh =>
      rw [hshared.stepCall_fresh]
      refine ⟨[.unregister server.id x], ⟨rfl, rfl, rfl, rfl⟩, rfl, fun y hy => .inl hy, ?_⟩
      intro ids expiry hrefresh
      cases List.mem_singleton.mp hrefresh
    | «until» time =>
      refine ⟨[], ?_⟩
      simp only [stepCall, finishCall, trouble?_of_nil hshared.troubles]
      split
      · exact ⟨⟨rfl, rfl, rfl, rfl⟩, (List.append_nil _).symm, fun y hy => .inl hy,
          fun _ _ => List.not_mem_nil⟩
      · exact Acts.refl ..

/-! ## Keepers -/

/-- A cluster with the loop that refreshes the records of one of its servers, and the calls on the
store, each with its time. -/
structure Keeper where
  cluster : Cluster
  loop : Loop Refresh
  log : List (Nat × Store.Call) := []

namespace Keeper

def now (k : Keeper) : Nat := k.cluster.now

def ids (k : Keeper) (s : Nat) : List ConnectionId := (k.cluster.registry s).ids

/-- The connections of a refresh that has been issued and has not reached the store. -/
def issued (k : Keeper) : List ConnectionId :=
  match k.loop with
  | .working _ r => r.ids
  | _ => []

def goTo (k : Keeper) (c : Cluster) (loop : Loop Refresh) : Keeper :=
  ⟨c, loop, k.log ++ (c.storeCalls.drop k.cluster.storeCalls.length).map (k.now, ·)⟩

def passTo (k : Keeper) (time : Nat) : Keeper := k.goTo { k.cluster with now := time } k.loop

def turned (s : Nat) (k : Keeper) : Keeper :=
  match k.cluster.stepRefreshing false true s k.loop with
  | (c, .moved loop) => k.goTo c loop
  | _ => k

/-- The loop does a step, connections are added and removed, and the rest of the cluster does what
it likes; only the loop refreshes. The clock moves while the loop waits, up to its next tick. -/
inductive Step (s : Nat) (k : Keeper) : Keeper → Prop where
  | turn (stopFirst : Bool) {c : Cluster} {loop : Loop Refresh}
      (hturn : k.cluster.stepRefreshing false stopFirst s k.loop = (c, .moved loop)) :
      Step s k (k.goTo c loop)
  | pass (time : Nat) (hnow : k.now ≤ time)
      (hblocked : (k.cluster.stepRefreshing false true s k.loop).2 = .blocked)
      (htimers : ∀ t ∈ (Activity.refreshing s k.loop).timers, time ≤ t) :
      Step s k (k.passTo time)
  | add (cancelled : Bool) (h : Nat) :
      Step s k (k.goTo (k.cluster.stepAdd cancelled s h .fresh).1 k.loop)
  | remove (r : Removal) : Step s k (k.goTo (k.cluster.stepRemoval s r).1 k.loop)
  | outside {c : Cluster} {calls : List Store.Call} (hkeeps : Keeps s k.cluster c)
      (hregistry : c.registry s = k.cluster.registry s)
      (hcalls : c.storeCalls = k.cluster.storeCalls ++ calls)
      (hothers : ∀ server, k.cluster.server? s = some server →
        ∀ ids expiry, Store.Call.refresh server.id ids expiry ∉ calls) :
      Step s k (k.goTo c k.loop)

def Run (s : Nat) : Keeper → Keeper → Prop := Relation.ReflTransGen (Step s)

/-- The loop is about to start, and the server has no connection yet. -/
structure Starts (s : Nat) (id : ServerId) (sharing : Sharing) (k : Keeper) : Prop where
  shared : k.cluster.Shared s id sharing
  empty : k.ids s = []
  loop : k.loop = .starting sharing.refresh
  log : k.log = []

/-- The record of the connection has been written or refreshed less than its lifetime ago. -/
def Fresh (k : Keeper) (id : ServerId) (x : ConnectionId) (lifetime : Nat) : Prop :=
  ∃ time call, (time, call) ∈ k.log ∧ call.Renews id x lifetime ∧
    time ≤ k.now ∧ k.now < time + lifetime

/-! ## What a step comes to -/

/-- The server shares its store, and a refresh that is under way has not called it yet. -/
structure Ready (s : Nat) (id : ServerId) (sharing : Sharing) (k : Keeper) : Prop where
  shared : k.cluster.Shared s id sharing
  fresh : ∀ t r, k.loop = .working t r → r.wait = .fresh

inductive Change (s : Nat) (id : ServerId) (lifetime : Nat) (k k' : Keeper) : Prop where
  | acted (calls : List Store.Call) (hacts : Acts s id lifetime k.cluster k'.cluster calls)
      (hloop : k'.loop = k.loop) (hlog : k'.log = k.log ++ calls.map (k.now, ·))
  | started (period : Nat) (hbefore : k.loop = .starting period)
      (hafter : k'.loop = .waiting ⟨period, k.now + period⟩) (hcluster : k'.cluster = k.cluster)
      (hlog : k'.log = k.log)
  | ticked (t : Ticker) (hbefore : k.loop = .waiting t) (hdue : t.next ≤ k.now)
      (hafter : k'.loop = .working (t.tick k.now) ⟨k.ids s, .fresh⟩)
      (hcluster : k'.cluster = k.cluster) (hlog : k'.log = k.log)
  | refreshed (t : Ticker) (r : Refresh) (hbefore : k.loop = .working t r)
      (hafter : k'.loop = .waiting t) (hkeeps : Keeps s k.cluster k'.cluster)
      (hids : k'.ids s = k.ids s) (hlog : k'.log = k.log ++ [(k.now, .refresh id r.ids lifetime)])
  | passed (t : Ticker) (hbefore : k.loop = .waiting t) (hafter : k'.loop = .waiting t)
      (hnow : k.now ≤ k'.now) (hnext : k'.now ≤ t.next)
      (hcluster : k'.cluster = { k.cluster with now := k'.now }) (hlog : k'.log = k.log)

variable {k k' : Keeper} {lifetime : Nat}

theorem log_goTo (calls : List Store.Call) (hcalls : c.storeCalls = k.cluster.storeCalls ++ calls)
    (loop : Loop Refresh) : (k.goTo c loop).log = k.log ++ calls.map (k.now, ·) := by
  rw [goTo, hcalls, List.drop_left]

theorem log_goTo_same (hcalls : c.storeCalls = k.cluster.storeCalls) (loop : Loop Refresh) :
    (k.goTo c loop).log = k.log := by
  rw [log_goTo [] (by rw [hcalls, List.append_nil]), List.map_nil, List.append_nil]

theorem change_of_acts (hacts : ∃ calls, Acts s id lifetime k.cluster c calls) :
    Change s id lifetime k (k.goTo c k.loop) := by
  obtain ⟨calls, hacts⟩ := hacts
  exact .acted calls hacts rfl (log_goTo calls hacts.storeCalls k.loop)

theorem Ready.stepRefreshing_working (hready : k.Ready s id sharing) (stopFirst : Bool)
    {t : Ticker} {r : Refresh} (hloop : k.loop = .working t r) :
    k.cluster.stepRefreshing false stopFirst s (.working t r) =
      ({ k.cluster with
        storeCalls := k.cluster.storeCalls ++ [.refresh id r.ids sharing.lifetime]
        store := (k.cluster.store.perform (.refresh id r.ids sharing.lifetime)).1 },
        .moved (.waiting t)) := by
  obtain ⟨server, hserver, rfl, hsharing⟩ := hready.shared.server
  simp only [stepRefreshing, stepLoop, stepRefresh, hserver, hsharing, hready.fresh t r hloop,
    hready.shared.stepCall_fresh]
  rfl

theorem Ready.change_turn (hready : k.Ready s id sharing) {stopFirst : Bool} {loop : Loop Refresh}
    (hturn : k.cluster.stepRefreshing false stopFirst s k.loop = (c, .moved loop)) :
    Change s id sharing.lifetime k (k.goTo c loop) := by
  cases hloop : k.loop with
  | starting period =>
    rw [hloop] at hturn
    cases hturn
    exact .started period hloop rfl rfl (log_goTo_same rfl _)
  | waiting t =>
    rw [hloop] at hturn
    simp only [stepRefreshing, stepLoop, Bool.false_and, Bool.false_eq_true, if_false] at hturn
    split at hturn
    · next hdue =>
      cases hturn
      exact .ticked t hloop hdue rfl rfl (log_goTo_same rfl _)
    · cases hturn
  | working t r =>
    rw [hloop, hready.stepRefreshing_working stopFirst hloop] at hturn
    cases hturn
    exact .refreshed t r hloop rfl ⟨rfl, rfl, rfl, rfl⟩ rfl
      (log_goTo [_] rfl _)

theorem Ready.change_pass (hready : k.Ready s id sharing) {time : Nat} (hnow : k.now ≤ time)
    (hblocked : (k.cluster.stepRefreshing false true s k.loop).2 = .blocked)
    (htimers : ∀ t ∈ (Activity.refreshing s k.loop).timers, time ≤ t) :
    Change s id sharing.lifetime k (k.passTo time) := by
  unfold passTo
  cases hloop : k.loop with
  | starting period =>
    rw [hloop] at hblocked
    cases hblocked
  | waiting t =>
    rw [hloop] at htimers
    have hnext : time ≤ t.next := htimers t.next (List.mem_singleton.mpr rfl)
    exact .passed t hloop rfl hnow hnext rfl (log_goTo_same rfl (.waiting t))
  | working t r =>
    rw [hloop, hready.stepRefreshing_working true hloop] at hblocked
    cases hblocked

theorem Ready.change (hready : k.Ready s id sharing) (hstep : Step s k k') :
    Change s id sharing.lifetime k k' := by
  cases hstep with
  | turn stopFirst hturn => exact hready.change_turn hturn
  | pass time hnow hblocked htimers => exact hready.change_pass hnow hblocked htimers
  | add cancelled h => exact change_of_acts (hready.shared.acts_stepAdd cancelled h)
  | remove r => exact change_of_acts (hready.shared.acts_stepRemoval _ r)
  | @outside _ calls hkeeps hregistry hcalls hothers =>
    obtain ⟨server, hserver, rfl, -⟩ := hready.shared.server
    refine change_of_acts ⟨calls, hkeeps, hcalls, fun x hx => .inl ?_, hothers server hserver⟩
    rwa [hregistry] at hx

theorem Ready.after (hready : k.Ready s id sharing) (hchange : Change s id lifetime k k') :
    k'.Ready s id sharing := by
  cases hchange with
  | acted calls hacts hloop hlog =>
    exact ⟨hready.shared.keeps hacts.keeps, by rw [hloop]; exact hready.fresh⟩
  | started period hbefore hafter hcluster hlog =>
    exact ⟨by rw [hcluster]; exact hready.shared, fun t r h => by rw [hafter] at h; cases h⟩
  | ticked t hbefore hdue hafter hcluster hlog =>
    refine ⟨by rw [hcluster]; exact hready.shared, fun t' r h => ?_⟩
    rw [hafter] at h
    cases h
    rfl
  | refreshed t r hbefore hafter hkeeps hids hlog =>
    exact ⟨hready.shared.keeps hkeeps, fun t r h => by rw [hafter] at h; cases h⟩
  | passed t hbefore hafter hnow hnext hcluster hlog =>
    refine ⟨?_, fun t r h => by rw [hafter] at h; cases h⟩
    rw [hcluster]
    exact ⟨hready.shared.server, hready.shared.delay, hready.shared.troubles⟩

end Keeper

end Cluster

end EventHub
