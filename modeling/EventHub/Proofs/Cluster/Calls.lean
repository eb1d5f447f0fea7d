import EventHub.Cluster.Machine
import EventHub.Proofs.Cluster.Servers
import EventHub.Proofs.Cluster.StoreCalls
/-!
# Calls on a registry, one after another

What a caller of a server's registry can ask for, what it is answered, and what each call does. The
effects on the registry are the same whether or not the server shares a store; a shared store also
counts.
-/

namespace EventHub.Cluster

/-- An activity goes on to its end while nothing else happens. Time may pass at any moment. -/
inductive Ends (cancelled : Bool) : Cluster → Activity → Cluster → Outcome → Prop where
  | wait {c c' : Cluster} {a : Activity} {o : Outcome} (now : Nat) (hnow : c.now ≤ now) :
      Ends cancelled { c with now := now } a c' o → Ends cancelled c a c' o
  | moved {c c₁ c' : Cluster} {a a₁ : Activity} {o : Outcome} (stopFirst : Bool)
      (hstep : a.step c cancelled stopFirst = (c₁, .moved a₁)) :
      Ends cancelled c₁ a₁ c' o → Ends cancelled c a c' o
  | done {c c' : Cluster} {a : Activity} {o : Outcome} (stopFirst : Bool)
      (hstep : a.step c cancelled stopFirst = (c', .done o)) : Ends cancelled c a c' o

inductive Request where
  /-- Enters a connection at once; only a server without a store offers this. -/
  | insert (handle : Nat)
  /-- Takes a connection out at once; only a server without a store offers this. -/
  | take (id : ConnectionId)
  | add (handle : Nat) (cancelled : Bool)
  | remove (id : ConnectionId)
  | all
  | ofClient (client : ClientId)
  | count

inductive Answer where
  | ended (r : Except Error Unit)
  | taken (m : Option Member)
  | members (ms : List Member)
  | number (n : Nat)

/-- The server `s` answers a call. -/
inductive Serves (s : Nat) (c : Cluster) : Request → Cluster → Answer → Prop where
  | insert (h : Nat) : Serves s c (.insert h) (c.enrol s h) (.ended (.ok ()))
  | take (id : ConnectionId) : Serves s c (.take id)
      (c.setRegistry s ((c.registry s).take id).1) (.taken ((c.registry s).take id).2)
  | add {h : Nat} {cancelled : Bool} {c' : Cluster} {r : Except Error Unit}
      (hends : Ends cancelled c (.add s h .fresh) c' (.result r)) :
      Serves s c (.add h cancelled) c' (.ended r)
  | remove {id : ConnectionId} {c' : Cluster} {r : Except Error Unit}
      (hends : Ends false c (.removal s (.fresh id)) c' (.result r)) :
      Serves s c (.remove id) c' (.ended r)
  | all : Serves s c .all c (.members (c.registry s).members)
  | ofClient (client : ClientId) :
      Serves s c (.ofClient client) c (.members ((c.registry s).membersOf client))
  | count {c' : Cluster} {n : Nat} (hends : Ends false c (.count s .fresh) c' (.number n)) :
      Serves s c .count c' (.number n)

/-- The server `s` answers calls one after another. -/
inductive History (s : Nat) (c : Cluster) : List Request → Cluster → List Answer → Prop where
  | nil : History s c [] c []
  | snoc {requests : List Request} {answers : List Answer} {request : Request} {answer : Answer}
      {c' c'' : Cluster} (hbefore : History s c requests c' answers)
      (hserves : Serves s c' request c'' answer) :
      History s c (requests ++ [request]) c'' (answers ++ [answer])

/-! ## Running to the end -/

/-- What holds at the end of an activity, from what its steps do: `P` leads from any moment to the
end. -/
theorem Ends.of_steps {σ α : Type} {f : σ → Activity} {g : α → Outcome} {cancelled : Bool}
    {c c' : Cluster} {x : σ} {o : Outcome} (hends : Ends cancelled c (f x) c' o)
    (sub : Cluster → σ → Cluster × Progress σ α)
    {P : Cluster → σ → Cluster → α → Prop}
    (hsub : ∀ c stopFirst x, (f x).step c cancelled stopFirst =
      ((sub c x).1, ((sub c x).2.mapState f).map g))
    (hwait : ∀ c now x c' a, P { c with now := now } x c' a → P c x c' a)
    (hmoved : ∀ c x c₁ x₁ c' a, sub c x = (c₁, .moved x₁) → P c₁ x₁ c' a →
      P c x c' a)
    (hdone : ∀ c x c' a, sub c x = (c', .done a) → P c x c' a) :
    ∃ a, g a = o ∧ P c x c' a := by
  generalize hx : f x = activity at hends
  induction hends generalizing x with
  | @wait c _ _ _ now _ _ ih =>
    obtain ⟨a, ho, ha⟩ := ih hx
    exact ⟨a, ho, hwait c now x _ a ha⟩
  | @moved c c₁ _ _ _ _ stopFirst hstep _ ih =>
    subst hx
    rw [hsub] at hstep
    obtain ⟨x₁, hx₁, hf⟩ := Progress.map_mapState_eq_moved.mp (congrArg Prod.snd hstep)
    obtain ⟨a, ho, ha⟩ := ih hf
    have hfst : (sub c x).1 = c₁ := congrArg Prod.fst hstep
    exact ⟨a, ho, hmoved c x c₁ x₁ _ a (Prod.ext hfst hx₁) ha⟩
  | @done c c' _ _ stopFirst hstep =>
    subst hx
    rw [hsub] at hstep
    obtain ⟨a, ha, ho⟩ := Progress.map_mapState_eq_done.mp (congrArg Prod.snd hstep)
    have hfst : (sub c x).1 = c' := congrArg Prod.fst hstep
    exact ⟨a, ho, hdone c x c' a (Prod.ext hfst ha)⟩

/-! ## What a call does -/

/-- The cluster after a call that leaves the server with the registry `r` and changes the counter
of the store, as far as later calls depend on it. -/
structure Served (s : Nat) (server : Server) (c : Cluster) (r : Registry) (change : Int)
    (c' : Cluster) : Prop where
  connections : c'.connections = c.connections
  troubles : c'.troubles = c.troubles
  server : c'.server? s = some { server with registry := r }
  counter : c'.store.counter = c.store.counter + change

def Reliable (c : Cluster) (server : Server) : Prop :=
  server.sharing.isSome = true → c.troubles = []

def Server.counts (server : Server) (change : Int) : Int :=
  if server.sharing.isSome then change else 0

def entered (c : Cluster) (h : Nat) (r : Registry) : Registry :=
  ((c.member? h).map r.insert).getD r

namespace Request

def apply (c : Cluster) (r : Registry) : Request → Registry
  | insert h | add h false => c.entered h r
  | add _ true => r
  | take id | remove id => (r.take id).1
  | all | ofClient _ | count => r

def change (c : Cluster) (r : Registry) : Request → Int
  | add h false => if (c.member? h).isSome then 1 else 0
  | remove id => if r.contains id then -1 else 0
  | insert _ | add _ true | take _ | all | ofClient _ | count => 0

def answer (c : Cluster) (server : Server) : Request → Answer
  | insert _ | add _ false | remove _ => .ended (.ok ())
  | add _ true => .ended (.error .cancelled)
  | take id => .taken (server.registry.take id).2
  | all => .members server.registry.members
  | ofClient client => .members (server.registry.membersOf client)
  | count => .number (if server.sharing.isSome then Store.floorCount c.store.counter
      else server.registry.size)

end Request

variable {s h : Nat} {c c' : Cluster} {server : Server} {cancelled : Bool} {w : StoreWait}
  {o : Outcome} {id : ConnectionId}

theorem Served.refl (hserver : c.server? s = some server) :
    Served s server c server.registry 0 c :=
  ⟨rfl, rfl, hserver, (Int.add_zero _).symm⟩

/-- Neither the clock nor the list of calls matters. -/
theorem Served.of_call {now : Nat} {calls : List Store.Call} {r : Registry} {d : Int}
    (hserved : Served s server { c with now := now, storeCalls := calls } r d c') :
    Served s server c r d c' :=
  ⟨hserved.connections, hserved.troubles, hserved.server, hserved.counter⟩

theorem Served.trans {c₁ : Cluster} {r r' : Registry} {d d' : Int}
    (hserved : Served s server c r d c₁)
    (hserved' : Served s { server with registry := r } c₁ r' d' c') :
    Served s server c r' (d + d') c' :=
  ⟨hserved'.connections.trans hserved.connections, hserved'.troubles.trans hserved.troubles,
    hserved'.server, by rw [hserved'.counter, hserved.counter, Int.add_assoc]⟩

theorem Served.registry_eq {r : Registry} {d : Int} (hserved : Served s server c r d c') :
    c'.registry s = r :=
  Cluster.registry_eq hserved.server

theorem Served.reliable {r : Registry} {d : Int} (hserved : Served s server c r d c')
    (hreliable : c.Reliable server) : c'.Reliable { server with registry := r } :=
  fun hsharing => hserved.troubles.trans (hreliable hsharing)

theorem served_setRegistry (hserver : c.server? s = some server) (r : Registry) :
    Served s server c r 0 (c.setRegistry s r) := by
  refine ⟨rfl, rfl, ?_, (Int.add_zero _).symm⟩
  rw [setRegistry, server?_modifyServer, if_pos rfl, hserver]
  rfl

theorem served_enrol (hserver : c.server? s = some server) (h : Nat) :
    Served s server c (c.entered h server.registry) 0 (c.enrol s h) := by
  unfold enrol entered
  split
  · next hnone =>
    rw [hnone]
    exact Served.refl hserver
  · next m hsome =>
    rw [hsome, Cluster.registry_eq hserver]
    exact served_setRegistry hserver _

theorem trouble?_of_nil (htroubles : c.troubles = []) (call : Store.Call) :
    c.trouble? call = none := by
  rw [trouble?, htroubles]
  rfl

theorem Served.of_perform {calls : List Store.Call} {store : Store} {r : Registry} {d : Int}
    (hserved : Served s server { c with storeCalls := calls, store := store } r d c') :
    Served s server c r (store.counter - c.store.counter + d) c' :=
  ⟨hserved.connections, hserved.troubles, hserved.server, by
    have hcounter : c'.store.counter = store.counter + d := hserved.counter
    omega⟩

/-! ## Adding -/

theorem Ends.add_cancelled (hends : Ends true c (.add s h w) c' o)
    (hserver : c.server? s = some server) :
    o = .result (.error .cancelled) ∧ Served s server c server.registry 0 c' := by
  obtain ⟨r, rfl, hr⟩ := hends.of_steps (f := Activity.add s h) (g := .result)
    (fun c w => c.stepAdd true s h w)
    (P := fun c _ c' r => c.server? s = some server → r = .error .cancelled ∧
      Served s server c server.registry 0 c')
    (fun _ _ _ => rfl) (fun _ _ _ _ _ hrest hserver => (hrest hserver).imp_right Served.of_call)
    (fun _ _ _ _ _ _ hstep _ => by cases hstep)
    (fun c w c' r hstep hserver => by cases hstep; exact ⟨rfl, Served.refl hserver⟩)
  exact ⟨congrArg _ (hr hserver).1, (hr hserver).2⟩

/-- One step of adding: nothing but the list of calls has changed before the last one. -/
theorem stepAdd_spec (hserver : c.server? s = some server) (hreliable : c.Reliable server)
    (h : Nat) (w : StoreWait) :
    match c.stepAdd false s h w with
    | (_, .blocked) => True
    | (c₁, .moved _) => ∃ calls, c₁ = { c with storeCalls := calls }
    | (c', .done r) => r = .ok () ∧ Served s server c (c.entered h server.registry)
        (server.counts (Request.change c server.registry (.add h false))) c' := by
  have henrol := served_enrol hserver h
  cases hx : c.connection? h with
  | none =>
    simp only [stepAdd, hserver, hx, Bool.false_eq_true, if_false]
    refine ⟨trivial, ?_⟩
    simpa [enrol, entered, member?, hx, Request.change, Server.counts] using henrol
  | some x =>
    cases hsharing : server.sharing with
    | none =>
      simp only [stepAdd, hserver, hx, hsharing, Bool.false_eq_true, if_false]
      exact ⟨trivial, by simpa [Server.counts, hsharing] using henrol⟩
    | some sharing =>
      simp only [stepAdd, hserver, hx, hsharing, Bool.false_eq_true, if_false]
      have hstep := stepCall_step c (.register (recordOf server.id x) sharing.lifetime) w
      generalize c.stepCall (.register (recordOf server.id x) sharing.lifetime) w = p at hstep
      cases hstep with
      | blocked => trivial
      | moved calls w₁ => exact ⟨calls, rfl⟩
      | failed calls e htrouble =>
        rw [trouble?_of_nil (hreliable (by simp [hsharing]))] at htrouble
        cases htrouble
      | performed calls htrouble =>
        have hcalled := (served_enrol (s := s) (c := { c with
          storeCalls := calls
          store := (c.store.perform (.register (recordOf server.id x) sharing.lifetime)).1 })
          hserver h).of_perform
        have hone : server.counts (Request.change c server.registry (.add h false)) =
            (c.store.perform (.register (recordOf server.id x) sharing.lifetime)).1.counter -
              c.store.counter + 0 := by
          simp only [Server.counts, hsharing, Request.change, member?, hx, Store.perform,
            Option.isSome_some, Option.map_some, if_true]
          omega
        exact ⟨rfl, hone ▸ hcalled⟩

theorem Ends.add (hends : Ends false c (.add s h w) c' o) (hserver : c.server? s = some server)
    (hreliable : c.Reliable server) :
    o = .result (.ok ()) ∧ Served s server c (c.entered h server.registry)
      (server.counts (Request.change c server.registry (.add h false))) c' := by
  obtain ⟨r, rfl, hr⟩ := hends.of_steps (f := Activity.add s h) (g := .result)
    (fun c w => c.stepAdd false s h w)
    (P := fun c _ c' r => c.server? s = some server → c.Reliable server →
      r = .ok () ∧ Served s server c (c.entered h server.registry)
        (server.counts (Request.change c server.registry (.add h false))) c')
    (fun _ _ _ => rfl)
    (fun _ _ _ _ _ hrest hserver hreliable => (hrest hserver hreliable).imp_right Served.of_call)
    (by
      intro c w c₁ w₁ c' r hstep hrest hserver hreliable
      have hspec := stepAdd_spec hserver hreliable h w
      rw [hstep] at hspec
      obtain ⟨calls, rfl⟩ := hspec
      exact (hrest hserver hreliable).imp_right Served.of_call)
    (by
      intro c w c' r hstep hserver hreliable
      have hspec := stepAdd_spec hserver hreliable h w
      rwa [hstep] at hspec)
  exact ⟨congrArg _ (hr hserver hreliable).1, (hr hserver hreliable).2⟩

/-! ## Removing -/

def RemovalEnds (s : Nat) (c : Cluster) (r : Removal) (c' : Cluster) (a : Except Error Unit) :
    Prop :=
  ∀ server, c.server? s = some server → match r with
    | .fresh id => c.Reliable server → a = .ok () ∧
      Served s server c (server.registry.take id).1
        (server.counts (Request.change c server.registry (.remove id))) c'
    | .unregistering _ _ => c.troubles = [] → a = .ok () ∧
      Served s server c server.registry (-1) c'

theorem removalEnds_moved {c₁ : Cluster} {r r₁ : Removal} {a : Except Error Unit}
    (hstep : c.stepRemoval s r = (c₁, .moved r₁)) (hrest : RemovalEnds s c₁ r₁ c' a) :
    RemovalEnds s c r c' a := by
  intro server hserver
  cases r with
  | fresh id =>
    intro hreliable
    simp only [stepRemoval, hserver] at hstep
    cases hfind : server.registry.find? id with
    | none => simp [Registry.take, hfind] at hstep
    | some m =>
      simp only [Registry.take, hfind] at hstep
      split at hstep
      · next hsharing =>
        cases hstep
        have hset := served_setRegistry hserver ((server.registry.drop id).unindex m.client id)
        obtain ⟨rfl, hserved⟩ := hrest _ hset.server (hreliable hsharing)
        refine ⟨rfl, ?_⟩
        have hall := hset.trans hserved
        simpa [Registry.take, hfind, Server.counts, hsharing, Request.change,
          Registry.contains] using hall
      · cases hstep
  | unregistering id w =>
    intro htroubles
    simp only [stepRemoval, hserver] at hstep
    have hcall := stepCall_step c (.unregister server.id id) w
    generalize c.stepCall (.unregister server.id id) w = p at hcall hstep
    cases hcall with
    | moved calls w₁ =>
      cases hstep
      exact (hrest server hserver htroubles).imp_right Served.of_call
    | _ => cases hstep

theorem removalEnds_done {r : Removal} {a : Except Error Unit}
    (hstep : c.stepRemoval s r = (c', .done a)) : RemovalEnds s c r c' a := by
  intro server hserver
  cases r with
  | fresh id =>
    intro hreliable
    simp only [stepRemoval, hserver] at hstep
    cases hfind : server.registry.find? id with
    | none =>
      simp only [Registry.take, hfind] at hstep
      cases hstep
      refine ⟨rfl, ?_⟩
      simpa [Registry.take, hfind, Server.counts, Request.change, Registry.contains]
        using Served.refl hserver
    | some m =>
      simp only [Registry.take, hfind] at hstep
      split at hstep
      · cases hstep
      · next hsharing =>
        cases hstep
        refine ⟨rfl, ?_⟩
        simpa [Registry.take, hfind, Server.counts, hsharing] using
          served_setRegistry hserver ((server.registry.drop id).unindex m.client id)
  | unregistering id w =>
    intro htroubles
    simp only [stepRemoval, hserver] at hstep
    have hcall := stepCall_step c (.unregister server.id id) w
    generalize c.stepCall (.unregister server.id id) w = p at hcall hstep
    cases hcall with
    | failed calls e htrouble =>
      rw [trouble?_of_nil htroubles] at htrouble
      cases htrouble
    | performed calls htrouble =>
      cases hstep
      have hcalled := (Served.refl (c := { c with
        storeCalls := calls
        store := (c.store.perform (.unregister server.id id)).1 }) hserver).of_perform
      refine ⟨rfl, ?_⟩
      have hone : (c.store.perform (.unregister server.id id)).1.counter - c.store.counter + 0 =
          -1 := by
        simp only [Store.perform]
        omega
      exact hone ▸ hcalled
    | _ => cases hstep

theorem Ends.removal {r : Removal} (hends : Ends false c (.removal s r) c' o) :
    ∃ a, .result a = o ∧ RemovalEnds s c r c' a := by
  refine hends.of_steps (fun c r => c.stepRemoval s r) (P := RemovalEnds s) (fun _ _ _ => rfl) ?_
    (fun _ _ _ _ _ _ => removalEnds_moved) (fun _ _ _ _ => removalEnds_done)
  intro c now r c' a hrest server hserver
  have hserver' := hrest server hserver
  cases r with
  | fresh id => exact fun hreliable => (hserver' hreliable).imp_right Served.of_call
  | unregistering id w => exact fun htroubles => (hserver' htroubles).imp_right Served.of_call

/-! ## Counting -/

theorem stepCount_spec (hserver : c.server? s = some server) (hreliable : c.Reliable server)
    (w : StoreWait) :
    match c.stepCount s w with
    | (_, .blocked) => True
    | (c₁, .moved _) => ∃ calls, c₁ = { c with storeCalls := calls }
    | (c', .done n) => Answer.number n = Request.answer c server .count ∧
        Served s server c server.registry 0 c' := by
  cases hsharing : server.sharing with
  | none =>
    simp only [stepCount, hserver, Option.bind_some, hsharing]
    exact ⟨by simp [Request.answer, hsharing, Cluster.registry_eq hserver], Served.refl hserver⟩
  | some sharing =>
    simp only [stepCount, hserver, Option.bind_some, hsharing]
    have hcall := stepCall_step c .count w
    generalize c.stepCall .count w = p at hcall
    cases hcall with
    | blocked => trivial
    | moved calls w₁ => exact ⟨calls, rfl⟩
    | failed calls e htrouble =>
      rw [trouble?_of_nil (hreliable (by simp [hsharing]))] at htrouble
      cases htrouble
    | performed calls htrouble =>
      refine ⟨?_, (Served.refl (c := { c with storeCalls := calls }) hserver).of_call⟩
      simp [Request.answer, hsharing, Store.perform, Except.toOption]

theorem Ends.count (hends : Ends false c (.count s w) c' o) (hserver : c.server? s = some server)
    (hreliable : c.Reliable server) :
    ∃ n, .number n = o ∧ Answer.number n = Request.answer c server .count ∧
      Served s server c server.registry 0 c' := by
  obtain ⟨n, ho, hn⟩ := hends.of_steps (f := Activity.count s) (g := .number)
    (fun c w => c.stepCount s w)
    (P := fun c _ c' n => c.server? s = some server → c.Reliable server →
      Answer.number n = Request.answer c server .count ∧
        Served s server c server.registry 0 c')
    (fun _ _ _ => rfl)
    (fun _ _ _ _ _ hrest hserver hreliable => (hrest hserver hreliable).imp_right Served.of_call)
    (by
      intro c w c₁ w₁ c' n hstep hrest hserver hreliable
      have hspec := stepCount_spec hserver hreliable w
      rw [hstep] at hspec
      obtain ⟨calls, rfl⟩ := hspec
      exact (hrest hserver hreliable).imp_right Served.of_call)
    (by
      intro c w c' n hstep hserver hreliable
      have hspec := stepCount_spec hserver hreliable w
      rwa [hstep] at hspec)
  exact ⟨n, ho, hn hserver hreliable⟩

/-! ## Any call -/

/-- What a server answers and does depends on its registry and on the counter of its store. -/
theorem Serves.spec {request : Request} {answer : Answer}
    (hserves : Serves s c request c' answer) (hserver : c.server? s = some server)
    (hreliable : c.Reliable server) :
    answer = request.answer c server ∧
      Served s server c (request.apply c server.registry)
        (server.counts (request.change c server.registry)) c' := by
  have hnothing : server.counts 0 = 0 := by simp [Server.counts]
  cases hserves with
  | insert h => exact ⟨rfl, hnothing.symm ▸ served_enrol hserver h⟩
  | take id =>
    rw [Cluster.registry_eq hserver]
    exact ⟨rfl, hnothing.symm ▸ served_setRegistry hserver _⟩
  | @add h cancelled _ r hends =>
    cases cancelled with
    | true =>
      obtain ⟨hr, hserved⟩ := hends.add_cancelled hserver
      cases hr
      exact ⟨rfl, hnothing.symm ▸ hserved⟩
    | false =>
      obtain ⟨hr, hserved⟩ := hends.add hserver hreliable
      cases hr
      exact ⟨rfl, hserved⟩
  | remove hends =>
    obtain ⟨a, ha, hremoval⟩ := hends.removal
    cases ha
    obtain ⟨rfl, hserved⟩ := hremoval server hserver hreliable
    exact ⟨rfl, hserved⟩
  | all =>
    rw [Cluster.registry_eq hserver]
    exact ⟨rfl, hnothing.symm ▸ Served.refl hserver⟩
  | ofClient client =>
    rw [Cluster.registry_eq hserver]
    exact ⟨rfl, hnothing.symm ▸ Served.refl hserver⟩
  | count hends =>
    obtain ⟨n, hn, hanswer, hserved⟩ := hends.count hserver hreliable
    cases hn
    exact ⟨hanswer, hnothing.symm ▸ hserved⟩

/-! ## Every call is answered -/

/-- A call on the store ends after a while, and with it an activity that waits for nothing else. -/
theorem exists_ends (call : Store.Call) {f : StoreWait → Activity}
    (hfollows : ∀ calls now w,
      match ({ c with storeCalls := calls, now := now }.stepCall call w) with
      | (_, .blocked) => True
      | (c₁, .moved w₁) =>
        (f w).step { c with storeCalls := calls, now := now } cancelled true =
          (c₁, .moved (f w₁))
      | (_, .done _) => ∃ c' o, (f w).step { c with storeCalls := calls, now := now } cancelled
          true = (c', .done o)) :
    ∃ c' o, Ends cancelled c (f .fresh) c' o := by
  have hfresh := hfollows c.storeCalls c.now .fresh
  by_cases hdelay : c.storeDelay = 0
  · simp only [stepCall] at hfresh
    rw [if_pos hdelay] at hfresh
    obtain ⟨c', o, hstep⟩ := hfresh
    exact ⟨c', o, .done true hstep⟩
  · simp only [stepCall] at hfresh
    rw [if_neg hdelay] at hfresh
    have hlast := hfollows (c.storeCalls ++ [call]) (c.now + c.storeDelay)
      (.until (c.now + c.storeDelay))
    simp only [stepCall, Nat.le_refl, if_true] at hlast
    obtain ⟨c', o, hstep⟩ := hlast
    exact ⟨c', o, .moved true hfresh (.wait (c.now + c.storeDelay) (Nat.le_add_right _ _)
      (.done true hstep))⟩

theorem exists_add (hserver : c.server? s = some server) (h : Nat) :
    ∃ c' o, Ends false c (.add s h .fresh) c' o := by
  cases hx : c.connection? h with
  | none =>
    refine ⟨c, .result (.ok ()), .done true ?_⟩
    simp [Activity.step, stepAdd, hserver, hx, Progress.mapState, Progress.map]
  | some x =>
    cases hsharing : server.sharing with
    | none =>
      refine ⟨c.enrol s h, .result (.ok ()), .done true ?_⟩
      simp [Activity.step, stepAdd, hserver, hx, hsharing, Progress.mapState, Progress.map]
    | some sharing =>
      refine exists_ends (.register (recordOf server.id x) sharing.lifetime) (f := .add s h)
        fun calls now w => ?_
      have hserver' : { c with storeCalls := calls, now := now }.server? s = some server := hserver
      have hx' : { c with storeCalls := calls, now := now }.connection? h = some x := hx
      simp only [Activity.step, stepAdd, hserver', hx', hsharing]
      generalize { c with storeCalls := calls, now := now }.stepCall
        (.register (recordOf server.id x) sharing.lifetime) w = p
      obtain ⟨c₁, _ | w₁ | ⟨e | n⟩⟩ := p
      · trivial
      · rfl
      · exact ⟨_, _, rfl⟩
      · exact ⟨_, _, rfl⟩

theorem exists_removal (hserver : c.server? s = some server) (id : ConnectionId) :
    ∃ c' o, Ends false c (.removal s (.fresh id)) c' o := by
  have hunregistering {c : Cluster} {server : Server} (hserver : c.server? s = some server) :
      ∃ c' o, Ends false c (.removal s (.unregistering id .fresh)) c' o := by
    refine exists_ends (.unregister server.id id)
      (f := fun w => .removal s (.unregistering id w)) fun calls now w => ?_
    have hserver' : { c with storeCalls := calls, now := now }.server? s = some server := hserver
    simp only [Activity.step, stepRemoval, hserver']
    generalize { c with storeCalls := calls, now := now }.stepCall (.unregister server.id id) w = p
    obtain ⟨c₁, _ | w₁ | r⟩ := p
    · trivial
    · rfl
    · exact ⟨_, _, rfl⟩
  cases hfind : server.registry.find? id with
  | none =>
    refine ⟨c, .result (.ok ()), .done true ?_⟩
    simp [Activity.step, stepRemoval, hserver, Registry.take, hfind, Progress.mapState,
      Progress.map]
  | some m =>
    have hset := served_setRegistry hserver ((server.registry.drop id).unindex m.client id)
    generalize hc₁ : c.setRegistry s ((server.registry.drop id).unindex m.client id) = c₁
      at hset
    cases hsharing : server.sharing with
    | none =>
      refine ⟨c₁, .result (.ok ()), .done true ?_⟩
      simp [Activity.step, stepRemoval, hserver, Registry.take, hfind, hsharing, hc₁,
        Progress.mapState, Progress.map]
    | some sharing =>
      obtain ⟨c', o, hends⟩ := hunregistering hset.server
      refine ⟨c', o, .moved true ?_ hends⟩
      simp [Activity.step, stepRemoval, hserver, Registry.take, hfind, hsharing, hc₁,
        Progress.mapState, Progress.map]

theorem exists_count (hserver : c.server? s = some server) :
    ∃ c' o, Ends false c (.count s .fresh) c' o := by
  cases hsharing : server.sharing with
  | none =>
    refine ⟨c, .number (c.registry s).size, .done true ?_⟩
    simp [Activity.step, stepCount, hserver, hsharing, Progress.mapState, Progress.map]
  | some sharing =>
    refine exists_ends .count (f := .count s) fun calls now w => ?_
    have hserver' : { c with storeCalls := calls, now := now }.server? s = some server := hserver
    simp only [Activity.step, stepCount, hserver', Option.bind_some, hsharing]
    generalize { c with storeCalls := calls, now := now }.stepCall .count w = p
    obtain ⟨c₁, _ | w₁ | r⟩ := p
    · trivial
    · rfl
    · exact ⟨_, _, rfl⟩

theorem exists_serves (hserver : c.server? s = some server) (hreliable : c.Reliable server)
    (request : Request) : ∃ c' answer, Serves s c request c' answer := by
  cases request with
  | insert h => exact ⟨_, _, .insert h⟩
  | take id => exact ⟨_, _, .take id⟩
  | add h cancelled =>
    cases cancelled with
    | true => exact ⟨c, _, .add (.done true rfl)⟩
    | false =>
      obtain ⟨c', o, hends⟩ := exists_add hserver h
      obtain ⟨rfl, _⟩ := hends.add hserver hreliable
      exact ⟨c', _, .add hends⟩
  | remove id =>
    obtain ⟨c', o, hends⟩ := exists_removal hserver id
    obtain ⟨a, rfl, _⟩ := hends.removal
    exact ⟨c', _, .remove hends⟩
  | all => exact ⟨_, _, .all⟩
  | ofClient client => exact ⟨_, _, .ofClient client⟩
  | count =>
    obtain ⟨c', o, hends⟩ := exists_count hserver
    obtain ⟨n, rfl, _⟩ := hends.count hserver hreliable
    exact ⟨c', _, .count hends⟩

end EventHub.Cluster
