import EventHub.Proofs.Cluster.Calls
/-!
# A registry after any calls

Calls come one after another, in any order and with any names. After each of them the two tables of
the registry agree, and what they hold is what a plain map from names to connections would hold,
written to by every addition and cleared by every removal.
-/

namespace EventHub.Cluster

variable {s : Nat} {c c' : Cluster} {server : Server} {requests : List Request}
  {answers : List Answer}

/-! ## Histories -/

/-- A call finds the connections of the cluster as they were at the start. -/
theorem Request.apply_congr (hconnections : c'.connections = c.connections) (q : Request)
    (r : Registry) : q.apply c' r = q.apply c r := by
  have hentered (h : Nat) : c'.entered h r = c.entered h r := by
    simp only [entered, member?, connection?, hconnections]
  cases q with
  | insert h => exact hentered h
  | add h cancelled =>
    cases cancelled with
    | false => exact hentered h
    | true => rfl
  | _ => rfl

def registryAfter (c : Cluster) (r : Registry) (requests : List Request) : Registry :=
  requests.foldl (fun r q => q.apply c r) r

theorem registryAfter_snoc (c : Cluster) (r : Registry) (requests : List Request) (q : Request) :
    registryAfter c r (requests ++ [q]) = q.apply c (registryAfter c r requests) := by
  rw [registryAfter, List.foldl_append]
  rfl

theorem History.served (hhistory : History s c requests c' answers)
    (hserver : c.server? s = some server) (hreliable : c.Reliable server) :
    ∃ d, Served s server c (registryAfter c server.registry requests) d c' := by
  induction hhistory with
  | nil => exact ⟨0, Served.refl hserver⟩
  | snoc _ hserves ih =>
    obtain ⟨d, hserved⟩ := ih
    obtain ⟨_, hnext⟩ := hserves.spec hserved.server (hserved.reliable hreliable)
    have hall := hserved.trans hnext
    rw [Request.apply_congr hserved.connections] at hall
    exact ⟨_, registryAfter_snoc c _ _ _ ▸ hall⟩

theorem exists_history (hserver : c.server? s = some server) (hreliable : c.Reliable server)
    (requests : List Request) : ∃ c' answers, History s c requests c' answers := by
  induction requests using List.reverseRecOn with
  | nil => exact ⟨c, [], .nil⟩
  | append_singleton requests q ih =>
    obtain ⟨c', answers, hhistory⟩ := ih
    obtain ⟨d, hserved⟩ := hhistory.served hserver hreliable
    obtain ⟨c'', answer, hserves⟩ :=
      exists_serves hserved.server (hserved.reliable hreliable) q
    exact ⟨c'', _, .snoc hhistory hserves⟩

/-! ## What is known -/

def Request.record (c : Cluster) (known : ConnectionId → Option Member) :
    Request → ConnectionId → Option Member
  | .insert h | .add h false =>
    match c.member? h with
    | none => known
    | some m => Function.update known m.id (some m)
  | .take id | .remove id => Function.update known id none
  | .add _ true | .all | .ofClient _ | .count => known

/-- What calls have left behind, by the names of the connections. -/
def known (c : Cluster) (requests : List Request) : ConnectionId → Option Member :=
  requests.foldl (Request.record c) fun _ => none

theorem known_snoc (c : Cluster) (requests : List Request) (q : Request) :
    known c (requests ++ [q]) = q.record c (known c requests) := by
  rw [known, List.foldl_append]
  rfl

theorem find?_entered (c : Cluster) (h : Nat) (r : Registry) :
    (c.entered h r).find? = Request.record c r.find? (.insert h) := by
  funext id
  unfold entered
  cases hm : c.member? h with
  | none => simp [Request.record, hm]
  | some m =>
    simp only [Request.record, hm, Option.map_some, Option.getD_some, Function.update_apply,
      Registry.find?_insert, eq_comm]

theorem Request.find?_apply (c : Cluster) (r : Registry) (q : Request) :
    (q.apply c r).find? = q.record c r.find? := by
  match q with
  | .insert h | .add h false => exact find?_entered c h r
  | .take id | .remove id =>
    funext key
    simp only [apply, record, Function.update_apply, Registry.find?_take, eq_comm]
  | .add _ true => rfl
  | .all => rfl
  | .ofClient _ => rfl
  | .count => rfl

theorem agrees_entered {r : Registry} (hagrees : r.Agrees) (c : Cluster) (h : Nat) :
    (c.entered h r).Agrees := by
  unfold entered
  cases c.member? h with
  | none => exact hagrees
  | some m => exact hagrees.insert m

theorem Request.agrees_apply {r : Registry} (hagrees : r.Agrees) (c : Cluster) (q : Request) :
    (q.apply c r).Agrees := by
  match q with
  | .insert h | .add h false => exact agrees_entered hagrees c h
  | .take id | .remove id => exact hagrees.take id
  | .add _ true => exact hagrees
  | .all => exact hagrees
  | .ofClient _ => exact hagrees
  | .count => exact hagrees

theorem registryAfter_spec (c : Cluster) (requests : List Request) :
    (registryAfter c {} requests).Agrees ∧
      (registryAfter c {} requests).find? = known c requests := by
  induction requests using List.reverseRecOn with
  | nil => exact ⟨Registry.agrees_empty, rfl⟩
  | append_singleton requests q ih =>
    rw [registryAfter_snoc, known_snoc, Request.find?_apply, ih.2]
    exact ⟨q.agrees_apply ih.1 c, rfl⟩

/-! ## The tables after any calls -/

/-- On a server without a store, whatever was called before: the tables agree, they hold what the
calls have left behind, the connections of a client are all those that belong to it, and the number
of connections is that of the names present. -/
theorem tables_after_history (hserver : c.server? s = some server)
    (hsharing : server.sharing = none) (hempty : server.registry = {}) (requests : List Request) :
    (∃ c' answers, History s c requests c' answers) ∧
      ∀ c' answers, History s c requests c' answers →
        (c'.registry s).Agrees ∧
        (∀ id, (c'.registry s).find? id = known c requests id) ∧
        (c'.registry s).members.Nodup ∧
        (∀ client, ((c'.registry s).membersOf client).Perm
          ((c'.registry s).members.filter fun m => m.client = client)) ∧
        ∀ c'' n, Serves s c' .count c'' (.number n) →
          n = {id | (known c requests id).isSome = true}.ncard := by
  have hreliable : c.Reliable server := fun h => by simp [hsharing] at h
  refine ⟨exists_history hserver hreliable requests, fun c' answers hhistory => ?_⟩
  obtain ⟨d, hserved⟩ := hhistory.served hserver hreliable
  obtain ⟨hagrees, hknown⟩ := registryAfter_spec c requests
  rw [hempty] at hserved
  rw [hserved.registry_eq, ← hknown]
  refine ⟨hagrees, fun _ => rfl, hagrees.nodup_members, hagrees.membersOf_perm, ?_⟩
  intro c'' n hcount
  obtain ⟨hn, _⟩ := hcount.spec hserved.server (hserved.reliable hreliable)
  simp only [Request.answer, hsharing, Option.isSome_none, Bool.false_eq_true, if_false,
    Answer.number.injEq] at hn
  rw [hn, hagrees.size_eq]

/-- A name is added for one client and then for another; an addition for the first one is
cancelled, and an unknown name is removed. -/
theorem tables_after_move :
    let c : Cluster :=
      { stamp := .epoch
        ring := .ofCapacity 1
        connections := [⟨⟨"c"⟩, "u", none, true, .recorder {}⟩,
          ⟨⟨"c"⟩, "v", none, true, .recorder {}⟩]
        servers := [{ id := ⟨"s"⟩ }] }
    let requests := [.add 0 false, .insert 1, .add 0 true, .remove ⟨"d"⟩]
    (∃ c' answers, History 0 c requests c' answers) ∧
      ∀ c' answers, History 0 c requests c' answers →
        (c'.registry 0).Agrees ∧
          (c'.registry 0).find? ⟨"c"⟩ = some ⟨⟨"c"⟩, "v", 1⟩ := by
  intro c requests
  have hserver : c.server? 0 = some { id := ⟨"s"⟩ } := rfl
  obtain ⟨hexists, hall⟩ := tables_after_history hserver rfl rfl requests
  refine ⟨hexists, fun c' answers hhistory => ?_⟩
  obtain ⟨hagrees, hfind, _⟩ := hall c' answers hhistory
  exact ⟨hagrees, (hfind _).trans (by decide)⟩

end EventHub.Cluster
