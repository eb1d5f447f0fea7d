import EventHub.Proofs.Cluster.Histories
import Mathlib.Data.List.Forall2
/-!
# A server with a store beside one without

The same calls, one after another, on a server that keeps to itself and on one that shares a store
which is empty and never fails. Every answer is the same but for the counts: the store counts an
addition again when the name is present, and keeps that for ever.
-/

namespace EventHub.Cluster

/-- A call that both kinds of server offer, not cancelled. -/
def Request.Common : Request → Prop
  | add _ cancelled => cancelled = false
  | remove _ | all | ofClient _ | count => True
  | insert _ | take _ => False

/-- Whether a call adds a connection with a name that is present. -/
def Request.repeats (c : Cluster) (known : ConnectionId → Option Member) : Request → Nat
  | .add h false => if (c.member? h).any fun m => (known m.id).isSome then 1 else 0
  | _ => 0

def repeatsFrom (c : Cluster) (known : ConnectionId → Option Member) : List Request → Nat
  | [] => 0
  | q :: rest => q.repeats c known + repeatsFrom c (q.record c known) rest

/-- How many of the calls add a connection with a name that is present. -/
def repeats (c : Cluster) (requests : List Request) : Nat :=
  repeatsFrom c (fun _ => none) requests

/-- Answers that are equal, lists of connections up to their order. -/
inductive Answer.Same : Answer → Answer → Prop where
  | ended (r : Except Error Unit) : Same (.ended r) (.ended r)
  | taken (m : Option Member) : Same (.taken m) (.taken m)
  | members {ms ms' : List Member} (hperm : ms.Perm ms') : Same (.members ms) (.members ms')
  | number (n : Nat) : Same (.number n) (.number n)

def share (c : Cluster) (s : Nat) (sharing : Sharing) : Cluster :=
  c.modifyServer s fun x => { x with sharing := some sharing }

variable {s : Nat} {c c' : Cluster} {server : Server} {requests : List Request}
  {answers : List Answer}

theorem Answer.Same.refl : (a : Answer) → a.Same a
  | .ended r => .ended r
  | .taken m => .taken m
  | .members _ => .members (List.Perm.refl _)
  | .number n => .number n

theorem Answer.same_number {n n' : Nat} : (Answer.number n).Same (.number n') ↔ n = n' :=
  ⟨fun hsame => by cases hsame; rfl, fun h => h ▸ .number n⟩

theorem server?_share (hserver : c.server? s = some server) (sharing : Sharing) :
    (c.share s sharing).server? s = some { server with sharing := some sharing } := by
  rw [share, server?_modifyServer, if_pos rfl, hserver]
  rfl

/-! ## Counting repetitions -/

theorem repeatsFrom_append (c : Cluster) (known : ConnectionId → Option Member)
    (requests rest : List Request) : repeatsFrom c known (requests ++ rest) =
      repeatsFrom c known requests +
        repeatsFrom c (requests.foldl (Request.record c) known) rest := by
  induction requests generalizing known with
  | nil => exact (Nat.zero_add _).symm
  | cons q requests ih =>
    simp only [List.cons_append, repeatsFrom, List.foldl_cons, ih, Nat.add_assoc]

theorem repeats_snoc (c : Cluster) (requests : List Request) (q : Request) :
    c.repeats (requests ++ [q]) = c.repeats requests + q.repeats c (c.known requests) := by
  rw [repeats, repeatsFrom_append]
  rfl

/-- The store counts what the registry gains, and repetitions besides. -/
theorem Request.change_eq {q : Request} (hcommon : q.Common) (c : Cluster) {r : Registry}
    (hagrees : r.Agrees) :
    q.change c r = ((q.apply c r).size : Int) - r.size + q.repeats c r.find? := by
  match q with
  | .add h false =>
    simp only [change, apply, entered, repeats]
    cases c.member? h with
    | none => simp
    | some m =>
      simp only [Option.isSome_some, Option.map_some, Option.getD_some, Option.any_some, if_true,
        Registry.size_insert, Registry.contains]
      by_cases hpresent : (r.find? m.id).isSome = true <;> simp [hpresent]
  | .remove id =>
    have hsize := hagrees.size_take id
    simp only [change, apply, repeats]
    split at hsize <;> split <;> first | omega | contradiction
  | .all => simp [change, apply, repeats]
  | .ofClient _ => simp [change, apply, repeats]
  | .count => simp [change, apply, repeats]

theorem Request.change_congr (hconnections : c'.connections = c.connections) (q : Request)
    (r : Registry) : q.change c' r = q.change c r := by
  match q with
  | .add h false =>
    have hmember : c'.member? h = c.member? h := by rw [member?, member?, connection?,
      connection?, hconnections]
    simp only [change, hmember]
  | .insert _ | .add _ true | .take _ | .remove _ => rfl
  | .all => rfl
  | .ofClient _ => rfl
  | .count => rfl

/-! ## Each answer of a history -/

theorem History.counted (hhistory : History s c requests c' answers)
    (hserver : c.server? s = some server) (hreliable : c.Reliable server)
    (hempty : server.registry = {}) (hcommon : ∀ q ∈ requests, q.Common) :
    Served s server c (registryAfter c {} requests)
      (server.counts ((registryAfter c {} requests).size + c.repeats requests)) c' := by
  induction hhistory with
  | nil =>
    have hnothing : server.counts ((registryAfter c {} []).size + c.repeats []) = 0 := by
      rw [Server.counts, ite_eq_right_iff]
      exact fun _ => rfl
    exact hnothing ▸ hempty ▸ Served.refl hserver
  | @snoc requests answers q answer c₁ c₂ hbefore hserves ih =>
    have hserved := ih fun q hq => hcommon q (List.mem_append_left _ hq)
    have hq : q.Common := hcommon q (List.mem_append_right _ (List.mem_singleton_self q))
    obtain ⟨hagrees, hknown⟩ := registryAfter_spec c requests
    obtain ⟨_, hnext⟩ := hserves.spec hserved.server (hserved.reliable hreliable)
    have hall := hserved.trans hnext
    rw [Request.apply_congr hserved.connections, ← registryAfter_snoc,
      Request.change_congr hserved.connections, Request.change_eq hq c hagrees,
      ← registryAfter_snoc, hknown] at hall
    have hsum : server.counts ((registryAfter c {} requests).size + c.repeats requests) +
        server.counts ((registryAfter c {} (requests ++ [q])).size -
          (registryAfter c {} requests).size + q.repeats c (c.known requests)) =
        server.counts ((registryAfter c {} (requests ++ [q])).size +
          c.repeats (requests ++ [q])) := by
      rw [repeats_snoc]
      simp only [Server.counts]
      split <;> omega
    exact hsum ▸ hall

theorem History.length_eq (hhistory : History s c requests c' answers) :
    answers.length = requests.length := by
  induction hhistory with
  | nil => rfl
  | snoc _ _ ih => rw [List.length_append, List.length_append, ih]; rfl

/-- A call finds what the calls before it have left. -/
theorem History.at {k : Nat} {q : Request} (hhistory : History s c requests c' answers)
    (hq : requests[k]? = some q) :
    ∃ c₁ c₂ before answer, History s c (requests.take k) c₁ before ∧
      Serves s c₁ q c₂ answer ∧ answers[k]? = some answer := by
  induction hhistory with
  | nil => cases hq
  | @snoc requests answers request answer c₁ c₂ hbefore hserves ih =>
    have hlength := hbefore.length_eq
    by_cases hk : k < requests.length
    · rw [List.getElem?_append_left hk] at hq
      obtain ⟨c₃, c₄, before, a, hhistory, hat, ha⟩ := ih hq
      refine ⟨c₃, c₄, before, a, ?_, hat, ?_⟩
      · rwa [List.take_append_of_le_length hk.le]
      · rwa [List.getElem?_append_left (hlength ▸ hk)]
    · rw [List.getElem?_append_right (not_lt.mp hk), List.getElem?_singleton] at hq
      split at hq
      · next hzero =>
        cases hq
        have hend : k = requests.length := by omega
        subst hend
        refine ⟨c₁, c₂, answers, answer, ?_, hserves, ?_⟩
        · rwa [List.take_left]
        · rw [← hlength, List.getElem?_concat_length]
      · cases hq

def Request.answerAfter (c : Cluster) (server : Server) (before : List Request) (q : Request) :
    Answer :=
  q.answer c { server with registry := registryAfter c {} before, sharing := none }

def Answer.raised (n : Nat) : Answer → Answer
  | number m => number (m + n)
  | ended r => ended r
  | taken m => taken m
  | members ms => members ms

/-- A server starts with nothing, as does its store: what it answers differs from what a server
without a store answers by the repetitions. -/
theorem History.answer_at {k : Nat} {q : Request} (hhistory : History s c requests c' answers)
    (hq : requests[k]? = some q) (hserver : c.server? s = some server)
    (hreliable : c.Reliable server) (hempty : server.registry = {})
    (hcounter : c.store.counter = 0) (hcommon : ∀ q ∈ requests, q.Common) :
    answers[k]? = some ((q.answerAfter c server (requests.take k)).raised
      (if server.sharing.isSome then c.repeats (requests.take k) else 0)) := by
  obtain ⟨c₁, c₂, before, answer, hbefore, hserves, hanswer⟩ := hhistory.at hq
  have hserved := hbefore.counted hserver hreliable hempty
    fun q hq => hcommon q (List.mem_of_mem_take hq)
  obtain ⟨rfl, _⟩ := hserves.spec hserved.server (hserved.reliable hreliable)
  rw [hanswer, Option.some.injEq]
  match q with
  | .count =>
    simp only [Request.answer, Request.answerAfter, Answer.raised, hserved.counter, hcounter,
      Server.counts, Option.isSome_none]
    split
    · simp only [Store.floorCount, Bool.false_eq_true, if_false, Answer.number.injEq]
      omega
    · rfl
  | .add _ false | .add _ true | .insert _ | .take _ | .remove _ => rfl
  | .all => rfl
  | .ofClient _ => rfl

theorem Answer.raised_zero : (a : Answer) → a.raised 0 = a
  | .ended _ | .taken _ | .members _ | .number _ => rfl

theorem Request.same_raised_iff (c : Cluster) (server : Server) (before : List Request)
    (q : Request) (n : Nat) :
    (q.answerAfter c server before).Same ((q.answerAfter c server before).raised n) ↔
      (q = .count → n = 0) := by
  cases q with
  | count =>
    simp only [answerAfter, answer, Answer.raised, Answer.same_number, true_imp_iff]
    omega
  | add _ cancelled =>
    cases cancelled <;> exact ⟨fun _ h => (by cases h), fun _ => Answer.Same.refl _⟩
  | _ => exact ⟨fun _ h => (by cases h), fun _ => Answer.Same.refl _⟩

/-! ## Both kinds of server -/

theorem repeats_share (sharing : Sharing) (requests : List Request) :
    (c.share s sharing).repeats requests = c.repeats requests := by
  suffices ∀ known, repeatsFrom (c.share s sharing) known requests =
      repeatsFrom c known requests from this _
  induction requests with
  | nil => exact fun _ => rfl
  | cons q rest ih => exact fun known => congrArg (q.repeats c known + ·) (ih _)

theorem Request.answerAfter_share (sharing : Sharing) (before : List Request) (q : Request) :
    q.answerAfter (c.share s sharing) { server with sharing := some sharing } before =
      q.answerAfter c server before := by
  have hregistry : registryAfter (c.share s sharing) {} before = registryAfter c {} before := by
    unfold registryAfter
    exact congrArg (before.foldl · {}) (funext fun r => funext fun q => q.apply_congr rfl r)
  unfold answerAfter
  rw [hregistry]
  rfl

/-- One server, empty, with a store that is empty and never fails, and the same server without it:
both answer any calls. The answers are the same, counts apart, which are too high by the number of
additions of a name that was present. So all of them are the same exactly if no count comes after
such an addition. -/
theorem same_answers_iff {sharing : Sharing} (hserver : c.server? s = some server)
    (hsharing : server.sharing = none) (hempty : server.registry = {}) (hstore : c.store = {})
    (htroubles : c.troubles = []) (hcommon : ∀ q ∈ requests, q.Common) :
    (∃ c' answers, History s c requests c' answers) ∧
    (∃ c' answers, History s (c.share s sharing) requests c' answers) ∧
    ∀ c₁ c₂ answers answers', History s c requests c₁ answers →
      History s (c.share s sharing) requests c₂ answers' →
      (∀ k < requests.length, ∃ a a', answers[k]? = some a ∧ answers'[k]? = some a' ∧
        (a.raised (c.repeats (requests.take k))).Same a') ∧
      (List.Forall₂ Answer.Same answers answers' ↔
        ∀ k, requests[k]? = some .count → c.repeats (requests.take k) = 0) := by
  have hserver' := server?_share hserver sharing
  refine ⟨exists_history hserver (fun _ => htroubles) requests,
    exists_history hserver' (fun _ => htroubles) requests, ?_⟩
  intro c₁ c₂ answers answers' hhistory hhistory'
  have hlength := hhistory.length_eq
  have hlength' := hhistory'.length_eq
  have hanswers (k : Nat) (q : Request) (hq : requests[k]? = some q) :
      answers[k]? = some (q.answerAfter c server (requests.take k)) ∧
        answers'[k]? = some ((q.answerAfter c server (requests.take k)).raised
          (c.repeats (requests.take k))) := by
    have hplain :=
      hhistory.answer_at hq hserver (fun _ => htroubles) hempty (by rw [hstore]) hcommon
    have hshared := hhistory'.answer_at hq hserver' (fun _ => htroubles) hempty
      (congrArg Store.counter hstore) hcommon
    rw [hsharing, Option.isSome_none, if_neg Bool.false_ne_true, Answer.raised_zero] at hplain
    rw [Option.isSome_some, if_pos rfl, Request.answerAfter_share, repeats_share] at hshared
    exact ⟨hplain, hshared⟩
  refine ⟨fun k hk => ?_, ?_⟩
  · obtain ⟨ha, ha'⟩ := hanswers k _ (List.getElem?_eq_getElem hk)
    exact ⟨_, _, ha, ha', Answer.Same.refl _⟩
  · rw [List.forall₂_iff_get]
    constructor
    · rintro ⟨_, hsame⟩ k hq
      obtain ⟨ha, ha'⟩ := hanswers k _ hq
      obtain ⟨hk, ha⟩ := List.getElem?_eq_some_iff.mp ha
      obtain ⟨hk', ha'⟩ := List.getElem?_eq_some_iff.mp ha'
      have hat := hsame k hk hk'
      rw [List.get_eq_getElem, List.get_eq_getElem, ha, ha', Request.same_raised_iff] at hat
      exact hat rfl
    · intro hcounts
      refine ⟨hlength.trans hlength'.symm, fun k hk hk' => ?_⟩
      have hq := List.getElem?_eq_getElem (hlength ▸ hk)
      obtain ⟨ha, ha'⟩ := hanswers k _ hq
      rw [List.getElem?_eq_getElem hk, Option.some.injEq] at ha
      rw [List.getElem?_eq_getElem hk', Option.some.injEq] at ha'
      rw [List.get_eq_getElem, List.get_eq_getElem, ha, ha', Request.same_raised_iff]
      exact fun hcount => hcounts k (hq.trans (congrArg some hcount))

/-- A name is added again only after it has been removed. -/
theorem same_answers_after_removal :
    let c : Cluster :=
      { stamp := .epoch
        ring := .ofCapacity 1
        connections := [⟨⟨"c"⟩, "u", none, true, .recorder {}⟩]
        servers := [{ id := ⟨"s"⟩ }] }
    let requests := [.add 0 false, .remove ⟨"c"⟩, .add 0 false, .count, .ofClient "u"]
    (∃ c₂ answers', History 0 (c.share 0 ⟨60000, 20000⟩) requests c₂ answers') ∧
    ∀ c₁ c₂ answers answers', History 0 c requests c₁ answers →
      History 0 (c.share 0 ⟨60000, 20000⟩) requests c₂ answers' →
      List.Forall₂ Answer.Same answers answers' := by
  intro c requests
  have hserver : c.server? 0 = some { id := ⟨"s"⟩ } := rfl
  have hcommon : ∀ q ∈ requests, q.Common := by simp [requests, Request.Common]
  obtain ⟨_, hshared, hall⟩ := same_answers_iff hserver rfl rfl rfl rfl hcommon
  refine ⟨hshared, fun c₁ c₂ answers answers' hhistory hhistory' => ?_⟩
  refine (hall c₁ c₂ answers answers' hhistory hhistory').2.mpr fun k hk => ?_
  match k with
  | 3 => rfl
  | 0 | 1 | 2 | 4 => cases hk
  | _ + 5 => cases hk

/-- A connection that is added twice counts twice in the store, once without one. -/
theorem counted_twice :
    let c : Cluster :=
      { stamp := .epoch
        ring := .ofCapacity 1
        connections := [⟨⟨"c"⟩, "u", none, true, .recorder {}⟩]
        servers := [{ id := ⟨"s"⟩ }] }
    let requests := [.add 0 false, .add 0 false, .count]
    (∀ q ∈ requests, q.Common) ∧
      ∃ c₁ c₂ answers answers', History 0 c requests c₁ answers ∧
      History 0 (c.share 0 ⟨60000, 20000⟩) requests c₂ answers' ∧
      answers[2]? = some (.number 1) ∧ answers'[2]? = some (.number 2) ∧
      ¬ List.Forall₂ Answer.Same answers answers' := by
  intro c requests
  have hplain : History 0 c requests _ [.ended (.ok ()), .ended (.ok ()), .number 1] :=
    .snoc (.snoc (.snoc .nil (.add (.done true rfl))) (.add (.done true rfl)))
      (.count (.done true rfl))
  have hshared : History 0 (c.share 0 ⟨60000, 20000⟩) requests _
      [.ended (.ok ()), .ended (.ok ()), .number 2] :=
    .snoc (.snoc (.snoc .nil (.add (.done true rfl))) (.add (.done true rfl)))
      (.count (.done true rfl))
  refine ⟨by simp [requests, Request.Common], _, _, _, _, hplain, hshared, rfl, rfl, ?_⟩
  simp [Answer.same_number]

end EventHub.Cluster
