import EventHub.Proofs.Cluster.Slots
import EventHub.Proofs.Connection.Polls
/-!
# Sends side by side

A call that makes several sends looks at them one after another, but each of them has a connection
of its own. So what comes of one of them is what would come of it alone: a look at all of them is a
look at each, and no other connection is touched.
-/

namespace EventHub.Cluster

variable {c c' c'' : Cluster} {h : Nat} {cancelled : Bool}

/-! ## What a look leaves alone -/

def ConnectionsOnly (c c' : Cluster) : Prop := c' = { c with connections := c'.connections }

theorem ConnectionsOnly.refl (c : Cluster) : ConnectionsOnly c c := rfl

theorem ConnectionsOnly.trans (honly : ConnectionsOnly c c') (honly' : ConnectionsOnly c' c'') :
    ConnectionsOnly c c'' :=
  calc c'' = { c' with connections := c''.connections } := honly'
    _ = { c with connections := c''.connections } := by rw [honly]

theorem ConnectionsOnly.now_eq (honly : ConnectionsOnly c c') : c'.now = c.now := by rw [honly]

theorem ConnectionsOnly.servers_eq (honly : ConnectionsOnly c c') : c'.servers = c.servers := by
  rw [honly]

theorem ConnectionsOnly.registry_eq (honly : ConnectionsOnly c c') (s : Nat) :
    c'.registry s = c.registry s := by
  rw [registry, registry, server?, server?, honly.servers_eq]

theorem ConnectionsOnly.storeCalls_eq (honly : ConnectionsOnly c c') :
    c'.storeCalls = c.storeCalls := by rw [honly]

/-! ## What connections may become -/

def Tidy (c : Cluster) : Prop := ∀ h x, c.connection? h = some x → x.writer.Tidy

/-- What the writes of others, and the ends of their streams, make of the connections. -/
structure Onward (c c' : Cluster) : Prop where
  later : Later c c'
  tidy : c.Tidy → c'.Tidy

theorem Onward.refl (c : Cluster) : Onward c c := ⟨Later.refl c, fun h => h⟩

theorem Onward.trans (honward : Onward c c') (honward' : Onward c' c'') : Onward c c'' :=
  ⟨honward.later.trans honward'.later, honward'.tidy ∘ honward.tidy⟩

theorem Onward.of_connections (hconnections : c'.connections = c.connections) : Onward c c' := by
  refine ⟨Later.of_connections hconnections, fun htidy h x hx => htidy h x ?_⟩
  rwa [connection?, ← hconnections]

theorem Tidy.setConnection (htidy : c.Tidy) {x : Connection} (hx : c.connection? h = some x)
    {y : Connection} (hy : y.writer.Tidy) : (c.setConnection h y).Tidy := by
  intro i z hz
  rw [connection?_setConnection hx] at hz
  split at hz
  · cases hz
    exact hy
  · exact htidy i z hz

theorem onward_setConnection {x y : Connection} (hx : c.connection? h = some x)
    (hlater : x.Later y) (htidy : x.writer.Tidy → y.writer.Tidy) :
    Onward c (c.setConnection h y) :=
  ⟨later_setConnection hx hlater, fun hall => hall.setConnection hx (htidy (hall h x hx))⟩

theorem onward_stepSend (c : Cluster) (cancelled : Bool) (s : Send) :
    Onward c (c.stepSend cancelled s).1 := by
  unfold stepSend
  split
  · exact Onward.refl c
  · next x hx =>
    exact onward_setConnection hx (x.later_stepSend c.now cancelled s.frame s.state)
      (x.moves_stepSend c.now cancelled s.frame s.state).tidy

theorem onward_abandonSend (c : Cluster) (s : Send) : Onward c (c.abandonSend s) := by
  rw [abandonSend]
  cases hx : c.connection? s.handle with
  | none =>
    rw [modifyConnection_of_none hx]
    exact Onward.refl c
  | some x =>
    rw [modifyConnection_of_some hx]
    exact onward_setConnection hx (x.later_abandon s.state)
      (Connection.moves_abandon x c.now s.state).tidy

/-! ## Looking at a list -/

section

variable {ε : Type} {handle : ε → Nat} {poll : Cluster → ε → Cluster × ε × Bool}
  {entries : List ε}

/-- Looks at entries in order; also whether any of them got on. -/
def pollAll (poll : Cluster → ε → Cluster × ε × Bool) (c : Cluster) :
    List ε → Cluster × List ε × Bool
  | [] => (c, [], false)
  | x :: rest =>
    let r := poll c x
    let r' := pollAll poll r.1 rest
    (r'.1, r.2.1 :: r'.2.1, r.2.2 || r'.2.2)

structure Private (handle : ε → Nat)
    (poll : Cluster → ε → Cluster × ε × Bool) : Prop where
  only : ∀ c x, ConnectionsOnly c (poll c x).1
  untouched : ∀ c x h, h ≠ handle x → (poll c x).1.connection? h = c.connection? h
  same : ∀ c c' x, c'.now = c.now → c'.connection? (handle x) = c.connection? (handle x) →
    (poll c' x).2 = (poll c x).2 ∧
      (poll c' x).1.connection? (handle x) = (poll c x).1.connection? (handle x)

structure Severally (handle : ε → Nat) (poll : Cluster → ε → Cluster × ε × Bool)
    (c : Cluster) (entries : List ε) (r : Cluster × List ε × Bool) : Prop where
  only : ConnectionsOnly c r.1
  untouched : ∀ h, h ∉ entries.map handle → r.1.connection? h = c.connection? h
  polled : ∀ x ∈ entries, r.1.connection? (handle x) = (poll c x).1.connection? (handle x)
  entries_eq : r.2.1 = entries.map fun x => (poll c x).2.1
  moved_eq : r.2.2 = entries.any fun x => (poll c x).2.2

theorem onward_pollAll (hpoll : ∀ c x, Onward c (poll c x).1) (entries : List ε) (c : Cluster) :
    Onward c (pollAll poll c entries).1 := by
  induction entries generalizing c with
  | nil => exact Onward.refl c
  | cons x rest ih => exact (hpoll c x).trans (ih _)

theorem pollAll_entries {P Q : ε → Prop} (hpoll : ∀ c x, P x → Q (poll c x).2.1)
    (hentries : ∀ x ∈ entries, P x) (c : Cluster) :
    ∀ y ∈ (pollAll poll c entries).2.1, Q y := by
  induction entries generalizing c with
  | nil => exact fun y hy => absurd hy List.not_mem_nil
  | cons x rest ih =>
    intro y hy
    rcases List.mem_cons.mp hy with rfl | hy
    · exact hpoll c x (hentries x List.mem_cons_self)
    · exact ih (fun x hx => hentries x (List.mem_cons_of_mem _ hx)) _ y hy

theorem pollAll_severally (hprivate : Private handle poll) (hnodup : (entries.map handle).Nodup)
    (c : Cluster) : Severally handle poll c entries (pollAll poll c entries) := by
  induction entries generalizing c with
  | nil => exact ⟨rfl, fun _ _ => rfl, fun _ hx => absurd hx List.not_mem_nil, rfl, rfl⟩
  | cons x rest ih =>
    obtain ⟨hfresh, hnodup'⟩ := List.nodup_cons.mp hnodup
    obtain ⟨honly, huntouched, hpolled, hentries, hmoved⟩ := ih hnodup' (poll c x).1
    have hnow := (hprivate.only c x).now_eq
    have hsame (y : ε) (hy : y ∈ rest) := hprivate.same c (poll c x).1 y hnow <|
      hprivate.untouched c x (handle y) fun heq => hfresh (List.mem_map.mpr ⟨y, hy, heq⟩)
    refine ⟨(hprivate.only c x).trans honly, fun h hh => ?_, fun y hy => ?_, ?_, ?_⟩
    · rw [List.map_cons, List.mem_cons, not_or] at hh
      exact (huntouched h hh.2).trans (hprivate.untouched c x h hh.1)
    · rcases List.mem_cons.mp hy with rfl | hy
      · exact huntouched _ hfresh
      · exact (hpolled y hy).trans (hsame y hy).2
    · rw [pollAll, List.map_cons, hentries]
      exact congrArg _ (List.map_congr_left fun y hy => by rw [(hsame y hy).1])
    · rw [pollAll, List.any_cons, hmoved]
      refine congrArg ((poll c x).2.2 || ·) (Bool.eq_iff_iff.mpr ?_)
      rw [List.any_eq_true, List.any_eq_true]
      exact exists_congr fun y => and_congr_right fun hy => by rw [(hsame y hy).1]

/-- Of entries with connections of their own, one at most has to do with a connection. -/
theorem filterMap_own {β : Type} (hnodup : (entries.map handle).Nodup)
    {x : ε} (hx : x ∈ entries) (f : ε → Option β) :
    (entries.filterMap fun y => if handle y = handle x then f y else none) = (f x).toList := by
  induction entries with
  | nil => cases hx
  | cons y rest ih =>
    obtain ⟨hfresh, hnodup'⟩ := List.nodup_cons.mp hnodup
    have hothers {z : ε} (hz : handle z ∉ rest.map handle) :
        (rest.filterMap fun y => if handle y = handle z then f y else none) = [] :=
      List.filterMap_eq_nil_iff.mpr fun y hy =>
        if_neg fun heq => hz (List.mem_map.mpr ⟨y, hy, heq⟩)
    rcases List.mem_cons.mp hx with rfl | hx
    · rw [List.filterMap_cons, if_pos rfl]
      cases hf : f x with
      | none => exact hothers hfresh
      | some b => simp only [hothers hfresh, Option.toList_some]
    · have hne : handle y ≠ handle x :=
        fun heq => hfresh (List.mem_map.mpr ⟨x, hx, heq.symm⟩)
      rw [List.filterMap_cons, if_neg hne]
      exact ih hnodup' hx

theorem filterMap_foreign {β : Type} (hh : h ∉ entries.map handle) (f : ε → Option β) :
    (entries.filterMap fun y => if handle y = h then f y else none) = [] :=
  List.filterMap_eq_nil_iff.mpr fun y hy => if_neg fun heq => hh (List.mem_map.mpr ⟨y, hy, heq⟩)

end

/-! ## One send -/

theorem stepSend_none {s : Send} (hnone : c.connection? s.handle = none) (cancelled : Bool) :
    c.stepSend cancelled s = (c, .done (.error Connection.notLiveError)) := by
  rw [stepSend, hnone]

theorem stepSend_some {s : Send} {x : Connection} (hx : c.connection? s.handle = some x)
    (cancelled : Bool) : c.stepSend cancelled s =
      (c.setConnection s.handle (x.stepSend c.now cancelled s.frame s.state).1,
        (x.stepSend c.now cancelled s.frame s.state).2.mapState fun state =>
          { s with state := state }) := by
  rw [stepSend, hx]

theorem only_stepSend (c : Cluster) (cancelled : Bool) (s : Send) :
    ConnectionsOnly c (c.stepSend cancelled s).1 := by
  cases hx : c.connection? s.handle with
  | none => rw [stepSend_none hx]; rfl
  | some x => rw [stepSend_some hx]; rfl

theorem connection?_stepSend (c : Cluster) (cancelled : Bool) (s : Send) (hne : h ≠ s.handle) :
    (c.stepSend cancelled s).1.connection? h = c.connection? h := by
  cases hx : c.connection? s.handle with
  | none => rw [stepSend_none hx]
  | some x => rw [stepSend_some hx, connection?_setConnection hx, if_neg hne]

theorem stepSend_same {s : Send} (cancelled : Bool) (hnow : c'.now = c.now)
    (hconnection : c'.connection? s.handle = c.connection? s.handle) :
    (c'.stepSend cancelled s).2 = (c.stepSend cancelled s).2 ∧
      (c'.stepSend cancelled s).1.connection? s.handle =
        (c.stepSend cancelled s).1.connection? s.handle := by
  cases hx : c.connection? s.handle with
  | none =>
    have hx' := hconnection.trans hx
    rw [stepSend_none hx, stepSend_none hx']
    exact ⟨rfl, hconnection⟩
  | some x =>
    have hx' := hconnection.trans hx
    rw [stepSend_some hx, stepSend_some hx', hnow, connection?_setConnection hx,
      connection?_setConnection hx', if_pos rfl, if_pos rfl]
    exact ⟨rfl, rfl⟩

/-! ## Accounts -/

/-- What has come of a connection in a call. -/
inductive Verdict where
  /-- It was dead when the call came to it. -/
  | foundDead
  /-- Its send has ended. -/
  | answered (result : Except Error Unit)
deriving Repr

def Verdict.frames (frame : String) : Verdict → List String
  | .foundDead => []
  | .answered result => gained frame result

inductive Status where
  | waiting (s : Sending)
  | ended (v : Verdict)
  /-- The send has been given up. -/
  | dropped

structure Account where
  /-- The frames that the connection has accepted. -/
  received : List String := []
  /-- The turns that have joined its line. -/
  joined : List Nat := []
  verdicts : List Verdict := []

def Account.add (a b : Account) : Account :=
  ⟨a.received ++ b.received, a.joined ++ b.joined, a.verdicts ++ b.verdicts⟩

theorem Account.add_nothing (a : Account) : a.add {} = a := by
  simp [add]

def lineAt (c : Cluster) (h : Nat) : List Nat := ((c.connection? h).map Connection.waiting).getD []

def notes (c c' : Cluster) (verdicts : List Verdict) (h : Nat) : Account :=
  ⟨news c c' h, (c'.lineAt h).filter (· ∉ c.lineAt h), verdicts⟩

theorem notes_of_untouched (huntouched : c'.connection? h = c.connection? h) :
    notes c c' [] h = {} := by
  have hline : c'.lineAt h = c.lineAt h := by rw [lineAt, lineAt, huntouched]
  simp [notes, news_of_untouched huntouched, hline]

/-- None of the turns that joined the line of the connection is still there. -/
def AllLeft (c : Cluster) (h : Nat) (turns : List Nat) : Prop :=
  ∃ x, c.connection? h = some x ∧ ∀ id ∈ turns, x.writer.Left id

def Account.Fits (a : Account) (c : Cluster) (frame : String) (h : Nat) : Status → Prop
  | .waiting s => a.received = [] ∧ a.verdicts = [] ∧ (∀ id ∈ a.joined, id ∈ s.turns) ∧
      ∃ x, c.connection? h = some x ∧ x.Expects frame s
  | .ended v => a.received = v.frames frame ∧ a.verdicts = [v] ∧ AllLeft c h a.joined
  | .dropped => a.received = [] ∧ a.verdicts = [] ∧ AllLeft c h a.joined

theorem AllLeft.later {turns : List Nat} (hleft : AllLeft c h turns) (hlater : Later c c') :
    AllLeft c' h turns := by
  obtain ⟨x, hx, hleft⟩ := hleft
  obtain ⟨x', hx', hlater⟩ := hlater h x hx
  exact ⟨x', hx', fun id hid => (hleft id hid).later hlater.writer⟩

variable {a : Account} {frame : String}

theorem Account.Fits.later {st : Status} (hfits : a.Fits c frame h st) (hlater : Later c c') :
    a.Fits c' frame h st := by
  cases st with
  | waiting s =>
    obtain ⟨hreceived, hverdicts, hjoined, x, hx, hexpects⟩ := hfits
    obtain ⟨x', hx', hlater⟩ := hlater h x hx
    exact ⟨hreceived, hverdicts, hjoined, x', hx', hexpects.later hlater⟩
  | ended v => exact ⟨hfits.1, hfits.2.1, hfits.2.2.later hlater⟩
  | dropped => exact ⟨hfits.1, hfits.2.1, hfits.2.2.later hlater⟩

def verdictOf {σ : Type} : Progress σ (Except Error Unit) → Option Verdict
  | .done r => some (.answered r)
  | _ => none

def Status.after (s : Sending) : Progress Send (Except Error Unit) → Status
  | .blocked => .waiting s
  | .moved s => .waiting s.state
  | .done r => .ended (.answered r)

/-- Turns that are new in line are among those that may have joined it. -/
theorem mem_joined {x x' : Connection} (hx : c.connection? h = some x)
    (hx' : c'.connection? h = some x') {id : Nat} {vs : List Verdict} :
    id ∈ (notes c c' vs h).joined ↔ id ∈ x'.waiting ∧ id ∉ x.waiting := by
  simp [notes, lineAt, hx, hx']

theorem Account.Fits.polled {s : Sending} (hfits : a.Fits c frame h (.waiting s)) (htidy : c.Tidy)
    (hc' : c'.connection? h = (c.stepSend cancelled ⟨h, frame, s⟩).1.connection? h) :
    (a.add (notes c c' (verdictOf (c.stepSend cancelled ⟨h, frame, s⟩).2).toList h)).Fits
      c' frame h
      (Status.after s (c.stepSend cancelled ⟨h, frame, s⟩).2) := by
  obtain ⟨hreceived, hverdicts, hjoined, x, hx, hexpects⟩ := hfits
  have hpolled := Connection.polled_stepSend (htidy h x hx) c.now cancelled hexpects
  have hlater := Connection.later_stepSend x c.now cancelled frame s
  rw [stepSend_some (s := ⟨h, frame, s⟩) hx, connection?_setConnection hx, if_pos rfl] at hc'
  rw [stepSend_some (s := ⟨h, frame, s⟩) hx]
  dsimp only at hc' ⊢
  generalize x.stepSend c.now cancelled frame s = p at hpolled hlater hc'
  obtain ⟨x', p⟩ := p
  have hnews : news c c' h = Connection.taking frame p := news_of_found hx hc' hpolled.held
  have hreceived' (vs : List Verdict) : (a.add (notes c c' vs h)).received =
      Connection.taking frame p := by
    simp only [add, notes, hreceived, hnews, List.nil_append]
  have hverdicts' (vs : List Verdict) : (a.add (notes c c' vs h)).verdicts = vs := by
    simp only [add, notes, hverdicts, List.nil_append]
  have hjoined' {vs : List Verdict} {id : Nat} (hid : id ∈ (a.add (notes c c' vs h)).joined) :
      id ∈ s.turns ∨ ∃ s', p = .moved s' ∧ id ∈ s'.turns := by
    rcases List.mem_append.mp hid with hid | hid
    · exact .inl (hjoined id hid)
    · obtain ⟨hin, hnot⟩ := (mem_joined hx hc').mp hid
      exact .inr ((hpolled.joined id hin).resolve_left hnot)
  cases p with
  | blocked =>
    refine ⟨hreceived' _, hverdicts' _, fun id hid => ?_, x', hc', hexpects.later hlater⟩
    exact (hjoined' hid).resolve_right fun ⟨_, h, _⟩ => (by cases h)
  | moved s' =>
    obtain ⟨rfl, hexpects'⟩ := hpolled.begins s' rfl
    refine ⟨hreceived' _, hverdicts' _, fun id hid => ?_, x', hc', hexpects'⟩
    rcases hjoined' hid with hid | ⟨_, h, hid⟩
    · exact absurd hid List.not_mem_nil
    · cases h
      exact hid
  | done r =>
    refine ⟨hreceived' _, hverdicts' _, x', hc', fun id hid => hpolled.left r rfl id ?_⟩
    exact (hjoined' hid).resolve_right fun ⟨_, h, _⟩ => (by cases h)

theorem Account.Fits.abandoned {s : Sending} (hfits : a.Fits c frame h (.waiting s))
    (hc' : c'.connection? h = (c.abandonSend ⟨h, frame, s⟩).connection? h) :
    (a.add (notes c c' [] h)).Fits c' frame h .dropped := by
  obtain ⟨hreceived, hverdicts, hjoined, x, hx, hexpects⟩ := hfits
  obtain ⟨hheld, hlive, hwaiting, hleft⟩ := Connection.abandoned_abandon hexpects
  have hx' : c'.connection? h = some (x.abandon s) := by
    rw [hc', abandonSend, modifyConnection_of_some hx, connection?_setConnection hx, if_pos rfl]
  have hnews : news c c' h = [] :=
    news_of_found hx hx' (hheld.trans (List.append_nil _).symm)
  refine ⟨?_, ?_, x.abandon s, hx', fun id hid => ?_⟩
  · simp only [add, notes, hreceived, hnews, List.nil_append]
  · simp only [add, notes, hverdicts, List.nil_append]
  · rcases List.mem_append.mp hid with hid | hid
    · exact hleft id (hjoined id hid)
    · obtain ⟨hin, hnot⟩ := (mem_joined hx hx').mp hid
      exact absurd (hwaiting hin) hnot

theorem Account.Fits.congr {st : Status} (hfits : a.Fits c frame h st)
    (hconnection : c'.connection? h = c.connection? h) : a.Fits c' frame h st := by
  cases st with
  | waiting s => simpa only [Fits, hconnection] using hfits
  | ended v => simpa only [Fits, AllLeft, hconnection] using hfits
  | dropped => simpa only [Fits, AllLeft, hconnection] using hfits

/-- A step that leaves the connection alone adds nothing to its account. -/
theorem Account.Fits.unmoved {st : Status} (hfits : a.Fits c frame h st)
    (hconnection : c'.connection? h = c.connection? h) :
    (a.add (notes c c' [] h)).Fits c' frame h st := by
  rw [notes_of_untouched hconnection, add_nothing]
  exact hfits.congr hconnection

/-! ## Who dies -/

/-- Connections die of failed sends only, and of each of them. -/
structure Mortality (c c' : Cluster) (verdicts : Nat → List Verdict) : Prop where
  spared : ∀ h, c.isLive h = true → c'.isLive h = true ∨
    ∃ e, .answered (.error e) ∈ verdicts h ∧ e.isCancelled = false
  closed : ∀ h e, .answered (.error e) ∈ verdicts h →
    e.isCancelled = false → c'.isLive h = false

theorem isLive_of_found {x : Connection} (hx : c.connection? h = some x) : c.isLive h = x.live := by
  rw [isLive, hx, Option.any_some]

theorem isLive_congr (hconnection : c'.connection? h = c.connection? h) :
    c'.isLive h = c.isLive h := by
  rw [isLive, isLive, hconnection]

theorem Mortality.of_untouched (huntouched : ∀ h, c'.isLive h = c.isLive h) :
    Mortality c c' fun _ => [] where
  spared h hlive := .inl ((huntouched h).trans hlive)
  closed _ _ hmem := absurd hmem List.not_mem_nil

/-- A send that fails closes its connection, and nothing else does. -/
theorem isLive_stepSend (s : Send)
    (hc' : c'.connection? s.handle = (c.stepSend cancelled s).1.connection? s.handle) :
    (c.isLive s.handle = true → c'.isLive s.handle = true ∨
      ∃ e, (c.stepSend cancelled s).2 = .done (.error e) ∧ e.isCancelled = false) ∧
    ∀ e, (c.stepSend cancelled s).2 = .done (.error e) → e.isCancelled = false →
      c'.isLive s.handle = false := by
  cases hx : c.connection? s.handle with
  | none =>
    have hdead : c.isLive s.handle = false := by rw [isLive, hx, Option.any_none]
    rw [stepSend_none hx, hx] at hc'
    refine ⟨fun hlive => absurd hlive (by rw [hdead]; exact Bool.false_ne_true),
      fun _ _ _ => ?_⟩
    rw [isLive, hc', Option.any_none]
  | some x =>
    rw [stepSend_some hx, connection?_setConnection hx, if_pos rfl] at hc'
    rw [isLive_of_found hx, isLive_of_found hc', stepSend_some hx]
    constructor
    · intro hlive
      have hpolled := Connection.live_stepSend hlive c.now cancelled s.frame s.state
      refine hpolled.imp_right fun hfailed => ?_
      obtain ⟨e, he, hcancelled⟩ := hfailed
      exact ⟨e, by rw [he]; rfl, hcancelled⟩
    · intro e he hcancelled
      refine Connection.dead_of_stepSend (e := e) ?_ hcancelled
      dsimp only at he
      generalize (x.stepSend c.now cancelled s.frame s.state).2 = p at he
      cases p with
      | done r =>
        cases he
        rfl
      | blocked => cases he
      | moved s' => cases he

end EventHub.Cluster
