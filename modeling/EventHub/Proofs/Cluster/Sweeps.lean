import EventHub.Proofs.Cluster.Withdrawals
/-!
# Sweeps among others

A sweep judges every member of its server once: it finds it dead or sends it a heartbeat and sees
what comes of it. Those that were dead and those whose heartbeat failed are evicted, one after
another and whatever the store says; a heartbeat that was cancelled says nothing.
-/

namespace EventHub.Cluster

variable {c₀ c c' : Cluster} {s h : Nat} {server : Server} {ms : List Member} {cancelled : Bool}
  {beats : List Beat}

/-! ## Where a sweep stands -/

def sweep (s : Nat) (c : Cluster) (cancelled : Bool) (w : Sweep) : Cluster × Progress Sweep Nat :=
  c.stepSweep cancelled s w

def Sweep.removals? : Sweep → Option Removals
  | .evicting _ r => some r
  | _ => none

def Sweep.verdicts (cancelled : Bool) (c : Cluster) (w : Sweep) (h : Nat) : List Verdict :=
  match w with
  | .beating beats => beatKind.verdictsAt cancelled c beats h
  | _ => []

/-- The connections that a step of a sweep finds dead or live. -/
def Sweep.examines : Sweep → List Nat
  | .beating beats => beats.filterMap fun
    | .fresh m => some m.handle
    | _ => none
  | _ => []

abbrev SweepErrand := Errand Cluster Sweep Nat

def sweepAccount (e : SweepErrand) (h : Nat) : Account := accountOf Sweep.verdicts e.strides h

def Judged (c : Cluster) (account : Nat → Account) (m : Member) : Prop :=
  ∃ v, (account m.handle).Fits c Event.heartbeat m.handle (.ended v)

inductive Sweep.Course (s : Nat) (server : Server) (ms : List Member) (e : SweepErrand) :
    Sweep ⊕ Nat → Prop where
  | beating {beats : List Beat} (hholds : beatKind.Holds e.world (sweepAccount e) ms beats)
      (honly : SendsOnly Sweep.removals? e) : Course s server ms e (.inl (.beating beats))
  | evicting {r : Removals} (hjudged : ∀ m ∈ ms, Judged e.world (sweepAccount e) m)
      (hcleared : Cleared s server.id server.sharing.isSome Sweep.removals?
        (deadAmong ms (sweepAccount e)) e.strides r) :
      Course s server ms e (.inl (.evicting (deadAmong ms (sweepAccount e)).length r))
  | complete (hjudged : ∀ m ∈ ms, Judged e.world (sweepAccount e) m)
      (hcleared : Cleared s server.id server.sharing.isSome Sweep.removals?
        (deadAmong ms (sweepAccount e)) e.strides ⟨none, []⟩) :
      Course s server ms e (.inr (deadAmong ms (sweepAccount e)).length)

theorem amid_sweep (c : Cluster) (cancelled : Bool) (w : Sweep) :
    Amid s c (sweep s c cancelled w).1 :=
  ⟨(removes_stepSweep c cancelled s w).steady, onward_stepSweep w⟩

theorem clears_sweep (s count : Nat) :
    Clears s (sweep s) (.evicting count) (fun _ => count) := fun _ _ _ => rfl

/-- When all heartbeats have ended, the dead ones are those that the verdicts say. -/
theorem deadOf_holds {account : Nat → Account} (hholds : beatKind.Holds c account ms beats)
    (hended : beats.all Beat.isEnded = true) :
    deadOf beats = deadAmong ms account ∧ ∀ m ∈ ms, Judged c account m := by
  induction hholds with
  | nil => exact ⟨rfl, fun _ hm => absurd hm List.not_mem_nil⟩
  | @cons m b ms' rest hshows _ ih =>
    obtain ⟨st, hshows, hfits⟩ := hshows
    rw [List.all_cons, Bool.and_eq_true] at hended
    obtain ⟨hdead, hjudged⟩ := ih hended.2
    cases hshows with
    | fresh => cases hended.1
    | sending state => cases hended.1
    | ended v =>
      have hverdicts : (account m.handle).verdicts = [v] := hfits.2.1
      constructor
      · rw [deadOf] at hdead
        rw [deadOf, List.filterMap_cons, hdead, deadAmong_cons hverdicts]
        cases v.isDead <;> rfl
      · intro m' hm'
        rcases List.mem_cons.mp hm' with rfl | hm'
        · exact ⟨v, hfits⟩
        · exact hjudged m' hm'

/-! ## Steps -/

def Sweep.afterLook (r : Cluster × List Beat × Bool) : Progress Sweep Nat :=
  if r.2.1.all Beat.isEnded then .moved (.evicting (deadOf r.2.1).length ⟨none, deadOf r.2.1⟩)
  else if r.2.2 then .moved (.beating r.2.1)
  else .blocked

theorem stepSweep_beating (c : Cluster) (cancelled : Bool) (s : Nat) (beats : List Beat) :
    c.stepSweep cancelled s (.beating beats) =
      ((c.stepBeats cancelled beats).1, Sweep.afterLook (c.stepBeats cancelled beats)) := by
  rw [stepSweep, Sweep.afterLook]
  generalize c.stepBeats cancelled beats = r
  obtain ⟨w, beats', moved⟩ := r
  dsimp only
  split
  · rfl
  · split <;> rfl

section

variable {e e' : SweepErrand}

theorem sweep_look (hnodup : (ms.map (·.handle)).Nodup)
    (hcontinues : Continues s server c₀ e.world)
    (hholds : beatKind.Holds e.world (sweepAccount e) ms beats)
    (honly : SendsOnly Sweep.removals? e) :
    Sweep.Course s server ms (e.stride (sweep s) (.beating beats))
      (e.stride (sweep s) (.beating beats)).stage ∧
    Attends s ms Sweep.removals? Sweep.verdicts (e.coming (sweep s) (.beating beats)) := by
  have hround := lawful_beatKind.round e.cancelled hcontinues.tidy hnodup hholds
  rw [show pollAll (beatKind.poll e.cancelled) e.world beats = e.world.stepBeats e.cancelled beats
    from (stepBeats_eq e.cancelled beats e.world).symm] at hround
  have hstep : sweep s e.world e.cancelled (.beating beats) =
      ((e.world.stepBeats e.cancelled beats).1,
        Sweep.afterLook (e.world.stepBeats e.cancelled beats)) :=
    stepSweep_beating e.world e.cancelled s beats
  generalize he' : e.stride (sweep s) (.beating beats) = e'
  have hworld : e'.world = (e.world.stepBeats e.cancelled beats).1 := by
    rw [← he', Errand.world_stride, hstep]
  have hstage : e'.stage =
      (Sweep.afterLook (e.world.stepBeats e.cancelled beats)).stage (.beating beats) := by
    rw [← he', Errand.stage_stride, hstep]
  have honly' : SendsOnly Sweep.removals? e' := he' ▸ honly.stride rfl (hstep ▸ hround.only)
  have hholds' : beatKind.Holds e'.world (sweepAccount e') ms
      (e.world.stepBeats e.cancelled beats).2.1 := by
    have haccount : sweepAccount e' = fun h => (sweepAccount e h).add
        (notes e.world (e.world.stepBeats e.cancelled beats).1
          (beatKind.verdictsAt e.cancelled e.world beats h) h) := by
      funext h
      rw [← he', sweepAccount, Errand.strides_stride, accountOf_append, Errand.coming_eq hstep]
      rfl
    rw [hworld, haccount]
    exact hround.holds
  refine ⟨?_, ?_⟩
  · rw [hstage, Sweep.afterLook]
    split
    · next hended =>
      obtain ⟨hdead, hjudged⟩ := deadOf_holds hholds' hended
      rw [hdead]
      exact .evicting hjudged (honly'.cleared _)
    · split
      · exact .beating hholds' honly'
      · next hmoved =>
        rw [hround.stays (Bool.eq_false_iff.mpr hmoved)] at hholds'
        exact .beating hholds' honly'
  · rw [Errand.coming_eq hstep]
    exact ⟨registry_of_sends hround.only rfl, hround.untouched,
      hround.foreign, hround.mortality⟩

theorem sweep_evict (hcontinues : Continues s server c₀ e.world) {r : Removals}
    (hjudged : ∀ m ∈ ms, Judged e.world (sweepAccount e) m)
    (hcleared : Cleared s server.id server.sharing.isSome Sweep.removals?
      (deadAmong ms (sweepAccount e)) e.strides r) {count : Nat}
    (hcount : count = (deadAmong ms (sweepAccount e)).length) :
    Sweep.Course s server ms (e.stride (sweep s) (.evicting count r))
      (e.stride (sweep s) (.evicting count r)).stage ∧
    Attends s ms Sweep.removals? Sweep.verdicts (e.coming (sweep s) (.evicting count r)) := by
  have hremoving : Removing s server ms Sweep.removals? Sweep.verdicts (sweep s) _ e r
      (.evicting count) (fun _ => count) :=
    removing_stride (clears_sweep s count) rfl rfl hcontinues hcleared
  obtain ⟨hconnections, haccounts, hattends, p, hstage, hcleared'⟩ := hremoving
  refine ⟨?_, hattends⟩
  generalize e.stride (sweep s) (.evicting count r) = e' at hconnections haccounts hstage hcleared'
  have haccount : sweepAccount e' = sweepAccount e := haccounts
  have hjudged' : ∀ m ∈ ms, Judged e'.world (sweepAccount e') m := by
    intro m hm
    obtain ⟨v, hfits⟩ := hjudged m hm
    refine ⟨v, ?_⟩
    rw [haccount]
    exact hfits.congr (congrArg (·[m.handle]?) hconnections)
  rw [← haccount] at hcleared' hcount
  rw [hstage, hcount]
  cases p with
  | blocked => exact .evicting hjudged' hcleared'
  | moved r' => exact .evicting hjudged' hcleared'
  | done u => exact .complete hjudged' hcleared'

theorem sweep_call (horder : InOrder s server c) (cancelled : Bool) :
    Sweep.Course s server (c.registry s).members (Errand.call (sweep s) c cancelled .fresh)
      (Errand.call (sweep s) c cancelled .fresh).stage ∧
    (sweep s c cancelled .fresh).1 = c := by
  have hworld : (sweep s c cancelled .fresh).1 = c := by
    rw [sweep, stepSweep]
    split <;> rfl
  refine ⟨?_, hworld⟩
  generalize he : Errand.call (sweep s) c cancelled .fresh = e
  have haccount (h : Nat) : sweepAccount e h = {} := by
    subst he
    exact accountOf_call (congrArg (·.connection? h) hworld) rfl
  have hew : e.world = c := he ▸ hworld
  have honly : SendsOnly Sweep.removals? e := by
    subst he
    intro t ht
    rw [Errand.mem_strides_call.mp ht]
    exact ⟨rfl, hworld.symm ▸ ConnectionsOnly.refl c⟩
  cases hmembers : (c.registry s).members with
  | nil =>
    have hstage : e.stage = .inr 0 := by
      rw [← he, Errand.call, Errand.stage_stride, sweep, stepSweep, hmembers]
      rfl
    rw [hstage]
    exact .complete (fun m hm => absurd hm List.not_mem_nil) (honly.cleared [])
  | cons m rest =>
    have hstage : e.stage = .inl (.beating ((m :: rest).map .fresh)) := by
      rw [← he, Errand.call, Errand.stage_stride, sweep, stepSweep, hmembers]
      rfl
    rw [hstage, ← hmembers]
    refine .beating ?_ honly
    rw [EntryKind.Holds, List.forall₂_map_right_iff, List.forall₂_same]
    intro m hm
    obtain ⟨x, hx⟩ := taken_of_member? (horder.member m hm)
    rw [haccount, hew]
    exact ⟨_, .fresh, rfl, rfl, fun id hid => absurd hid List.not_mem_nil, x, hx, trivial⟩

/-- As long as the sweep does nothing itself, it stands where it stood. -/
theorem Sweep.Course.goesOn {stage : Sweep ⊕ Nat} (hcourse : Sweep.Course s server ms e stage)
    (honward : Onward e.world e'.world) (hstrides : e'.strides = e.strides) :
    Sweep.Course s server ms e' stage := by
  have haccount : sweepAccount e' = sweepAccount e := by
    funext h
    rw [sweepAccount, sweepAccount, hstrides]
  have hjudged' {m : Member} (hm : Judged e.world (sweepAccount e) m) :
      Judged e'.world (sweepAccount e') m := by
    obtain ⟨v, hfits⟩ := hm
    exact ⟨v, haccount ▸ hfits.later honward.later⟩
  cases hcourse with
  | beating hholds honly =>
    exact .beating (haccount ▸ hholds.onward honward) fun t ht => honly t (hstrides ▸ ht)
  | evicting hjudged hcleared =>
    rw [← haccount, ← hstrides] at hcleared
    rw [← haccount]
    exact .evicting (fun m hm => hjudged' (hjudged m hm)) hcleared
  | complete hjudged hcleared =>
    rw [← haccount, ← hstrides] at hcleared
    rw [← haccount]
    exact .complete (fun m hm => hjudged' (hjudged m hm)) hcleared

theorem Sweep.Course.stride (hcourse : Sweep.Course s server ms e e.stage)
    (hnodup : (ms.map (·.handle)).Nodup) (hcontinues : Continues s server c₀ e.world) {w : Sweep}
    (hstage : e.stage = .inl w) :
    Sweep.Course s server ms (e.stride (sweep s) w) (e.stride (sweep s) w).stage ∧
    Attends s ms Sweep.removals? Sweep.verdicts (e.coming (sweep s) w) := by
  rw [hstage] at hcourse
  cases hcourse with
  | beating hholds honly => exact sweep_look hnodup hcontinues hholds honly
  | evicting hjudged hcleared => exact sweep_evict hcontinues hjudged hcleared rfl

/-- A sweep that is made in a cluster in order takes its course, whatever happens meanwhile. -/
theorem sweep_course (horder : InOrder s server c)
    (hrun : Errand.Run (sweep s) (Amid s) (Errand.call (sweep s) c cancelled .fresh) e) :
    Sweep.Course s server (c.registry s).members e e.stage ∧
      ∀ t ∈ e.strides, Attends s (c.registry s).members Sweep.removals? Sweep.verdicts t := by
  have hnodup : ((c.registry s).members.map (·.handle)).Nodup :=
    nodup_targets_of_located horder.toLocated none
  obtain ⟨hcourse, hworld⟩ := sweep_call horder cancelled
  have hfirst : Attends s (c.registry s).members Sweep.removals? Sweep.verdicts
      ⟨c, .fresh, cancelled, _, (sweep s c cancelled .fresh).2⟩ :=
    attends_of_connections (congrArg Cluster.connections hworld) rfl
      (congrArg (·.registry s) hworld)
  refine attends_throughout (fun e => Sweep.Course s server (c.registry s).members e e.stage)
    amid_sweep horder hrun ⟨hcourse, hfirst⟩ (fun e e' hcourse honward hstrides hstage => ?_)
    fun e w hcourse hcontinues hstage => ?_
  · rw [hstage]
    exact hcourse.goesOn honward hstrides
  · exact hcourse.stride hnodup hcontinues hstage

/-! ## What a sweep comes to -/

theorem foundDead_mem_verdicts {w : Sweep} :
    .foundDead ∈ w.verdicts cancelled c h ↔ h ∈ w.examines ∧ c.isLive h = false := by
  have hverdict {p : Progress Send (Except Error Unit)} : verdictOf p ≠ some .foundDead := by
    cases p <;> simp [verdictOf]
  cases w with
  | fresh => simp [Sweep.verdicts, Sweep.examines]
  | evicting count r => simp [Sweep.verdicts, Sweep.examines]
  | beating beats =>
    rw [Sweep.verdicts, Sweep.examines, EntryKind.verdictsAt, List.mem_filterMap,
      List.mem_filterMap]
    constructor
    · rintro ⟨b, hb, hv⟩
      split at hv
      · next hh =>
        cases b with
        | fresh m =>
          subst hh
          refine ⟨⟨_, hb, rfl⟩, ?_⟩
          cases hlive : c.isLive m.handle with
          | false => exact hlive
          | true => simp [beatKind, Beat.verdict?, hlive] at hv
        | sending m s => exact absurd hv hverdict
        | ended m dead => cases hv
      · cases hv
    · rintro ⟨⟨b, hb, hh⟩, hdead⟩
      cases b with
      | fresh m =>
        cases hh
        exact ⟨_, hb, by simp [beatKind, Beat.handle, Beat.verdict?, hdead]⟩
      | sending m s => cases hh
      | ended m dead => cases hh

def Welcomes (c : Cluster) (h : Nat) : Prop :=
  ∃ x, c.connection? h = some x ∧ x.live = true ∧ x.writer.Accepts c.now

/-- A heartbeat to such a connection does not fail by itself. -/
theorem ne_error_of_welcomes (hwelcomes : c.Welcomes h) {w : Sweep} (err : Error) :
    .answered (.error err) ∉ w.verdicts false c h := by
  intro hmem
  cases w with
  | fresh => cases hmem
  | evicting count r => cases hmem
  | beating beats =>
    obtain ⟨b, _, hv⟩ := List.mem_filterMap.mp hmem
    split at hv
    · next hh =>
      cases b with
      | fresh m =>
        simp only [beatKind, Beat.verdict?] at hv
        split at hv <;> cases hv
      | sending m s =>
        obtain ⟨x, hx, hlive, haccepts⟩ := hwelcomes
        have hsend := verdictOf_eq.mp hv
        rw [stepSend_some (hh ▸ hx)] at hsend
        refine Connection.ne_error_of_accepts hlive haccepts s.frame s.state err ?_
        generalize (x.stepSend c.now false s.frame s.state).2 = p at hsend
        cases p with
        | blocked => cases hsend
        | moved s' => cases hsend
        | done r =>
          cases hsend
          rfl
      | ended m dead => cases hv
    · cases hv

/-- A heartbeat to such a connection that is through has succeeded. -/
theorem eq_ok_of_welcomes (hwelcomes : c.Welcomes h) {w : Sweep} {v : Verdict}
    (hmem : v ∈ w.verdicts false c h) : v = .answered (.ok ()) := by
  cases v with
  | foundDead =>
    obtain ⟨x, hx, hlive, _⟩ := hwelcomes
    have hdead := (foundDead_mem_verdicts.mp hmem).2
    rw [isLive_of_found hx, hlive] at hdead
    cases hdead
  | answered r =>
    cases r with
    | error err => exact absurd hmem (ne_error_of_welcomes hwelcomes err)
    | ok u => rfl

theorem not_mem_deadAmong {r : Registry} (hagrees : r.Agrees)
    {account : Nat → Account} {m : Member}
    (hm : m ∈ r.members) {err : Error} (hcancelled : err.isCancelled = true)
    (hverdicts : (account m.handle).verdicts = [.answered (.error err)]) :
    m.id ∉ deadAmong r.members account := by
  rw [mem_deadAmong]
  rintro ⟨m', hm', hid, hdead⟩
  have hfound := hagrees.mem_members.mp hm'
  rw [hid, hagrees.mem_members.mp hm, Option.some.injEq] at hfound
  subst hfound
  rw [hverdicts] at hdead
  rcases hdead with hdead | ⟨err', hdead, hfailed⟩
  · cases List.mem_singleton.mp hdead
  · cases List.mem_singleton.mp hdead
    rw [hcancelled] at hfailed
    cases hfailed

/-- What a sweep has done that has removed `n` connections. -/
structure Swept (s : Nat) (c : Cluster) (e : SweepErrand) (n : Nat) : Prop where
  /-- There is one verdict on each member, and it has got the heartbeat only if its send has
  succeeded. -/
  judged : ∀ m ∈ (c.registry s).members, ∃ v, (sweepAccount e m.handle).verdicts = [v] ∧
    (sweepAccount e m.handle).received = v.frames Event.heartbeat
  /-- A connection is found dead if it is dead when it is examined. -/
  examined : ∀ t ∈ e.strides, ∀ h, .foundDead ∈ t.state.verdicts t.cancelled t.before h ↔
    h ∈ t.state.examines ∧ t.before.isLive h = false
  /-- The names that are removed are those of the members that were found dead and of those whose
  heartbeat failed. -/
  evicted : ∀ id, id ∈ turnsOf Sweep.removals? e.strides ↔
    ∃ m ∈ (c.registry s).members, m.id = id ∧
      (.foundDead ∈ (sweepAccount e m.handle).verdicts ∨
        ∃ err, .answered (.error err) ∈ (sweepAccount e m.handle).verdicts ∧
          err.isCancelled = false)
  once : (turnsOf Sweep.removals? e.strides).Nodup
  count : n = (turnsOf Sweep.removals? e.strides).length
  /-- A step at which it is the turn of a name takes it out of the registry, whatever the store
  says, and no other step of the sweep touches the registry. -/
  registry : ∀ t ∈ e.strides, t.after.registry s =
    afterTurn (t.before.registry s) (t.state.removals?.bind Removals.turn?)
  /-- Unless others have changed the registry, those names are what it has lost. -/
  removed : (∀ p ∈ e.meantime, p.2.registry s = p.1.registry s) →
    e.world.registry s = (c.registry s).without (turnsOf Sweep.removals? e.strides)
  /-- Connections that are no members are left alone. -/
  others : ∀ t ∈ e.strides, ∀ h, h ∉ (c.registry s).members.map (·.handle) →
    t.after.connection? h = t.before.connection? h
  /-- A member that was live all the time and whose writer accepted has got the heartbeat, if the
  token was never cancelled. -/
  accepted : e.cancelled = false → ∀ m ∈ (c.registry s).members,
    (∀ t ∈ e.strides, t.before.Welcomes m.handle) →
    (sweepAccount e m.handle).received = [Event.heartbeat]
  /-- A member whose heartbeat was cancelled stays registered, and live unless others close it. -/
  kept : ∀ m ∈ (c.registry s).members, ∀ err,
    .answered (.error err) ∈ (sweepAccount e m.handle).verdicts → err.isCancelled = true →
    (∀ t ∈ e.strides, (t.after.registry s).find? m.id = (t.before.registry s).find? m.id) ∧
      (c.isLive m.handle = true →
        (∀ p ∈ e.meantime, p.1.isLive m.handle = true → p.2.isLive m.handle = true) →
        e.world.isLive m.handle = true)

theorem find?_afterTurn {r : Registry} {id? : Option ConnectionId} {id : ConnectionId}
    (hne : id? ≠ some id) : (afterTurn r id?).find? id = r.find? id := by
  cases id? with
  | none => rfl
  | some key => exact (Registry.find?_take id key).trans (if_neg fun h => hne (congrArg some h))

theorem swept_of_run (horder : InOrder s server c)
    (hrun : Errand.Run (sweep s) (Amid s) (Errand.call (sweep s) c cancelled .fresh) e) {n : Nat}
    (hstage : e.stage = .inr n) : Swept s c e n := by
  obtain ⟨hcourse, hattends⟩ := sweep_course horder hrun
  rw [hstage] at hcourse
  cases hcourse with
  | complete hjudged hcleared =>
    have hagrees := horder.agrees
    have hturns : turnsOf Sweep.removals? e.strides =
        deadAmong (c.registry s).members (sweepAccount e) :=
      (List.append_nil _).symm.trans hcleared.turns
    have hverdict (m : Member) (hm : m ∈ (c.registry s).members) :
        ∃ v, (sweepAccount e m.handle).verdicts = [v] ∧
          (sweepAccount e m.handle).received = v.frames Event.heartbeat := by
      obtain ⟨v, hreceived, hverdicts, _⟩ := hjudged m hm
      exact ⟨v, hverdicts, hreceived⟩
    constructor
    case judged => exact hverdict
    case examined => exact fun _ _ _ => foundDead_mem_verdicts
    case evicted => exact fun _ => hturns ▸ mem_deadAmong
    case once =>
      rw [hturns, deadAmong]
      exact nodup_names hagrees (hagrees.nodup_members.filter _) fun m hm =>
        (List.mem_filter.mp hm).1
    case count => rw [hturns]
    case registry => exact fun t ht => (hattends t ht).registry
    case removed => exact registry_of_turns hrun fun t ht => (hattends t ht).registry
    case others => exact fun t ht => (hattends t ht).untouched
    case accepted =>
      intro hcancelled m hm hwelcomes
      obtain ⟨v, hverdicts, hreceived⟩ := hverdict m hm
      obtain ⟨t, ht, hmem⟩ := mem_verdicts.mp (hverdicts ▸ List.mem_singleton_self v)
      rw [hrun.not_cancelled hcancelled t ht] at hmem
      rw [hreceived, eq_ok_of_welcomes (hwelcomes t ht) hmem]
      rfl
    case kept =>
      intro m hm err hmem hcancelled
      obtain ⟨v, hverdicts, _⟩ := hverdict m hm
      rw [hverdicts, List.mem_singleton] at hmem
      subst hmem
      have hnot := hturns ▸ not_mem_deadAmong hagrees hm hcancelled hverdicts
      refine ⟨fun t ht => ?_, fun hlive hothers => ?_⟩
      · rw [(hattends t ht).registry]
        exact find?_afterTurn fun hturn => hnot (List.mem_filterMap.mpr ⟨t, ht, hturn⟩)
      · refine isLive_of_unharmed hrun hattends hlive (fun err' hmem => ?_) hothers
        rw [show accountOf Sweep.verdicts e.strides m.handle = sweepAccount e m.handle from rfl,
          hverdicts, List.mem_singleton] at hmem
        cases hmem
        exact hcancelled

/-! ## How a sweep comes to its end -/

theorem stepSend_cancelled (c : Cluster) (x : Send) : ∃ r, (c.stepSend true x).2 = .done r := by
  have hconnection (y : Connection) :
      ∃ r, (y.stepSend c.now true x.frame x.state).2 = .done r := by
    cases x.state with
    | fresh =>
      rw [Connection.stepSend]
      split <;> exact ⟨_, rfl⟩
    | writing w => exact ⟨_, rfl⟩
  cases hx : c.connection? x.handle with
  | none => exact ⟨_, congrArg Prod.snd (stepSend_none hx true)⟩
  | some y =>
    obtain ⟨r, hr⟩ := hconnection y
    rw [stepSend_some hx, hr]
    exact ⟨r, rfl⟩

/-- No heartbeat has still to find out whether its connection is live. -/
def AllExamined (beats : List Beat) : Prop := ∀ b ∈ beats, ∀ m, b ≠ .fresh m

theorem allExamined_stepBeats (c : Cluster) (cancelled : Bool) (beats : List Beat) :
    AllExamined (c.stepBeats cancelled beats).2.1 := by
  rw [stepBeats_eq]
  refine pollAll_entries (P := fun _ => True) (fun c b _ => ?_) (fun _ _ => trivial) c
  show ∀ m, (c.stepBeat cancelled b).2.1 ≠ .fresh m
  intro m
  cases b with
  | fresh m' =>
    rw [stepBeat_fresh]
    cases c.isLive m'.handle <;> exact Beat.noConfusion
  | sending m' x =>
    rw [stepBeat_sending]
    cases (c.stepSend cancelled x).2 <;> exact Beat.noConfusion
  | ended m' dead => exact Beat.noConfusion

/-- A cancelled token ends the heartbeats that are under way. -/
theorem all_ended_of_cancelled (hexamined : AllExamined beats) (c : Cluster) :
    (c.stepBeats true beats).2.1.all Beat.isEnded = true := by
  rw [stepBeats_eq, List.all_eq_true]
  refine pollAll_entries (P := fun b : Beat => ∀ m, b ≠ .fresh m) (fun c b hb => ?_) hexamined c
  show (c.stepBeat true b).2.1.isEnded = true
  cases b with
  | fresh m => exact absurd rfl (hb m)
  | sending m x =>
    obtain ⟨r, hr⟩ := stepSend_cancelled c x
    rw [stepBeat_sending, hr]
    rfl
  | ended m dead => rfl

theorem all_ended_of_verdicts {account : Nat → Account}
    (hholds : beatKind.Holds c account ms beats)
    (hverdicts : ∀ m ∈ ms, (account m.handle).verdicts ≠ []) :
    beats.all Beat.isEnded = true := by
  induction hholds with
  | nil => rfl
  | cons hshows _ ih =>
    obtain ⟨st, hshows, hfits⟩ := hshows
    rw [List.all_cons, ih fun m hm => hverdicts m (List.mem_cons_of_mem _ hm), Bool.and_true]
    cases hshows with
    | fresh => exact absurd hfits.2.1 (hverdicts _ List.mem_cons_self)
    | sending x => exact absurd hfits.2.1 (hverdicts _ List.mem_cons_self)
    | ended v => rfl

theorem all_ended_of_ended (hended : beats.all Beat.isEnded = true) (c : Cluster)
    (cancelled : Bool) : (c.stepBeats cancelled beats).2.1.all Beat.isEnded = true := by
  rw [List.all_eq_true] at hended
  rw [stepBeats_eq, List.all_eq_true]
  refine pollAll_entries (P := fun b => b.isEnded = true) (fun c b hb => ?_) hended c
  cases b with
  | fresh m => cases hb
  | sending m x => cases hb
  | ended m dead => rfl

theorem ends_of_evicting (hcontinues : Continues s server c₀ e.world) {count : Nat} {r : Removals}
    (hstage : e.stage = .inl (.evicting count r)) :
    ∃ e', Errand.Run (sweep s) Tick e e' ∧ ∃ n, e'.stage = .inr n := by
  obtain ⟨server', hserver', _⟩ := hcontinues.exists_server
  obtain ⟨e', hrun, hend⟩ :=
    (clears_sweep s count).finishes (by rw [hserver', Option.isSome_some]) hstage
  exact ⟨e', hrun, count, hend⟩

/-- A sweep comes to its end if one more look finds that all heartbeats have ended. -/
theorem ends_of_ended (hcontinues : Continues s server c₀ e.world)
    (hstage : e.stage = .inl (.beating beats))
    (hended : (e.world.stepBeats e.cancelled beats).2.1.all Beat.isEnded = true) :
    ∃ e', Errand.Run (sweep s) Tick e e' ∧ ∃ n, e'.stage = .inr n := by
  have hstep := stepSweep_beating e.world e.cancelled s beats
  rw [Sweep.afterLook, if_pos hended] at hstep
  have hstage' : (e.stride (sweep s) (.beating beats)).stage =
      .inl (.evicting (deadOf (e.world.stepBeats e.cancelled beats).2.1).length
        ⟨none, deadOf (e.world.stepBeats e.cancelled beats).2.1⟩) := by
    rw [Errand.stage_stride, sweep, hstep]
    rfl
  obtain ⟨e', hrun, hend⟩ := ends_of_evicting (e := e.stride (sweep s) (.beating beats))
    (hcontinues.amid (amid_sweep _ _ _)) hstage'
  exact ⟨e', .head (.stride e _ hstage) hrun, hend⟩

/-- A cancelled token ends the heartbeats within two looks: what has still to be examined is under
way after the first one. -/
theorem ends_of_cancelled (hcontinues : Continues s server c₀ e.world)
    (hnodup : (ms.map (·.handle)).Nodup)
    (hholds : beatKind.Holds e.world (sweepAccount e) ms beats)
    (hstage : e.stage = .inl (.beating beats)) (hcancelled : e.cancelled = true) :
    ∃ e', Errand.Run (sweep s) Tick e e' ∧ ∃ n, e'.stage = .inr n := by
  have hexamined := allExamined_stepBeats e.world e.cancelled beats
  have hstays := (lawful_beatKind.round e.cancelled hcontinues.tidy hnodup hholds).stays
  rw [show pollAll (beatKind.poll e.cancelled) e.world beats = e.world.stepBeats e.cancelled beats
    from (stepBeats_eq e.cancelled beats e.world).symm] at hstays
  have hcontinues' : Continues s server c₀ (e.stride (sweep s) (.beating beats)).world :=
    hcontinues.amid (amid_sweep _ _ _)
  have hstage' : (e.stride (sweep s) (.beating beats)).stage =
      (Sweep.afterLook (e.world.stepBeats e.cancelled beats)).stage (.beating beats) := by
    rw [Errand.stage_stride, sweep, stepSweep_beating]
  have hunderway {beats' : List Beat} (hexamined : AllExamined beats')
      (hstage : (e.stride (sweep s) (.beating beats)).stage = .inl (.beating beats')) :
      ∃ e', Errand.Run (sweep s) Tick (e.stride (sweep s) (.beating beats)) e' ∧
        ∃ n, e'.stage = .inr n := by
    refine ends_of_ended hcontinues' hstage ?_
    rw [show (e.stride (sweep s) (.beating beats)).cancelled = true from hcancelled]
    exact all_ended_of_cancelled hexamined _
  obtain ⟨e', hrun, hend⟩ : ∃ e', Errand.Run (sweep s) Tick
      (e.stride (sweep s) (.beating beats)) e' ∧ ∃ n, e'.stage = .inr n := by
    rw [Sweep.afterLook] at hstage'
    split at hstage'
    · exact ends_of_evicting hcontinues' hstage'
    · split at hstage'
      · exact hunderway hexamined hstage'
      · next hmoved =>
          exact hunderway (hstays (Bool.eq_false_iff.mpr hmoved) ▸ hexamined) hstage'
  exact ⟨e', .head (.stride e _ hstage) hrun, hend⟩

/-- A sweep whose token is cancelled, and a sweep that has come to a verdict on every member, come
to their end; only the clock has to go on. -/
theorem sweep_ends (horder : InOrder s server c)
    (hrun : Errand.Run (sweep s) (Amid s) (Errand.call (sweep s) c cancelled .fresh) e)
    (hready : e.cancelled = true ∨
      ∀ m ∈ (c.registry s).members, (sweepAccount e m.handle).verdicts ≠ []) :
    ∃ e', Errand.Run (sweep s) Tick e e' ∧ ∃ n, e'.stage = .inr n := by
  have hcontinues := (continues_throughout amid_sweep horder hrun).1
  have hcourse := (sweep_course horder hrun).1
  cases hstage : e.stage with
  | inr n => exact ⟨e, .refl, n, hstage⟩
  | inl w =>
    rw [hstage] at hcourse
    cases hcourse with
    | evicting hjudged hcleared => exact ends_of_evicting hcontinues hstage
    | beating hholds honly =>
      rcases hready with hcancelled | hverdicts
      · exact ends_of_cancelled hcontinues (nodup_targets_of_located horder.toLocated none) hholds
          hstage hcancelled
      · exact ends_of_ended hcontinues hstage
          (all_ended_of_ended (all_ended_of_verdicts hholds hverdicts) _ _)

/-- A sweep removes the connections that it finds dead and those whose heartbeat fails, and nobody
else; their number is its result. Each member gets the heartbeat once at most, and once if it is
live, its writer accepts and the token is not cancelled; one whose heartbeat is cancelled stays
where it is. Whatever the store answers, a sweep that is cancelled, or that has come to a verdict on
every member, comes to its end. -/
theorem sweep_evicts_dead (horder : InOrder s server c)
    (hrun : Errand.Run (sweep s) (Amid s) (Errand.call (sweep s) c cancelled .fresh) e) :
    (∀ n, e.stage = .inr n → Swept s c e n) ∧
    (e.cancelled = true ∨
        (∀ m ∈ (c.registry s).members, (sweepAccount e m.handle).verdicts ≠ []) →
      ∃ e', Errand.Run (sweep s) Tick e e' ∧ ∃ n, e'.stage = .inr n) :=
  ⟨fun _ hstage => swept_of_run horder hrun hstage, sweep_ends horder hrun⟩

end

/-- A sweep of the crowd: the first heartbeat succeeds, the second one fails, the third connection
is dead, and the fourth heartbeat is in line when the token is cancelled. The store takes its time
and refuses to unregister any. -/
def crowdSwept : SweepErrand :=
  Errand.call (sweep 0) crowded false .fresh
  |> Errand.go (sweep 0) 2
  |> goAt (sweep 0) 3 1
  |> Errand.goCancelled (sweep 0) 4
  |> goAt (sweep 0) 13 4
  |> goAt (sweep 0) 23 2

theorem run_crowdSwept : Errand.Run (sweep 0) (Amid 0)
    (Errand.call (sweep 0) crowded false .fresh) crowdSwept :=
  (Errand.run_go 2 _).trans <| (run_goAt (amid_clock 0) 3 1 _).trans <|
    (Errand.run_goCancelled 4 _).trans <|
      (run_goAt (amid_clock 0) 13 4 _).trans (run_goAt (amid_clock 0) 23 2 _)

theorem sweep_evicts_dead_crowded :
    crowdSwept.stage = .inr 2 ∧ Swept 0 crowded crowdSwept 2 ∧
    turnsOf Sweep.removals? crowdSwept.strides = [⟨"b"⟩, ⟨"c"⟩] ∧
    (crowdSwept.world.registry 0).members = [⟨⟨"a"⟩, "x", 0⟩, ⟨⟨"d"⟩, "y", 3⟩] ∧
    crowdSwept.world.held 0 = [Event.heartbeat] ∧ crowdSwept.world.held 1 = [] ∧
    crowdSwept.world.isLive 1 = false ∧ crowdSwept.world.held 3 = [""] ∧
    crowdSwept.world.isLive 3 = true := by
  have hstage : crowdSwept.stage = .inr 2 := rfl
  have hswept := (sweep_evicts_dead inOrder_crowded run_crowdSwept).1 2 hstage
  exact ⟨hstage, hswept, by decide +kernel⟩

end EventHub.Cluster
