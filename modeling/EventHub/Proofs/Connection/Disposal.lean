import EventHub.Proofs.Connection.Ordering
/-!
# After an outbox has been disposed

Nobody joins the line of a disposed outbox, so of the frames only those in line at that moment may
still be accepted, and every call outside the line is turned away. Those in line stay in line: the
first one finishes its frame, and the ones behind it then do so as well. Hence a disposal stops all
calls but the first in line exactly if no other call is in line.
-/

namespace EventHub.Connection.Traffic

open Outbox (Turn)

variable {t t' : Traffic} {capacity : Nat}

def InLine (t : Traffic) (i : Nat) : Prop := ∃ p ∈ t.outbox.turns, t.asked[p.1]? = some i

def holder? (t : Traffic) : Option Nat := t.outbox.line.head?.bind fun x => t.asked[x.id]?

/-- The error says that nothing more can be written, or that the caller cancelled. -/
def TurnedAway (e : Error) : Prop := e.kind = .write .disposed ∨ e.isCancelled

structure Since (t t' : Traffic) : Prop where
  disposed : t'.outbox.disposed = true
  asked_eq : t'.asked = t.asked
  turns_sublist : t'.outbox.turns.Sublist t.outbox.turns
  accepted : ∃ late, framesOf t'.calls t'.asked = framesOf t.calls t.asked ++ late ∧
    (late ++ t'.outbox.turns.map (·.2)).Sublist (t.outbox.turns.map (·.2))
  turned_away : ∀ (i : Nat) (c : Call) (r : Except Error Unit), t'.calls[i]? = some c →
    c.stage = .returned r → t.InLine i ∨ t.calls[i]? = some c ∨
      ∃ e, r = .error e ∧ TurnedAway e

theorem since_refl (hdisposed : t.outbox.disposed = true) : Since t t where
  disposed := hdisposed
  asked_eq := rfl
  turns_sublist := .refl _
  accepted := ⟨[], (List.append_nil _).symm, .refl _⟩
  turned_away _ _ _ hc _ := Or.inr (Or.inl hc)

/-- A call ends, whatever becomes of the queue; the frames accepted are given. -/
theorem since_end {s : Traffic} (hsince : Since t s) {i : Nat} {c d : Call} {o : Outbox}
    (hdisposed : o.disposed = true) (hsub : o.turns.Sublist s.outbox.turns)
    (haccepted : ∃ late, framesOf (s.calls.set i d) s.asked = framesOf s.calls s.asked ++ late ∧
      (late ++ o.turns.map (·.2)).Sublist (s.outbox.turns.map (·.2)))
    (hc : s.calls[i]? = some c)
    (hturned : ∀ r, d.stage = .returned r →
      s.InLine i ∨ ∃ e, r = .error e ∧ TurnedAway e) :
    Since t ((s.setOutbox o).setCall i d) where
  disposed := hdisposed
  asked_eq := hsince.asked_eq
  turns_sublist := hsub.trans hsince.turns_sublist
  accepted := by
    obtain ⟨late, hlate, hlatesub⟩ := hsince.accepted
    obtain ⟨later, hlater, hlatersub⟩ := haccepted
    refine ⟨late ++ later, ?_, ?_⟩
    · rw [calls_setCall, asked_setCall, calls_setOutbox, asked_setOutbox, hlater, hlate,
        List.append_assoc]
    · rw [List.append_assoc]
      exact ((List.Sublist.refl late).append hlatersub).trans hlatesub
  turned_away := by
    intro j e r he hstage
    rw [calls_setCall, calls_setOutbox] at he
    by_cases hij : i = j
    · subst hij
      rw [List.getElem?_set_self (List.getElem?_eq_some_iff.mp hc).1, Option.some.injEq] at he
      rcases hturned r (he ▸ hstage) with ⟨p, hp, hasked⟩ | hrefused
      · exact Or.inl ⟨p, hsince.turns_sublist.subset hp, hsince.asked_eq ▸ hasked⟩
      · exact Or.inr (Or.inr hrefused)
    · rw [List.getElem?_set_ne hij] at he
      exact hsince.turned_away j e r he hstage

/-- An act that leaves the calls and the line alone. -/
theorem since_same {s s' : Traffic} (hsince : Since t s) (hdisposed : s'.outbox.disposed = true)
    (hturns : s'.outbox.turns = s.outbox.turns) (hcalls : s'.calls = s.calls)
    (hasked : s'.asked = s.asked) : Since t s' where
  disposed := hdisposed
  asked_eq := hasked.trans hsince.asked_eq
  turns_sublist := hturns ▸ hsince.turns_sublist
  accepted := by
    rw [hcalls, hasked, hturns]
    exact hsince.accepted
  turned_away := by
    rw [hcalls]
    exact hsince.turned_away

theorem since_call {s : Traffic} (hsince : Since t s) (horderly : s.Orderly capacity)
    (frame : String) (direct : Bool) :
    Since t { s with calls := s.calls ++ [.fresh frame direct] } where
  disposed := hsince.disposed
  asked_eq := hsince.asked_eq
  turns_sublist := hsince.turns_sublist
  accepted := by
    have hframes : framesOf (s.calls ++ [.fresh frame direct]) s.asked =
        framesOf s.calls s.asked := by
      apply framesOf_congr
      intro i hi
      obtain ⟨c, hc, _⟩ := horderly.begun i hi
      rw [List.getElem?_append_left (List.getElem?_eq_some_iff.mp hc).1]
    obtain ⟨late, hlate, hsub⟩ := hsince.accepted
    exact ⟨late, hframes.trans hlate, hsub⟩
  turned_away := by
    intro i c r hc hstage
    rcases of_getElem?_append hc with hc | rfl
    · exact hsince.turned_away i c r hc hstage
    · cases direct <;> simp [Call.fresh] at hstage

/-- A call that has not asked for the outbox ends without an effect on it. -/
theorem since_end_fresh {s : Traffic} (hsince : Since t s) (horderly : s.Orderly capacity)
    {i : Nat} {c d : Call} (hc : s.calls[i]? = some c) (hfresh : c.IsFresh)
    (hfailed : ¬ d.Succeeded)
    (hturned : ∀ r, d.stage = .returned r → ∃ e, r = .error e ∧ TurnedAway e) :
    Since t (s.setCall i d) := by
  rw [← congrArg (·.setCall i d) (setOutbox_outbox horderly.toSound)]
  refine since_end hsince hsince.disposed (.refl _) ⟨[], ?_, .refl _⟩ hc ?_
  · rw [framesOf_fail hc (not_succeeded_of_fresh hfresh) hfailed, List.append_nil]
  · exact fun r hr => Or.inr (hturned r hr)

theorem Orderly.inLine {s : Traffic} (horderly : s.Orderly capacity) {i : Nat} {c : Call}
    (hc : s.calls[i]? = some c) {x : Turn} (hturn : c.turn? = some x.id) {rest : List Turn}
    (hline : s.outbox.line = x :: rest) : s.InLine i := by
  refine ⟨(x.id, x.frame), ?_, horderly.turn i c x.id hc hturn⟩
  rw [Outbox.turns_cons hline]
  exact List.mem_cons_self

theorem since_accept {s : Traffic} (hsince : Since t s) (horderly : s.Orderly capacity) {i : Nat}
    {c : Call} (hc : s.calls[i]? = some c) {x : Turn} (hturn : c.turn? = some x.id)
    {rest : List Turn} (hline : s.outbox.line = x :: rest) :
    Since t ((s.setOutbox
      { s.outbox with line := rest, queue := s.outbox.queue ++ [x.frame] }).setCall i
        { c with stage := .returned (.ok ()) }) := by
  have hturns := Outbox.turns_cons hline
  refine since_end hsince hsince.disposed ?_ ⟨[x.frame], ?_, ?_⟩ hc ?_
  · rw [hturns]
    exact List.sublist_cons_self _ _
  · exact framesOf_accept horderly hc hturn hline
  · rw [hturns]
    exact .refl _
  · exact fun r _ => Or.inl (horderly.inLine hc hturn hline)

theorem since_fail {s : Traffic} (hsince : Since t s) (horderly : s.Orderly capacity) {i : Nat}
    {c : Call} (hc : s.calls[i]? = some c) {x : Turn} (hturn : c.turn? = some x.id)
    {rest : List Turn} (hline : s.outbox.line = x :: rest) (e : Error) :
    Since t ((s.setOutbox { s.outbox with line := rest }).setCall i
      { c with stage := .returned (.error e) }) := by
  have hsub : Outbox.turns { s.outbox with line := rest } |>.Sublist s.outbox.turns := by
    rw [Outbox.turns_cons hline]
    exact List.sublist_cons_self _ _
  refine since_end hsince hsince.disposed hsub ⟨[], ?_, hsub.map _⟩ hc ?_
  · rw [framesOf_fail hc (not_succeeded_of_turn hturn) (by simp [Call.Succeeded]),
      List.append_nil]
  · exact fun r _ => Or.inl (horderly.inLine hc hturn hline)

theorem since_leave {s : Traffic} (hsince : Since t s) {i : Nat} {c : Call}
    (hc : s.calls[i]? = some c) {id : Nat} (hturn : c.turn? = some id) {stage : Stage}
    (hstage : stage = .dropped ∨ stage = .returned (.error .cancelled)) :
    Since t ((s.setOutbox (s.outbox.abandon id)).setCall i { c with stage := stage }) := by
  have hsub : (s.outbox.abandon id).turns.Sublist s.outbox.turns := by
    rw [turns_abandon]
    exact List.filter_sublist
  refine since_end hsince hsince.disposed hsub ⟨[], ?_, hsub.map _⟩ hc ?_
  · rw [framesOf_fail hc (not_succeeded_of_turn hturn) ?_, List.append_nil]
    rcases hstage with rfl | rfl <;> simp [Call.Succeeded]
  · intro r hr
    rcases hstage with rfl | rfl
    · simp at hr
    · rw [← Stage.returned.inj hr]
      exact Or.inr ⟨_, rfl, Or.inr rfl⟩

theorem Act.since {s s' : Traffic} (hact : Act s s') (hsince : Since t s)
    (horderly : s.Orderly capacity) : Since t s' := by
  cases hact with
  | call frame direct => exact since_call hsince horderly frame direct
  | enter i c hc hfresh hopen =>
    rw [hsince.disposed] at hopen
    simp at hopen
  | refuse i c hc hfresh e he =>
    apply since_end_fresh hsince horderly hc hfresh (by simp [Call.Succeeded])
    intro r hr
    exact ⟨e, (Stage.returned.inj hr).symm, he.symm.imp_left And.left⟩
  | wait line hturns => exact since_same hsince hsince.disposed hturns rfl rfl
  | accept i c hc x hturn rest hline _ => exact since_accept hsince horderly hc hturn hline
  | fail i c hc x hturn rest hline e => exact since_fail hsince horderly hc hturn hline e
  | leave i c hc id hturn stage hstage => exact since_leave hsince hc hturn hstage
  | forget i c hc hfresh =>
    exact since_end_fresh hsince horderly hc hfresh (by simp [Call.Succeeded]) (by simp)
  | dispose closing =>
    have houtbox := outbox_dispose horderly.toSound closing
    refine since_same hsince ?_ ?_ rfl rfl <;> rw [houtbox] <;> rfl
  | markDead => exact since_same hsince hsince.disposed rfl rfl rfl
  | receive =>
    rcases hqueue : s.outbox.queue with _ | ⟨f, rest⟩
    · rw [receive_nil horderly.toSound hqueue]
      exact hsince
    · rw [receive_cons hqueue]
      exact since_same hsince hsince.disposed rfl rfl rfl
  | dropReceiver => exact since_same hsince hsince.disposed rfl rfl rfl
  | clock time => exact since_same hsince hsince.disposed rfl rfl rfl

theorem Acts.since {s s' : Traffic} (hacts : Acts s s') (hsince : Since t s)
    (horderly : s.Orderly capacity) : Since t s' := by
  induction hacts with
  | refl => exact hsince
  | tail hacts hact ih => exact hact.since ih (Acts.orderly hacts horderly)

theorem Run.orderly (hrun : Run t t') (horderly : t.Orderly capacity) : t'.Orderly capacity := by
  induction hrun with
  | refl => exact horderly
  | tail _ hstep ih => exact Acts.orderly (hstep.acts ih.toSound) ih

theorem Run.since (hrun : Run t t') (horderly : t.Orderly capacity)
    (hdisposed : t.outbox.disposed = true) : Since t t' := by
  induction hrun with
  | refl => exact since_refl hdisposed
  | tail hrun hstep ih =>
    have horderly := Run.orderly hrun horderly
    exact Acts.since (hstep.acts horderly.toSound) ih horderly

/-! ## Those behind the first in line -/

/-- The stream can take all frames that wait. -/
theorem exists_drained (horderly : t.Orderly capacity) : ∃ t', Run t t' ∧
    t'.connection.writer = .outbox { t.outbox with queue := [] } ∧ t'.calls = t.calls := by
  obtain ⟨queue, hqueue⟩ : ∃ queue, t.outbox.queue = queue := ⟨_, rfl⟩
  induction queue generalizing t with
  | nil =>
    obtain ⟨o, hwriter⟩ := horderly.writer
    have ho := outbox_eq hwriter
    refine ⟨t, .refl, ?_, rfl⟩
    rw [hwriter, ← hqueue, ho]
  | cons f rest ih =>
    have hreceive := receive_cons hqueue
    obtain ⟨t', hrun, hwriter, hcalls⟩ := ih (orderly_receive horderly) (by rw [hreceive]; rfl)
    refine ⟨t', .head (.receive t) hrun, ?_, ?_⟩
    · rw [hwriter, hreceive]
      rfl
    · rw [hcalls, hreceive]
      rfl

/-- After a disposal nothing but the call that holds the outbox gets anywhere: whatever happens,
every other call that has not returned yet is turned away. -/
def OnlyHolder (t : Traffic) : Prop :=
  ∀ t', Run t t' → ∀ (i : Nat) (c : Call) (r : Except Error Unit), t'.calls[i]? = some c →
    c.stage = .returned r → t.holder? ≠ some i →
    t.calls[i]? = some c ∨ ∃ e, r = .error e ∧ TurnedAway e

theorem onlyHolder_of_line (horderly : t.Orderly capacity)
    (hdisposed : t.outbox.disposed = true) (hline : t.outbox.line.length ≤ 1) :
    t.OnlyHolder := by
  intro t' hrun i c r hc hstage hholder
  rcases (Run.since hrun horderly hdisposed).turned_away i c r hc hstage with
    ⟨p, hp, hasked⟩ | hturned
  · exfalso
    rcases hl : t.outbox.line with _ | ⟨x, _ | ⟨y, rest⟩⟩
    · simp [Outbox.turns, hl] at hp
    · rw [Outbox.turns_cons hl] at hp
      rw [List.mem_singleton.mp hp] at hasked
      exact hholder (by simp only [holder?, hl, List.head?_cons, Option.bind_some, hasked])
    · simp [hl] at hline
  · exact hturned

theorem Orderly.holder_second (horderly : t.Orderly capacity) {x y : Turn} {rest : List Turn}
    (hline : t.outbox.line = x :: y :: rest) :
    ∃ (i j : Nat) (c d : Call), t.holder? = some i ∧ i ≠ j ∧ t.calls[i]? = some c ∧
      c.turn? = some x.id ∧ t.calls[j]? = some d ∧ d.turn? = some y.id := by
  have hturns := Outbox.turns_cons hline
  obtain ⟨i, c, hi, hc, hcturn, _⟩ := horderly.holder (x.id, x.frame) (by simp [hturns])
  obtain ⟨j, d, hj, hd, hdturn, _⟩ := horderly.holder (y.id, y.frame) (by simp [hturns])
  refine ⟨i, j, c, d, ?_, ?_, hc, hcturn, hd, hdturn⟩
  · simp only [holder?, hline, List.head?_cons, Option.bind_some]
    exact hi
  · rintro rfl
    rw [hc, Option.some.injEq] at hd
    rw [← hd, hcturn, Option.some.injEq] at hdturn
    have := horderly.first_lt hline (y.id, y.frame) (by simp)
    omega

theorem line_abandon_first (horderly : t.Orderly capacity) {x : Turn} {rest : List Turn}
    (hline : t.outbox.line = x :: rest) : (t.outbox.abandon x.id).line = rest := by
  have hbehind : rest.filter (fun y => y.id ≠ x.id) = rest := by
    apply List.filter_eq_self.mpr
    intro y hy
    have := horderly.first_lt hline (y.id, y.frame) (List.mem_map_of_mem hy)
    simpa using Nat.ne_of_gt this
  simp only [Outbox.abandon, hline]
  rw [List.filter_cons_of_neg (by simp), hbehind]

theorem poll_first (horderly : t.Orderly capacity) (hcapacity : 0 < capacity)
    (hqueue : t.outbox.queue = []) {x : Turn} {rest : List Turn} (hline : t.outbox.line = x :: rest)
    (i : Nat) {c : Call} (hturn : c.turn? = some x.id) :
    ∃ r, (t.poll i false c).calls = t.calls.set i { c with stage := .returned r } ∧
      (r = .ok () ∨ r = .error Outbox.closedError) := by
  obtain ⟨o, hwriter⟩ := horderly.writer
  have ho := outbox_eq hwriter
  obtain ⟨finishing, hpoll⟩ := poll_turn hwriter false
    ((turn_eq_some hturn).imp_left fun hstage => ⟨hstage, rfl⟩)
  have hcalls : (t.poll i false c).calls =
      t.calls.set i (c.poll t.connection t.now false).2 := rfl
  have hsender := shut_of_nonempty horderly hline
  rw [ho] at hline hqueue hsender
  cases hreceiver : o.receiverGone with
  | true =>
    refine ⟨.error Outbox.closedError, ?_, Or.inr rfl⟩
    rw [hcalls, hpoll, Outbox.resume_first_closed t.now hline hsender hreceiver]
  | false =>
    have hroom : o.queue.length < o.capacity := by
      rw [hqueue, ← ho, horderly.capacity_eq]
      exact hcapacity
    refine ⟨.ok (), ?_, Or.inl rfl⟩
    rw [hcalls, hpoll, Outbox.resume_first t.now hline hsender hreceiver hroom]

theorem outbox_drop (horderly : t.Orderly capacity) (i : Nat) {c : Call} {id : Nat}
    (hturn : c.turn? = some id) : (t.drop i c).outbox = t.outbox.abandon id := by
  obtain ⟨o, hwriter⟩ := horderly.writer
  rcases turn_eq_some hturn with hstage | hstage <;>
    simp [drop, Call.drop, hstage, Connection.abandon, Writer.abandon, hwriter, outbox,
      Connection.outbox]

/-- If two calls are in line, the first may leave and the stream take what waits; then the second
one holds the outbox and is not turned away. -/
theorem not_onlyHolder_of_second (horderly : t.Orderly capacity) (hcapacity : 0 < capacity)
    {x y : Turn} {rest : List Turn} (hline : t.outbox.line = x :: y :: rest) :
    ¬ t.OnlyHolder := by
  intro honly
  obtain ⟨i, j, c, d, hholder, hij, hc, hcturn, hd, hdturn⟩ := horderly.holder_second hline
  have hleft : Run t (t.drop i c) := .single (.drop t i c hc)
  have hcalls : (t.drop i c).calls[j]? = some d := by
    have hset : (t.drop i c).calls = t.calls.set i (c.drop t.connection).2 := rfl
    rw [hset, List.getElem?_set_ne hij, hd]
  have houtbox := outbox_drop horderly i hcturn
  obtain ⟨s, hdrained, hswriter, hscalls⟩ := exists_drained (Run.orderly hleft horderly)
  have hsoutbox := outbox_eq hswriter
  have hsline : s.outbox.line = y :: rest := by
    rw [hsoutbox, houtbox]
    exact line_abandon_first horderly hline
  have hsd : s.calls[j]? = some d := by rw [hscalls, hcalls]
  have hrun := hleft.trans hdrained
  obtain ⟨r, hreturned, hr⟩ := poll_first (Run.orderly hrun horderly) hcapacity
    (by rw [hsoutbox]) hsline j hdturn
  have hnotholder : t.holder? ≠ some j := by
    rw [hholder]
    simpa using hij
  have hj : (s.poll j false d).calls[j]? = some { d with stage := .returned r } := by
    rw [hreturned, List.getElem?_set_self (List.getElem?_eq_some_iff.mp hsd).1]
  rcases honly _ (hrun.tail (.poll s j d hsd false)) j _ r hj rfl hnotholder with
    hbefore | ⟨e, he, hturned⟩
  · rw [hd, Option.some.injEq] at hbefore
    rw [hbefore] at hdturn
    simp [Call.turn?] at hdturn
  · rcases hr with rfl | rfl
    · simp at he
    · rw [← Except.error.inj he] at hturned
      rcases hturned with hkind | hcancelled
      · simp [Outbox.closedError, Error.write] at hkind
      · simp [Outbox.closedError, Error.write, Error.isCancelled] at hcancelled

/-- After a disposal no call outside the line returns without an error, and of the frames in line
at that moment some, in their order, are still accepted. Those behind the first one are among them
unless there is none: the first in line is the only call that still gets anywhere exactly if no
other call is in line. -/
theorem onlyHolder_iff {buffer patience : Nat} (hreachable : Reachable buffer patience t)
    (hdisposed : t.outbox.disposed = true) :
    (∀ t', Run t t' →
      (∃ late : List String, late.Sublist (t.outbox.line.map (·.frame)) ∧
        t'.accepted = t.accepted ++ late ∧
        (t'.outbox.receiverGone = false →
          t'.received ++ t'.outbox.queue = t.accepted ++ late)) ∧
      ∀ (i : Nat) (c : Call) (r : Except Error Unit), t'.calls[i]? = some c →
        c.stage = .returned r →
        t.InLine i ∨ t.calls[i]? = some c ∨ ∃ e, r = .error e ∧ TurnedAway e) ∧
    (t.OnlyHolder ↔ t.outbox.line.length ≤ 1) := by
  have horderly := hreachable.orderly
  refine ⟨fun t' hrun => ?_, ?_, onlyHolder_of_line horderly hdisposed⟩
  · have hsince := Run.since hrun horderly hdisposed
    obtain ⟨late, hlate, hsub⟩ := hsince.accepted
    have hframes : t.outbox.turns.map (·.2) = t.outbox.line.map (·.frame) := by
      simp [Outbox.turns]
    refine ⟨⟨late, ?_, hlate, ?_⟩, hsince.turned_away⟩
    · rw [← hframes]
      exact (List.sublist_append_left _ _).trans hsub
    · intro hreceiver
      rw [(Run.orderly hrun horderly).delivered hreceiver, hlate, accepted_eq]
  · intro honly
    rcases hline : t.outbox.line with _ | ⟨x, _ | ⟨y, rest⟩⟩
    · simp
    · simp
    · exact absurd honly (not_onlyHolder_of_second horderly (by omega) hline)

theorem onlyHolder_iff_crowded :
    ∃ t : Traffic, Reachable 1 5000 t ∧ t.outbox.disposed = true ∧
    t.outbox.line.length = 2 ∧ ¬ t.OnlyHolder := by
  have hreachable := reachable_crowded.step (.dispose _ false)
  refine ⟨_, hreachable, rfl, rfl, fun honly => ?_⟩
  exact absurd ((onlyHolder_iff hreachable rfl).2.mp honly) (by decide)

/-- A call that waited behind the first in line puts its frame into the queue after the disposal. -/
theorem accepted_after_dispose : ∃ t : Traffic, Run (crowded.dispose false) t ∧
    (crowded.dispose false).holder? = some 1 ∧
    t.calls[2]? = some ⟨"b", .returned (.ok ())⟩ ∧ t.outbox.queue = ["b"] := by
  have hfirst := (Relation.ReflTransGen.single (Step.receive (crowded.dispose false))).tail
    (.poll _ 1 _ rfl false)
  have hsecond := (hfirst.tail (.receive _)).tail (.poll _ 2 _ rfl false)
  exact ⟨_, hsecond, rfl, rfl, rfl⟩

end EventHub.Connection.Traffic
