import EventHub.Proofs.Connection.Accepting
import EventHub.Proofs.Connection.Disposal
import EventHub.Proofs.Connection.Fading
/-!
# What a send does to its connection

A send that fails closes its connection, and a connection that is dead stays so. A send that is
cancelled, or still under way, has done nothing to the connection but take a place in its line, and
one that finds the connection dead has not even done that.
-/

namespace EventHub.Connection.Traffic

open Outbox (Turn)

variable {s t t' : Traffic} {capacity : Nat} {i : Nat} {c : Call}

/-! ## Calls that have returned -/

theorem calls_poll (t : Traffic) (i : Nat) (cancelled : Bool) (c : Call) :
    (t.poll i cancelled c).calls = t.calls.set i (c.poll t.connection t.now cancelled).2 := rfl

theorem calls_poll_self (hc : t.calls[i]? = some c) (cancelled : Bool) :
    (t.poll i cancelled c).calls[i]? = some (c.poll t.connection t.now cancelled).2 := by
  rw [calls_poll, List.getElem?_set_self (List.getElem?_eq_some_iff.mp hc).1]

theorem Step.call_eq (hstep : Step t t') (hc : t.calls[i]? = some c) :
    t'.calls[i]? = some c ∨ (∃ cancelled, t' = t.poll i cancelled c) ∨ t' = t.drop i c := by
  cases hstep with
  | call frame direct =>
    exact .inl ((List.getElem?_append_left (List.getElem?_eq_some_iff.mp hc).1).trans hc)
  | poll j d hd cancelled =>
    by_cases hij : j = i
    · subst hij
      rw [hd, Option.some.injEq] at hc
      exact .inr (.inl ⟨cancelled, by rw [hc]⟩)
    · exact .inl ((List.getElem?_set_ne hij).trans hc)
  | drop j d hd =>
    by_cases hij : j = i
    · subst hij
      rw [hd, Option.some.injEq] at hc
      exact .inr (.inr (by rw [hc]))
    · exact .inl ((List.getElem?_set_ne hij).trans hc)
  | receive =>
    left
    unfold Traffic.receive
    split <;> exact hc
  | dispose | markDead | dropReceiver | wait => exact .inl hc

theorem calls_drop_self (hc : t.calls[i]? = some c) :
    (t.drop i c).calls[i]? = some (c.drop t.connection).2 := by
  have hcalls : (t.drop i c).calls = t.calls.set i (c.drop t.connection).2 := rfl
  rw [hcalls, List.getElem?_set_self (List.getElem?_eq_some_iff.mp hc).1]

theorem Run.returned (hrun : Run t t') (hc : t.calls[i]? = some c) {r : Except Error Unit}
    (hreturned : c.stage = .returned r) : t'.calls[i]? = some c := by
  induction hrun with
  | refl => exact hc
  | tail _ hstep ih =>
    rcases hstep.call_eq ih with hsame | ⟨cancelled, rfl⟩ | rfl
    · exact hsame
    · rw [calls_poll_self ih, Call.poll, hreturned]
    · rw [calls_drop_self ih, Call.drop, hreturned]

theorem Run.lasts (hrun : Run t t') (horderly : t.Orderly capacity) : Lasts t t' := by
  induction hrun with
  | refl => exact .refl t
  | tail hrun hstep ih =>
    have horderly := Run.orderly hrun horderly
    exact ih.trans ((hstep.acts horderly.toSound).lasts horderly)

/-! ## Calls that begin -/

/-- A fresh call that has to wait. -/
theorem poll_enter {cancelled : Bool} (hasks : t.PollAsks cancelled c) (i : Nat) {o : Outbox}
    (hresume : (t.outbox.enter c.frame).resume t.now t.outbox.nextTurn = (o, none)) :
    t.poll i cancelled c = (t.enter i c).setOutbox o := by
  obtain ⟨_, finishing, hpoll⟩ := hasks
  have hlt := nextTurn_lt_resume t.outbox t.now c.frame
  rw [hresume] at hpoll hlt
  rw [poll_asks hpoll hlt]
  rfl

/-- A fresh call that is polled stands in line, or it has returned; one that is cancelled has done
nothing else. -/
theorem poll_begins (hsound : t.Sound) (hfresh : c.IsFresh) (i : Nat) (cancelled : Bool) :
    (∃ o, (t.outbox.enter c.frame).resume t.now t.outbox.nextTurn = (o, none) ∧
      t.poll i cancelled c = (t.enter i c).setOutbox o) ∨
    ∃ r, (c.poll t.connection t.now cancelled).2 = { c with stage := .returned r } ∧
      ((∃ e, r = .error e ∧ e.isCancelled = true) →
        t.poll i cancelled c = t.setCall i { c with stage := .returned r }) := by
  rcases poll_fresh_cases hsound hfresh cancelled with
    ⟨e, finishing, _, hfinishing, hpoll⟩ | hasks
  · refine .inr ⟨.error e, by rw [hpoll], ?_⟩
    rintro ⟨e', he, hcancelled⟩
    cases he
    obtain rfl := hfinishing hcancelled
    rw [poll_keeps hpoll rfl]
    rfl
  · rcases hresume : (t.outbox.enter c.frame).resume t.now t.outbox.nextTurn with ⟨o, _ | r⟩
    · exact .inl ⟨o, rfl, poll_enter hasks i hresume⟩
    · obtain ⟨_, finishing, hpoll⟩ := hasks
      have hresumed := Outbox.resume_resumed (t.outbox.enter c.frame) t.now t.outbox.nextTurn
      rw [hresume] at hpoll hresumed
      refine .inr ⟨r, by rw [hpoll], ?_⟩
      -- what ends a turn is never taken for a cancellation
      rintro ⟨e, rfl, hcancelled⟩
      rw [hresumed.not_cancelled] at hcancelled
      cases hcancelled

/-! ## Sends that fail -/

def Failed (t : Traffic) (e : Error) : Prop :=
  t.connection.live = false ∧ (e ≠ notLiveError → t.outbox.disposed = true)

theorem Lasts.failed (hlasts : Lasts t t') {e : Error} (hfailed : t.Failed e) : t'.Failed e :=
  ⟨hlasts.dead hfailed.1, fun he => hlasts.disposed (hfailed.2 he)⟩

/-- The send is under way, or has been given up, or has left the connection as it should. -/
def IsSend (t : Traffic) (i : Nat) : Prop :=
  ∃ c, t.calls[i]? = some c ∧ ((∃ x, c.stage = .send x) ∨ c.stage = .dropped ∨
    ∃ r, c.stage = .returned r ∧ ∀ e, r = .error e → e.isCancelled = false → t.Failed e)

theorem isSend_poll (horderly : t.Orderly capacity) (hc : t.calls[i]? = some c) {x : Sending}
    (hstage : c.stage = .send x) (cancelled : Bool) : IsSend (t.poll i cancelled c) i := by
  refine ⟨_, calls_poll_self hc cancelled, ?_⟩
  obtain ⟨o, hwriter⟩ :=
    (Acts.orderly (acts_poll horderly.toSound hc cancelled) horderly).writer
  have hconnection : (t.poll i cancelled c).connection =
      (t.connection.stepSend t.now cancelled c.frame x).1 := by
    simp only [poll, Call.poll, hstage]
    split <;> next h => simp [h]
  have hfailed {e : Error}
      (herror : (t.connection.stepSend t.now cancelled c.frame x).2 = .done (.error e))
      (hcancelled : e.isCancelled = false) : Failed (t.poll i cancelled c) e := by
    rcases closed_of_stepSend herror hcancelled with ⟨hdead, rfl, hsame⟩ | ⟨w, hclosed⟩
    · exact ⟨by rw [hconnection, hsame, hdead], fun h => absurd rfl h⟩
    · rw [hclosed] at hconnection
      refine ⟨by rw [hconnection]; rfl, fun _ => ?_⟩
      rw [hconnection] at hwriter
      rw [outbox, hconnection]
      cases w with
      | outbox o => rfl
      | recorder r => cases hwriter
  generalize hsend : t.connection.stepSend t.now cancelled c.frame x = p at hfailed
  obtain ⟨y, _ | x' | r⟩ := p
  · exact .inl ⟨x, by simp [Call.poll, hstage, hsend]⟩
  · exact .inl ⟨x', by simp [Call.poll, hstage, hsend]⟩
  · refine .inr (.inr ⟨r, by simp [Call.poll, hstage, hsend], ?_⟩)
    rintro e rfl hcancelled
    exact hfailed rfl hcancelled

theorem Step.isSend (hstep : Step t t') (horderly : t.Orderly capacity) (hsend : t.IsSend i) :
    t'.IsSend i := by
  have hlasts : Lasts t t' := (hstep.acts horderly.toSound).lasts horderly
  obtain ⟨c, hc, hstage⟩ := hsend
  have hkept (hstage : c.stage = .dropped ∨ ∃ r, c.stage = .returned r ∧
      ∀ e, r = .error e → e.isCancelled = false → t.Failed e)
    (hsame : t'.calls[i]? = some c) :
      t'.IsSend i := by
    refine ⟨c, hsame, .inr (hstage.imp_right ?_)⟩
    rintro ⟨r, hr, hleft⟩
    exact ⟨r, hr, fun e he hcancelled => hlasts.failed (hleft e he hcancelled)⟩
  rcases hstage with ⟨x, hx⟩ | hended
  · rcases hstep.call_eq hc with hsame | ⟨cancelled, rfl⟩ | rfl
    · exact ⟨c, hsame, .inl ⟨x, hx⟩⟩
    · exact isSend_poll horderly hc hx cancelled
    · exact ⟨_, calls_drop_self hc, .inr (.inl (by rw [Call.drop, hx]))⟩
  · refine hkept hended ?_
    rcases hstep.call_eq hc with hsame | ⟨cancelled, rfl⟩ | rfl
    · exact hsame
    · rcases hended with hstage | ⟨r, hstage, _⟩ <;> rw [calls_poll_self hc, Call.poll, hstage]
    · rcases hended with hstage | ⟨r, hstage, _⟩ <;> rw [calls_drop_self hc, Call.drop, hstage]

theorem Run.isSend (hrun : Run t t') (horderly : t.Orderly capacity) (hsend : t.IsSend i) :
    t'.IsSend i := by
  induction hrun with
  | refl => exact hsend
  | tail hrun hstep ih => exact hstep.isSend (Run.orderly hrun horderly) ih

/-! ## Sends that are cancelled -/

def others (t : Traffic) (i : Nat) : List Turn :=
  t.outbox.line.filter fun x => t.asked[x.id]? ≠ some i

/-- A call has changed nothing of the connection but its own place in line. -/
structure Untouched (t t' : Traffic) (i : Nat) : Prop where
  live : t'.connection.live = t.connection.live
  outbox : t'.outbox =
    { t.outbox with line := t'.outbox.line, nextTurn := t'.outbox.nextTurn }
  others : t'.others i = t.others i

theorem untouched_of_same (hconnection : t'.connection = t.connection) (hasked : t'.asked = t.asked)
    (i : Nat) : Untouched t t' i := by
  have houtbox : t'.outbox = t.outbox := congrArg Connection.outbox hconnection
  exact ⟨by rw [hconnection], by rw [houtbox], by rw [others, others, houtbox, hasked]⟩

theorem others_deadline {o : Outbox} {x : Turn} {rest : List Turn}
    (hline : t.outbox.line = x :: rest) (hown : t.asked[x.id]? = some i) (deadline : Option Nat)
    (hline' : o.line = { x with deadline := deadline } :: rest) :
    (t.setOutbox o).others i = t.others i := by
  rw [others, others, outbox_setOutbox, asked_setOutbox, hline, hline',
    List.filter_cons_of_neg (by simp [hown]), List.filter_cons_of_neg (by simp [hown])]

theorem untouched_waits {o : Outbox} {id : Nat} (hown : t.asked[id]? = some i)
    (hresume : t.outbox.resume t.now id = (o, none)) : Untouched t (t.setOutbox o) i := by
  rcases Outbox.resume_waits hresume with ⟨rfl, _⟩ | ⟨x, rest, hline, rfl, _, _, _, rfl⟩
  · exact ⟨rfl, rfl, rfl⟩
  · exact ⟨rfl, rfl, others_deadline hline hown _ rfl⟩

theorem untouched_enter (horderly : t.Orderly capacity) (i : Nat) (c : Call) :
    Untouched t (t.enter i c) i := by
  refine ⟨rfl, rfl, ?_⟩
  have hnew : (t.asked ++ [i])[t.outbox.nextTurn]? = some i := horderly.asked_nextTurn i c
  have hline : (t.enter i c).outbox.line =
      t.outbox.line ++ [⟨t.outbox.nextTurn, c.frame, none⟩] :=
    rfl
  rw [others, others, hline, asked_enter, List.filter_append,
    List.filter_cons_of_neg (by simp [hnew]), List.filter_nil, List.append_nil]
  refine List.filter_congr fun x hx => ?_
  have hlt : x.id < t.asked.length :=
    horderly.asked_length ▸ horderly.turn_lt (List.mem_map_of_mem hx)
  rw [List.getElem?_append_left hlt]

theorem untouched_leave {id : Nat} (hown : t.asked[id]? = some i) :
    Untouched t (t.setOutbox (t.outbox.abandon id)) i := by
  refine ⟨rfl, rfl, ?_⟩
  have hline : (t.outbox.abandon id).line = t.outbox.line.filter fun x => x.id ≠ id := rfl
  rw [others, others, outbox_setOutbox, asked_setOutbox, hline, List.filter_filter]
  refine List.filter_congr fun x _ => ?_
  by_cases hid : x.id = id
  · simp [hid, hown]
  · simp [hid]

theorem Untouched.trans {u : Traffic} (h : Untouched t u i) (h' : Untouched u t' i) :
    Untouched t t' i :=
  ⟨h'.live.trans h.live, by rw [h'.outbox, h.outbox], h'.others.trans h.others⟩

/-- A poll after which the call is still under way, or has been cancelled. -/
def GoesOn (t : Traffic) (cancelled : Bool) (c : Call) : Prop :=
  ∀ r, (c.poll t.connection t.now cancelled).2.stage = .returned r →
    ∃ e, r = .error e ∧ e.isCancelled = true

theorem untouched_poll_fresh (horderly : t.Orderly capacity) (i : Nat) (hfresh : c.IsFresh)
    {cancelled : Bool} (hgoes : t.GoesOn cancelled c) : Untouched t (t.poll i cancelled c) i := by
  rcases poll_begins horderly.toSound hfresh i cancelled with
    ⟨o, hresume, hpoll⟩ | ⟨r, hreturned, hrefused⟩
  · rw [hpoll]
    exact (untouched_enter horderly i c).trans
      (untouched_waits (horderly.asked_nextTurn i c) hresume)
  · rw [hrefused (hgoes r (by rw [hreturned]))]
    exact untouched_of_same (by rfl) (by rfl) i

theorem untouched_poll_turn (horderly : t.Orderly capacity) (hc : t.calls[i]? = some c) {id : Nat}
    (hstage : c.stage = .send (.writing (.turn id))) {cancelled : Bool}
    (hgoes : t.GoesOn cancelled c) : Untouched t (t.poll i cancelled c) i := by
  obtain ⟨o, hwriter⟩ := horderly.writer
  have ho : t.outbox = o := outbox_eq hwriter
  have hown : t.asked[id]? = some i := horderly.turn i c id hc (by simp [Call.turn?, hstage])
  cases cancelled with
  | true =>
    rw [poll_keeps (poll_withdraws hwriter hstage) (by rw [ho]; rfl), ← ho]
    exact (untouched_leave hown).trans (untouched_of_same (by rfl) (by rfl) i)
  | false =>
    obtain ⟨finishing, hpoll⟩ := poll_turn hwriter false (.inl ⟨hstage, rfl⟩)
    have hnext := (Outbox.resume_resumed o t.now id).nextTurn_eq
    rcases hresume : o.resume t.now id with ⟨o', _ | r⟩
    · rw [hresume] at hpoll hnext
      rw [poll_keeps hpoll (by rw [ho]; exact hnext)]
      exact (untouched_waits hown (by rw [ho]; exact hresume)).trans
        (untouched_of_same (by rfl) (by rfl) i)
    · have hresumed := Outbox.resume_resumed o t.now id
      rw [hresume] at hpoll hresumed
      obtain ⟨e, rfl, hcancelled⟩ := hgoes r (by rw [hpoll])
      rw [hresumed.not_cancelled] at hcancelled
      cases hcancelled

/-- A send that goes on, or has been cancelled, has changed nothing but its own place in line. -/
theorem untouched_poll (horderly : t.Orderly capacity) (hc : t.calls[i]? = some c) {x : Sending}
    (hstage : c.stage = .send x) {cancelled : Bool} (hgoes : t.GoesOn cancelled c) :
    Untouched t (t.poll i cancelled c) i := by
  rcases horderly.placed i c hc with hfresh | ⟨id, hturn⟩ | hended
  · exact untouched_poll_fresh horderly i hfresh hgoes
  · refine (turn_eq_some hturn).elim (untouched_poll_turn horderly hc · hgoes) fun hwrite => ?_
    rw [hwrite] at hstage
    cases hstage
  · rcases hended with hended | ⟨r, hended⟩ <;> rw [hended] at hstage <;> cases hstage

/-! ## What comes of a send -/

theorem framesOf_filter {calls : List Call} (asked : List Nat) (hc : calls[i]? = some c)
    (hfailed : ¬ c.Succeeded) :
    framesOf calls (asked.filter (· ≠ i)) = framesOf calls asked := by
  unfold framesOf
  rw [List.filterMap_filter]
  refine List.filterMap_congr fun j _ => ?_
  by_cases hij : j = i
  · simp [hij, hc, acceptedFrame_of_not_succeeded hfailed]
  · simp [hij]

theorem Orderly.not_inLine (horderly : t.Orderly capacity) (hc : t.calls[i]? = some c)
    {r : Except Error Unit} (hreturned : c.stage = .returned r) : ¬ t.InLine i := by
  rintro ⟨p, hp, hasked⟩
  obtain ⟨j, d, hj, hd, hturn, _⟩ := horderly.holder p hp
  rw [hasked, Option.some.injEq] at hj
  subst hj
  rw [hc, Option.some.injEq] at hd
  rw [← hd, Call.turn?, hreturned] at hturn
  cases hturn

/-- A dead connection stays so, and a send that finds it dead fails and leaves it alone. A send
that fails leaves its connection dead, for ever, and the writer disposed. One that has been
cancelled has left the line and put no frame into the queue, and no poll of it has changed anything
but its own place in line. -/
theorem Reachable.send_outcomes {buffer patience : Nat} (hs : Reachable buffer patience s)
    (hrun : Run s t) :
    (s.connection.live = false → t.connection.live = false) ∧
    ∀ (i : Nat) (c : Call) (x : Sending), s.calls[i]? = some c → c.stage = .send x →
      (x = .fresh → s.connection.live = false → ∀ cancelled, s.poll i cancelled c =
        s.setCall i { c with stage := .returned (.error notLiveError) }) ∧
      ∀ (d : Call) (e : Error), t.calls[i]? = some d → d.stage = .returned (.error e) →
        (e.isCancelled = false →
          t.connection.live = false ∧ (e ≠ notLiveError → t.outbox.disposed = true)) ∧
        (e.isCancelled = true → ¬ t.InLine i ∧
          (t.outbox.receiverGone = false →
            t.received ++ t.outbox.queue = framesOf t.calls (t.asked.filter (· ≠ i))) ∧
          ∀ cancelled, Run (s.poll i cancelled c) t →
            Untouched s (s.poll i cancelled c) i) := by
  have horderly := hs.orderly
  have horderly' := Run.orderly hrun horderly
  refine ⟨(Run.lasts hrun horderly).dead, fun i c x hc hstage =>
    ⟨?_, fun d e hd hreturned => ?_⟩⟩
  · rintro rfl hdead cancelled
    have hpoll : c.poll s.connection s.now cancelled =
        (s.connection, { c with stage := .returned (.error notLiveError) }) := by
      simp [Call.poll, hstage, stepSend, hdead]
    rw [poll_keeps hpoll rfl]
    rfl
  · refine ⟨fun hfailed => ?_,
      fun hcancelled => ⟨horderly'.not_inLine hd hreturned, ?_, ?_⟩⟩
    · obtain ⟨d', hd', hsend⟩ := Run.isSend hrun horderly ⟨c, hc, .inl ⟨x, hstage⟩⟩
      rw [hd, Option.some.injEq] at hd'
      rw [← hd', hreturned] at hsend
      rcases hsend with ⟨x, hx⟩ | hx | ⟨r, hr, hleft⟩
      · cases hx
      · cases hx
      · cases hr
        exact hleft e rfl hfailed
    · intro hreceiver
      rw [framesOf_filter t.asked hd (by simp [Call.Succeeded, hreturned])]
      exact horderly'.delivered hreceiver
    · intro cancelled hrest
      refine untouched_poll horderly hc hstage fun r hr => ?_
      have hd' := Run.returned hrest (calls_poll_self hc cancelled) hr
      rw [hd, Option.some.injEq] at hd'
      rw [← hd', hreturned, Stage.returned.injEq] at hr
      exact ⟨e, hr.symm, hcancelled⟩

/-- The second in line waits in vain, or is cancelled while it waits. -/
theorem send_outcomes_crowded : Reachable 1 5000 crowded ∧
    (∃ t, Run crowded t ∧
      t.calls[2]? = some ⟨"b", .returned (.error Outbox.timeoutError)⟩ ∧
      t.connection.live = false ∧ t.outbox.disposed = true) ∧
    ∃ t, Run crowded t ∧ t.calls[2]? = some ⟨"b", .returned (.error .cancelled)⟩ ∧
      ¬ t.InLine 2 ∧ t.received ++ t.outbox.queue = ["full"] ∧ t.connection.live = true := by
  have hwaits : Run crowded { crowded with now := 5000 } := .single (.wait _ 5000 (by decide))
  have hfirst := (hwaits.tail (.poll _ 1 _ rfl false)).tail (.poll _ 2 _ rfl false)
  have hfails := (hfirst.tail (.wait _ 10000 (by decide))).tail (.poll _ 2 _ rfl false)
  have hcancelled : Run crowded _ := .single (.poll crowded 2 _ rfl true)
  have hfailed := ((Reachable.send_outcomes reachable_crowded hfails).2 2 _ _ rfl rfl).2 _ _ rfl rfl
  have hleft :=
    ((Reachable.send_outcomes reachable_crowded hcancelled).2 2 _ _ rfl rfl).2 _ _ rfl rfl
  obtain ⟨hdead, hdisposed⟩ := hfailed.1 rfl
  obtain ⟨hline, hframes, _⟩ := hleft.2 rfl
  exact ⟨reachable_crowded, ⟨_, hfails, rfl, hdead, hdisposed (by decide)⟩,
    _, hcancelled, rfl, hline, hframes rfl, rfl⟩

end EventHub.Connection.Traffic
