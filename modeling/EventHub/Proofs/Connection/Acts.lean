import EventHub.Proofs.Connection.Traffic
/-!
# Acts on a connection

A poll of a call may do several things: it may ask for the outbox, then get on with its turn, and
then close the connection because it failed. `Act` has one rule for each of them, stated through
the line and the queue, and every step is a sequence of acts.
-/

namespace EventHub.Connection.Traffic

open Outbox (Turn)

variable {t : Traffic}

@[simp] theorem outbox_setOutbox (t : Traffic) (o : Outbox) : (t.setOutbox o).outbox = o := rfl

@[simp] theorem calls_setOutbox (t : Traffic) (o : Outbox) : (t.setOutbox o).calls = t.calls := rfl

@[simp] theorem asked_setOutbox (t : Traffic) (o : Outbox) : (t.setOutbox o).asked = t.asked := rfl

@[simp] theorem received_setOutbox (t : Traffic) (o : Outbox) :
    (t.setOutbox o).received = t.received := rfl

@[simp] theorem outbox_setCall (t : Traffic) (i : Nat) (c : Call) :
    (t.setCall i c).outbox = t.outbox := rfl

@[simp] theorem calls_setCall (t : Traffic) (i : Nat) (c : Call) :
    (t.setCall i c).calls = t.calls.set i c := rfl

@[simp] theorem asked_setCall (t : Traffic) (i : Nat) (c : Call) :
    (t.setCall i c).asked = t.asked := rfl

@[simp] theorem received_setCall (t : Traffic) (i : Nat) (c : Call) :
    (t.setCall i c).received = t.received := rfl

def enter (t : Traffic) (i : Nat) (c : Call) : Traffic :=
  { (t.setOutbox (t.outbox.enter c.frame)).setCall i (c.withTurn t.outbox.nextTurn) with
    asked := t.asked ++ [i] }

@[simp] theorem outbox_enter (t : Traffic) (i : Nat) (c : Call) :
    (t.enter i c).outbox = t.outbox.enter c.frame := rfl

@[simp] theorem calls_enter (t : Traffic) (i : Nat) (c : Call) :
    (t.enter i c).calls = t.calls.set i (c.withTurn t.outbox.nextTurn) := rfl

@[simp] theorem asked_enter (t : Traffic) (i : Nat) (c : Call) :
    (t.enter i c).asked = t.asked ++ [i] := rfl

@[simp] theorem received_enter (t : Traffic) (i : Nat) (c : Call) :
    (t.enter i c).received = t.received := rfl

/-- The error of a call that is turned away: its token is cancelled, or nothing more can be
written. -/
def Refused (t : Traffic) (e : Error) : Prop :=
  e.isCancelled ∨
    (e.kind = .write .disposed ∧ (t.connection.live = false ∨ t.outbox.disposed))

inductive Act : Traffic → Traffic → Prop where
  | call (t : Traffic) (frame : String) (direct : Bool) :
      Act t { t with calls := t.calls ++ [.fresh frame direct] }
  | enter (t : Traffic) (i : Nat) (c : Call) (hc : t.calls[i]? = some c) (hfresh : c.IsFresh)
      (hopen : t.outbox.disposed = false) : Act t (t.enter i c)
  | refuse (t : Traffic) (i : Nat) (c : Call) (hc : t.calls[i]? = some c) (hfresh : c.IsFresh)
      (e : Error) (he : t.Refused e) : Act t (t.setCall i { c with stage := .returned (.error e) })
  | wait (t : Traffic) (line : List Turn)
      (hturns : Outbox.turns { t.outbox with line := line } = t.outbox.turns) :
      Act t (t.setOutbox { t.outbox with line := line })
  | accept (t : Traffic) (i : Nat) (c : Call) (hc : t.calls[i]? = some c) (x : Turn)
      (hturn : c.turn? = some x.id) (rest : List Turn) (hline : t.outbox.line = x :: rest)
      (hroom : t.outbox.queue.length < t.outbox.capacity) :
      Act t ((t.setOutbox
        { t.outbox with line := rest, queue := t.outbox.queue ++ [x.frame] }).setCall i
          { c with stage := .returned (.ok ()) })
  | fail (t : Traffic) (i : Nat) (c : Call) (hc : t.calls[i]? = some c) (x : Turn)
      (hturn : c.turn? = some x.id) (rest : List Turn) (hline : t.outbox.line = x :: rest)
      (e : Error) :
      Act t ((t.setOutbox { t.outbox with line := rest }).setCall i
        { c with stage := .returned (.error e) })
  | leave (t : Traffic) (i : Nat) (c : Call) (hc : t.calls[i]? = some c) (id : Nat)
      (hturn : c.turn? = some id) (stage : Stage)
      (hstage : stage = .dropped ∨ stage = .returned (.error .cancelled)) :
      Act t ((t.setOutbox (t.outbox.abandon id)).setCall i { c with stage := stage })
  | forget (t : Traffic) (i : Nat) (c : Call) (hc : t.calls[i]? = some c) (hfresh : c.IsFresh) :
      Act t (t.setCall i { c with stage := .dropped })
  | dispose (t : Traffic) (closing : Bool) : Act t (t.dispose closing)
  | markDead (t : Traffic) : Act t { t with connection := t.connection.markDead }
  | receive (t : Traffic) : Act t t.receive
  | dropReceiver (t : Traffic) : Act t (t.setOutbox t.outbox.dropReceiver)
  | clock (t : Traffic) (time : Nat) : Act t { t with now := time }

def Acts : Traffic → Traffic → Prop := Relation.ReflTransGen Act

theorem Act.acts {t t' : Traffic} (hact : Act t t') : Acts t t' := .single hact

structure Sound (t : Traffic) : Prop where
  writer : ∃ o, t.connection.writer = .outbox o
  placed : ∀ (i : Nat) (c : Call), t.calls[i]? = some c →
    c.IsFresh ∨ (∃ id, c.turn? = some id) ∨ c.Ended

theorem outbox_eq {o : Outbox} (hwriter : t.connection.writer = .outbox o) :
    t.outbox = o := by
  simp [outbox, Connection.outbox, hwriter]

theorem turn_withTurn (c : Call) (id : Nat) : (c.withTurn id).turn? = some id := by
  obtain ⟨frame, stage⟩ := c
  cases stage <;> rfl

theorem frame_withTurn (c : Call) (id : Nat) : (c.withTurn id).frame = c.frame := by
  obtain ⟨frame, stage⟩ := c
  cases stage <;> rfl

theorem writer_dispose {o : Outbox} (hwriter : t.connection.writer = .outbox o)
    (closing : Bool) : (t.dispose closing).connection.writer = .outbox o.dispose := by
  cases closing <;> simp [dispose, Connection.close, hwriter, Writer.dispose]

theorem outbox_dispose (hsound : t.Sound) (closing : Bool) :
    (t.dispose closing).outbox = t.outbox.dispose := by
  obtain ⟨o, hwriter⟩ := hsound.writer
  rw [outbox_eq (writer_dispose hwriter closing), outbox_eq hwriter]

theorem withOutbox_self {x : Connection} {o : Outbox} (hwriter : x.writer = .outbox o) :
    x.withOutbox o = x := by
  unfold Connection.withOutbox
  rw [← hwriter]

theorem setOutbox_outbox (hsound : t.Sound) : t.setOutbox t.outbox = t := by
  obtain ⟨o, hwriter⟩ := hsound.writer
  rw [outbox_eq hwriter, setOutbox, withOutbox_self hwriter]

theorem receive_nil (hsound : t.Sound) (hqueue : t.outbox.queue = []) : t.receive = t := by
  unfold receive Outbox.receive
  rw [hqueue]
  cases t.outbox.senderGone <;> exact setOutbox_outbox hsound

theorem receive_cons {f : String} {rest : List String} (hqueue : t.outbox.queue = f :: rest) :
    t.receive =
      { t.setOutbox { t.outbox with queue := rest } with received := t.received ++ [f] } := by
  simp only [receive, Outbox.receive, hqueue]

/-! ## Steps are made of acts -/

def settle (t : Traffic) (i : Nat) (c : Call) : Outbox × Option (Except Error Unit) → Traffic
  | (o, none) => t.setOutbox o
  | (o, some r) => (t.setOutbox o).setCall i { c with stage := .returned r }

theorem acts_settle {i : Nat} {c : Call} (hc : t.calls[i]? = some c) {id : Nat}
    (hturn : c.turn? = some id) : Acts t (t.settle i c (t.outbox.resume t.now id)) := by
  have hresumed := Outbox.resume_resumed t.outbox t.now id
  generalize t.outbox.resume t.now id = result at hresumed
  obtain ⟨o, r⟩ := result
  cases hresumed with
  | waits line hturns => exact (Act.wait t line hturns).acts
  | accepted x rest hline hid hroom =>
    subst hid
    exact (Act.accept t i c hc x hturn rest hline hroom).acts
  | failed x rest hline hid e _ =>
    subst hid
    exact (Act.fail t i c hc x hturn rest hline e).acts

theorem acts_finish (t : Traffic) (r : Except Error Unit) :
    Acts t { t with connection := t.connection.finish r } := by
  unfold Connection.finish
  split
  · exact .refl
  · split
    · exact .refl
    · exact (Act.dispose t true).acts

/-- A fresh call that is not turned away asks for the outbox and gets on with its turn. -/
theorem acts_enter_settle {i : Nat} {c : Call} (hc : t.calls[i]? = some c)
    (hfresh : c.IsFresh) (hopen : t.outbox.disposed = false) :
    Acts t ((t.enter i c).settle i (c.withTurn t.outbox.nextTurn)
      ((t.outbox.enter c.frame).resume t.now t.outbox.nextTurn)) := by
  apply (Act.enter t i c hc hfresh hopen).acts.trans
  have hi : i < t.calls.length := (List.getElem?_eq_some_iff.mp hc).1
  exact acts_settle (t := t.enter i c) (by simp [enter, hi]) (turn_withTurn c _)

theorem poll_asks {i : Nat} {c c' : Call} {cancelled : Bool} {x : Connection}
    (hpoll : c.poll t.connection t.now cancelled = (x, c'))
    (hnext : t.outbox.nextTurn < x.outbox.nextTurn) :
    t.poll i cancelled c =
      { t with connection := x, calls := t.calls.set i c', asked := t.asked ++ [i] } := by
  simp only [poll, hpoll, if_pos hnext]

theorem poll_keeps {i : Nat} {c c' : Call} {cancelled : Bool} {x : Connection}
    (hpoll : c.poll t.connection t.now cancelled = (x, c'))
    (hnext : x.outbox.nextTurn = t.outbox.nextTurn) :
    t.poll i cancelled c = { t with connection := x, calls := t.calls.set i c' } := by
  simp only [poll, hpoll, hnext, Nat.lt_irrefl, if_false]

theorem nextTurn_finish (x : Connection) (r : Except Error Unit) :
    (x.finish r).outbox.nextTurn = x.outbox.nextTurn := by
  unfold Connection.finish
  split
  · rfl
  · split
    · rfl
    · unfold Connection.close Connection.outbox
      cases x.writer <;> rfl

/-- A poll by which a call is turned away. It closes the connection at most if the call has not been
cancelled. -/
def PollRefused (t : Traffic) (cancelled : Bool) (c : Call) : Prop :=
  ∃ (e : Error) (finishing : Bool),
    t.Refused e ∧ (e.isCancelled = true → finishing = false) ∧
    c.poll t.connection t.now cancelled =
      (if finishing then t.connection.finish (.error e) else t.connection,
        { c with stage := .returned (.error e) })

def PollAsks (t : Traffic) (cancelled : Bool) (c : Call) : Prop :=
  t.outbox.disposed = false ∧ ∃ finishing : Bool, c.poll t.connection t.now cancelled =
    match (t.outbox.enter c.frame).resume t.now t.outbox.nextTurn with
    | (o', none) => (t.connection.withOutbox o', c.withTurn t.outbox.nextTurn)
    | (o', some r) =>
      (if finishing then (t.connection.withOutbox o').finish r
        else t.connection.withOutbox o', { c with stage := .returned r })

/-- The writer gets to know of a fresh call unless this is cancelled or the connection is dead. -/
def Proceeds (t : Traffic) (cancelled : Bool) (c : Call) : Prop :=
  (c.stage = .send .fresh ∧ t.connection.live = true ∧ cancelled = false) ∨
    c.stage = .write none

theorem pollAsks_of_proceeds (hsound : t.Sound) (hopen : t.outbox.disposed = false) {c : Call}
    {cancelled : Bool} (hproceeds : t.Proceeds cancelled c) : t.PollAsks cancelled c := by
  obtain ⟨o, hwriter⟩ := hsound.writer
  refine ⟨hopen, ?_⟩
  rw [outbox_eq hwriter] at hopen ⊢
  have hstart := Outbox.start_of_not_disposed hopen t.now c.frame
  rcases hresult : (o.enter c.frame).resume t.now o.nextTurn with ⟨o', r⟩
  rw [hresult] at hstart
  rcases hproceeds with ⟨hstage, hlive, hcancelled⟩ | hstage
  · refine ⟨true, ?_⟩
    cases r <;>
      simp [Call.poll, hstage, stepSend, hlive, hcancelled, Writer.start, hwriter, hstart,
        Connection.withOutbox, Call.withTurn]
  · refine ⟨false, ?_⟩
    cases r <;>
      simp [Call.poll, hstage, stepWrite, Writer.start, hwriter, hstart,
        Connection.withOutbox, Call.withTurn]

theorem pollRefused_of_disposed (hsound : t.Sound) (hdisposed : t.outbox.disposed = true) {c : Call}
    {cancelled : Bool} (hproceeds : t.Proceeds cancelled c) : t.PollRefused cancelled c := by
  obtain ⟨o, hwriter⟩ := hsound.writer
  have hrefused : t.Refused Outbox.disposedError := Or.inr ⟨rfl, Or.inr hdisposed⟩
  rw [outbox_eq hwriter] at hdisposed
  have hstart := Outbox.start_of_disposed hdisposed t.now c.frame
  have hself : { t.connection with writer := .outbox o } = t.connection :=
    withOutbox_self hwriter
  rcases hproceeds with ⟨hstage, hlive, hcancelled⟩ | hstage
  · refine ⟨_, true, hrefused, (by intro h; cases h), ?_⟩
    have hsend : t.connection.stepSend t.now cancelled c.frame .fresh =
        ({ t.connection with writer := .outbox o }.finish (.error Outbox.disposedError),
          .done (.error Outbox.disposedError)) := by
      simp only [stepSend, hlive, hcancelled, Writer.start, hwriter, hstart, Bool.not_true,
        Bool.false_eq_true, if_false]
    simp only [Call.poll, hstage, hsend, hself, if_pos]
  · refine ⟨_, false, hrefused, fun _ => rfl, ?_⟩
    simp [Call.poll, hstage, stepWrite, Writer.start, hwriter, hstart, hself]

theorem poll_fresh_cases (hsound : t.Sound) {c : Call} (hfresh : c.IsFresh) (cancelled : Bool) :
    t.PollRefused cancelled c ∨ t.PollAsks cancelled c := by
  have hproceed (hproceeds : t.Proceeds cancelled c) :
      t.PollRefused cancelled c ∨ t.PollAsks cancelled c := by
    cases hdisposed : t.outbox.disposed with
    | true => exact Or.inl (pollRefused_of_disposed hsound hdisposed hproceeds)
    | false => exact Or.inr (pollAsks_of_proceeds hsound hdisposed hproceeds)
  rcases hfresh with hstage | hstage
  · cases hlive : t.connection.live with
    | false =>
      refine Or.inl ⟨notLiveError, false, Or.inr ⟨rfl, Or.inl hlive⟩, fun _ => rfl, ?_⟩
      simp [Call.poll, hstage, stepSend, hlive]
    | true =>
      cases hcancelled : cancelled with
      | true =>
        refine Or.inl ⟨.cancelled, false, Or.inl rfl, fun _ => rfl, ?_⟩
        simp [Call.poll, hstage, stepSend, hlive]
      | false =>
        rw [← hcancelled]
        exact hproceed (Or.inl ⟨hstage, hlive, hcancelled⟩)
  · exact hproceed (Or.inr hstage)

theorem acts_poll_refused {i : Nat} {c : Call} (hc : t.calls[i]? = some c) (hfresh : c.IsFresh)
    {cancelled : Bool} (hrefused : t.PollRefused cancelled c) : Acts t (t.poll i cancelled c) := by
  obtain ⟨e, finishing, he, _, hpoll⟩ := hrefused
  have hacts := (Act.refuse t i c hc hfresh e he).acts
  cases finishing with
  | false =>
    rw [poll_keeps hpoll rfl]
    exact hacts
  | true =>
    rw [poll_keeps hpoll (by rw [if_pos rfl, nextTurn_finish])]
    exact hacts.trans (acts_finish (t.setCall i _) (.error e))

theorem nextTurn_lt_resume (o : Outbox) (now : Nat) (frame : String) :
    o.nextTurn < ((o.enter frame).resume now o.nextTurn).1.nextTurn := by
  rw [(Outbox.resume_resumed (o.enter frame) now o.nextTurn).nextTurn_eq]
  exact Nat.lt_succ_self _

theorem acts_poll_asks {i : Nat} {c : Call} (hc : t.calls[i]? = some c) (hfresh : c.IsFresh)
    {cancelled : Bool} (hasks : t.PollAsks cancelled c) : Acts t (t.poll i cancelled c) := by
  obtain ⟨hopen, finishing, hpoll⟩ := hasks
  have hlt := nextTurn_lt_resume t.outbox t.now c.frame
  have hacts := acts_enter_settle hc hfresh hopen
  rcases hresult : (t.outbox.enter c.frame).resume t.now t.outbox.nextTurn with ⟨o', r⟩
  rw [hresult] at hacts hpoll hlt
  cases r with
  | none =>
    rw [poll_asks hpoll hlt]
    exact hacts
  | some r =>
    have hsettled : (t.enter i c).settle i (c.withTurn t.outbox.nextTurn) (o', some r) =
        { t with
          connection := t.connection.withOutbox o'
          calls := t.calls.set i { c with stage := .returned r }
          asked := t.asked ++ [i] } := by
      simp [settle, enter, setCall, setOutbox, frame_withTurn, Connection.withOutbox]
    rw [hsettled] at hacts
    cases finishing with
    | false =>
      rw [poll_asks hpoll hlt]
      exact hacts
    | true =>
      rw [poll_asks hpoll (by rw [if_pos rfl, nextTurn_finish]; exact hlt)]
      exact hacts.trans (acts_finish _ r)

/-- A call in line that is polled and not cancelled. -/
theorem poll_turn {o : Outbox} (hwriter : t.connection.writer = .outbox o) {c : Call}
    (cancelled : Bool) {id : Nat}
    (hproceeds : (c.stage = .send (.writing (.turn id)) ∧ cancelled = false) ∨
      c.stage = .write (some (.turn id))) :
    ∃ finishing : Bool, c.poll t.connection t.now cancelled =
      match o.resume t.now id with
      | (o', none) => (t.connection.withOutbox o', c)
      | (o', some r) =>
        (if finishing then (t.connection.withOutbox o').finish r
          else t.connection.withOutbox o', { c with stage := .returned r }) := by
  rcases hresult : o.resume t.now id with ⟨o', r⟩
  rcases hproceeds with ⟨hstage, hcancelled⟩ | hstage
  · refine ⟨true, ?_⟩
    cases r <;>
      simp [Call.poll, hstage, stepSend, hcancelled, Writer.resume, hwriter, hresult,
        Connection.withOutbox]
  · refine ⟨false, ?_⟩
    cases r <;>
      simp [Call.poll, hstage, stepWrite, Writer.resume, hwriter, hresult,
        Connection.withOutbox]

theorem poll_withdraws {o : Outbox} (hwriter : t.connection.writer = .outbox o) {c : Call}
    {id : Nat} (hstage : c.stage = .send (.writing (.turn id))) :
    c.poll t.connection t.now true =
      (t.connection.withOutbox (o.abandon id),
        { c with stage := .returned (.error .cancelled) }) := by
  simp [Call.poll, hstage, stepSend, Connection.abandon, Writer.abandon, hwriter,
    Connection.withOutbox]

theorem turn_eq_some {c : Call} {id : Nat} (hturn : c.turn? = some id) :
    c.stage = .send (.writing (.turn id)) ∨ c.stage = .write (some (.turn id)) := by
  unfold Call.turn? at hturn
  split at hturn <;> simp_all

theorem set_self {i : Nat} {c : Call} (hc : t.calls[i]? = some c) : t.calls.set i c = t.calls := by
  obtain ⟨hi, hc⟩ := List.getElem?_eq_some_iff.mp hc
  rw [← hc, List.set_getElem_self]

theorem acts_poll_turn {o : Outbox} (hwriter : t.connection.writer = .outbox o) {i : Nat}
    {c : Call} (hc : t.calls[i]? = some c) (cancelled : Bool) {id : Nat}
    (hproceeds : (c.stage = .send (.writing (.turn id)) ∧ cancelled = false) ∨
      c.stage = .write (some (.turn id))) :
    Acts t (t.poll i cancelled c) := by
  have ho : t.outbox = o := outbox_eq hwriter
  have hturn : c.turn? = some id := by
    rcases hproceeds with ⟨hstage, _⟩ | hstage <;> simp [Call.turn?, hstage]
  have hnext := (Outbox.resume_resumed o t.now id).nextTurn_eq
  have hacts := acts_settle hc hturn
  rw [ho] at hacts
  obtain ⟨finishing, hpoll⟩ := poll_turn hwriter cancelled hproceeds
  rcases hresult : o.resume t.now id with ⟨o', r⟩
  rw [hresult] at hacts hpoll hnext
  have hsame : o'.nextTurn = t.outbox.nextTurn := by rw [ho, hnext]
  cases r with
  | none =>
    rw [poll_keeps hpoll hsame, set_self hc]
    exact hacts
  | some r =>
    cases finishing with
    | false =>
      rw [poll_keeps hpoll hsame]
      exact hacts
    | true =>
      rw [poll_keeps hpoll (by rw [if_pos rfl, nextTurn_finish]; exact hsame)]
      exact hacts.trans (acts_finish _ r)

theorem acts_poll_cancelled {o : Outbox} (hwriter : t.connection.writer = .outbox o) {i : Nat}
    {c : Call} (hc : t.calls[i]? = some c) {id : Nat}
    (hstage : c.stage = .send (.writing (.turn id))) :
    Acts t (t.poll i true c) := by
  have ho : t.outbox = o := outbox_eq hwriter
  rw [poll_keeps (poll_withdraws hwriter hstage) (by rw [ho]; rfl), ← ho]
  exact (Act.leave t i c hc id (by simp [Call.turn?, hstage]) _ (Or.inr rfl)).acts

theorem acts_poll (hsound : t.Sound) {i : Nat} {c : Call} (hc : t.calls[i]? = some c)
    (cancelled : Bool) : Acts t (t.poll i cancelled c) := by
  obtain ⟨o, hwriter⟩ := hsound.writer
  rcases hsound.placed i c hc with hfresh | ⟨id, hturn⟩ | hended
  · rcases poll_fresh_cases hsound hfresh cancelled with hrefused | hasks
    · exact acts_poll_refused hc hfresh hrefused
    · exact acts_poll_asks hc hfresh hasks
  · rcases turn_eq_some hturn with hstage | hstage
    · cases cancelled with
      | true => exact acts_poll_cancelled hwriter hc hstage
      | false => exact acts_poll_turn hwriter hc false (Or.inl ⟨hstage, rfl⟩)
    · exact acts_poll_turn hwriter hc cancelled (Or.inr hstage)
  · have hpoll : c.poll t.connection t.now cancelled = (t.connection, c) := by
      rcases hended with hstage | ⟨r, hstage⟩ <;> simp [Call.poll, hstage]
    rw [poll_keeps hpoll rfl, set_self hc]
    exact .refl

theorem acts_drop (hsound : t.Sound) {i : Nat} {c : Call} (hc : t.calls[i]? = some c) :
    Acts t (t.drop i c) := by
  obtain ⟨o, hwriter⟩ := hsound.writer
  have ho : t.outbox = o := outbox_eq hwriter
  rcases hsound.placed i c hc with hfresh | ⟨id, hturn⟩ | hended
  · have hdrop : t.drop i c = t.setCall i { c with stage := .dropped } := by
      rcases hfresh with hstage | hstage <;>
        simp [drop, Call.drop, hstage, Connection.abandon, setCall]
    rw [hdrop]
    exact (Act.forget t i c hc hfresh).acts
  · have hdrop : t.drop i c =
        (t.setOutbox (t.outbox.abandon id)).setCall i { c with stage := .dropped } := by
      rcases turn_eq_some hturn with hstage | hstage <;>
        simp [drop, Call.drop, hstage, Connection.abandon, Writer.abandon, hwriter, setCall,
          setOutbox, ho, Connection.withOutbox]
    rw [hdrop]
    exact (Act.leave t i c hc id hturn _ (Or.inl rfl)).acts
  · have hdrop : t.drop i c = t := by
      rcases hended with hstage | ⟨r, hstage⟩ <;>
        simp [drop, Call.drop, hstage, set_self hc]
    rw [hdrop]
    exact .refl

theorem Step.acts {t t' : Traffic} (hstep : Step t t') (hsound : t.Sound) : Acts t t' := by
  cases hstep with
  | call frame direct => exact (Act.call t frame direct).acts
  | poll i c hc cancelled => exact acts_poll hsound hc cancelled
  | drop i c hc => exact acts_drop hsound hc
  | dispose closing => exact (Act.dispose t closing).acts
  | markDead => exact (Act.markDead t).acts
  | receive => exact (Act.receive t).acts
  | dropReceiver => exact (Act.dropReceiver t).acts
  | wait time _ => exact (Act.clock t time).acts

end EventHub.Connection.Traffic
