import EventHub.Proofs.Connection.Accepting
import EventHub.Proofs.Web.OpenStreams
/-!
# Visits

A client comes, its stream is opened, and the body of the stream is read and dropped, while others
write to the connection, close it and dispose its outbox, and the server shuts down, in any order.
The body yields the frames that have been accepted, from the first one on, until it ends; and when
it ends or is dropped it closes the connection and begins its removal, once.
-/

namespace EventHub.Web

open Cluster
open Connection (Traffic)

def EventStream.Answer.text? : EventStream.Answer → Option String
  | .frame text => some text
  | .pending | .ended => none

/-! ## Streams that are polled -/

namespace EventStream

variable {c : Cluster} {e : EventStream} {x : Connection} {o : Outbox}

def parted (x : Connection) : Connection := onOutbox Outbox.dropReceiver x.close

/-- What a poll of an open stream comes to, whichever branch is taken. -/
inductive Polled (c : Cluster) (e : EventStream) (x : Connection) (o : Outbox) :
    Cluster × EventStream × Answer × List Task → Prop where
  | pends : Polled c e x o (c, e, .pending, [])
  | takes (f : String) (rest : List String) (hqueue : o.queue = f :: rest) :
      Polled c e x o
        (c.setConnection e.handle (x.withOutbox { o with queue := rest }), e, .frame f, [])
  | leaves : Polled c e x o (c.setConnection e.handle (parted x), { e with gone := true }, .ended,
      [{ activity := .removal e.server (.fresh x.id) }])

theorem leave_open (hx : c.connection? e.handle = some x) (hopen : e.gone = false) :
    e.leave c = (c.setConnection e.handle (parted x), { e with gone := true },
      [{ activity := .removal e.server (.fresh x.id) }]) := by
  simp only [leave, hopen, hx, Bool.false_eq_true, if_false, parted]

theorem polled (hx : c.connection? e.handle = some x) (ho : x.writer = .outbox o)
    (hopen : e.gone = false) (choice : List Branch → Option Branch) (shutdown : Bool) :
    Polled c e x o (e.poll choice shutdown c) := by
  have hleave := leave_open hx hopen
  have hends : Polled c e x o ((e.leave c).1, (e.leave c).2.1, .ended, (e.leave c).2.2) := by
    rw [hleave]
    exact .leaves
  simp only [poll, hopen, Bool.false_eq_true, if_false]
  split
  · exact .pends
  · next branch _ =>
    cases branch with
    | shutdown | terminated => exact hends
    | frame =>
      simp only [take, outbox?_eq hx ho, Option.map_some, Outbox.receive]
      cases hqueue : o.queue with
      | nil =>
        cases hsender : o.senderGone with
        | false => exact .pends
        | true => exact hends
      | cons f rest =>
        have hset : c.modifyConnection e.handle (onOutbox fun _ => { o with queue := rest }) =
            c.setConnection e.handle (x.withOutbox { o with queue := rest }) := by
          rw [modifyConnection_of_some hx, onOutbox, ho]
          rfl
        have htakes := Polled.takes (c := c) (e := e) (x := x) f rest hqueue
        rw [← hset] at htakes
        exact htakes

end EventStream

/-! ## Visits -/

/-- A client that has come to a server, the calls that write to its connection, and what the body of
its stream has done. -/
structure Visit where
  server : Server
  /-- The number of the stream, once it is open. -/
  number : Option Nat := none
  /-- The calls in the order in which they were made. -/
  calls : List Connection.Call
  /-- The calls that have asked for the outbox, in the order in which they did. -/
  asked : List Nat
  /-- What the body has answered. -/
  answers : List EventStream.Answer := []
  /-- The tasks that the body has started. -/
  started : List Task := []
  dropped : Bool := false

namespace Visit

open Server (place streamOf)

def yielded (v : Visit) : List String := v.answers.filterMap EventStream.Answer.text?

/-- The frames that have been accepted: those of the calls that returned without an error, in the
order in which the calls asked for the outbox. -/
def accepted (v : Visit) : List String := Traffic.framesOf v.calls v.asked

def traffic (v : Visit) (x : Connection) : Traffic where
  now := v.server.cluster.now
  connection := x
  calls := v.calls
  asked := v.asked
  received := v.yielded

def Over (v : Visit) : Prop := .ended ∈ v.answers ∨ v.dropped = true

/-- A client comes. The hint when to reconnect has been written. -/
def ofClient (s : Server) (id : ConnectionId) (client : ClientId) (lastEventId : Option String) :
    Visit where
  server := (s.connect id client lastEventId).1
  calls := [⟨Event.retry s.settings.retryInterval, .returned (.ok ())⟩]
  asked := [0]

def begun (s s' : Server) : List Task := s'.machine.tasks.drop s.machine.tasks.length

inductive Step (h : Nat) : Visit → Visit → Prop where
  | writes (v : Visit) {x : Connection} (hx : v.server.cluster.connection? h = some x) {t : Traffic}
      (hwrites : (v.traffic x).Writes t) :
      Step h v { v with
        server := v.server.withTasks (v.server.cluster.setConnection h t.connection) []
        calls := t.calls, asked := t.asked }
  | opens (v : Visit) (hnumber : v.number = none) :
      Step h v { v with
        server := { v.server with streams := v.server.streams ++ [streamOf h] }
        number := some v.server.streams.length }
  | reads (v : Visit) {n : Nat} (hn : v.number = some n)
      (choice : List EventStream.Branch → Option EventStream.Branch) :
      Step h v { v with
        server := (v.server.readStream choice n).1
        answers := v.answers ++ [(v.server.readStream choice n).2]
        started := v.started ++ begun v.server (v.server.readStream choice n).1 }
  | drops (v : Visit) {n : Nat} (hn : v.number = some n) :
      Step h v { v with
        server := v.server.dropStream n
        started := v.started ++ begun v.server (v.server.dropStream n)
        dropped := true }
  | shutDown (v : Visit) : Step h v { v with server := v.server.shutDown }
  | outside (v : Visit) (s : Server)
      (hconnection : s.cluster.connection? h = v.server.cluster.connection? h)
      (hstream : ∀ n, v.number = some n → s.streams[n]? = v.server.streams[n]?) :
      Step h v { v with server := s }

def Run (h : Nat) : Visit → Visit → Prop := Relation.ReflTransGen (Step h)

/-! ## Where a visit stands -/

structure GoesOn (h : Nat) (v : Visit) (x : Connection) : Prop where
  stream : ∀ n, v.number = some n → v.server.streams[n]? = some (streamOf h)
  answers : .ended ∉ v.answers
  dropped : v.dropped = false
  started : v.started = []
  receiver : x.writer.receiverGone = false

/-- The body has ended or been dropped, and has closed the connection and begun its removal. -/
structure HasLeft (h : Nat) (v : Visit) (x : Connection) : Prop where
  stream : ∃ n, v.number = some n ∧
    v.server.streams[n]? = some { streamOf h with gone := true }
  finished : v.Over
  ended : ∃ before after, v.answers = before ++ after ∧ .ended ∉ before ∧
    ∀ a ∈ after, a = .ended
  dead : x.live = false
  disposed : x.outbox.disposed = true
  started : v.started = [{ activity := .removal place (.fresh x.id) }]

structure Inv (h : Nat) (id : ConnectionId) (capacity : Nat) (v : Visit) (x : Connection) :
    Prop where
  connection : v.server.cluster.connection? h = some x
  named : x.id = id
  orderly : (v.traffic x).Orderly capacity
  ordered : v.yielded <+: v.accepted
  stands : v.GoesOn h x ∨ v.HasLeft h x

variable {h capacity : Nat} {id : ConnectionId} {v v' : Visit} {x : Connection}

/-! ## Writes -/

theorem Inv.writes (hinv : v.Inv h id capacity x) {t : Traffic} (hwrites : (v.traffic x).Writes t) :
    Inv h id capacity { v with
      server := v.server.withTasks (v.server.cluster.setConnection h t.connection) []
      calls := t.calls, asked := t.asked } t.connection := by
  have hacts := hwrites.step.acts hinv.orderly.toSound
  have hlasts := hacts.lasts hinv.orderly
  obtain ⟨hreceived, hnow⟩ := hwrites.frame
  have htraffic : Traffic.mk v.server.cluster.now t.connection t.calls t.asked v.yielded = t := by
    rw [show v.yielded = t.received from hreceived.symm,
      show v.server.cluster.now = t.now from hnow.symm]
  constructor
  case connection =>
    exact (connection?_setConnection hinv.connection t.connection h).trans (if_pos rfl)
  case named => exact hlasts.id_eq.trans hinv.named
  case orderly =>
    have horderly := hacts.orderly hinv.orderly
    rw [← htraffic] at horderly
    exact horderly
  case ordered => exact hinv.ordered.trans hlasts.accepted
  case stands =>
    refine hinv.stands.imp (fun hgoes => ?_) fun hleft => ?_
    · exact ⟨hgoes.stream, hgoes.answers, hgoes.dropped, hgoes.started,
        hwrites.receiverGone_eq.trans hgoes.receiver⟩
    · refine ⟨hleft.stream, hleft.finished, hleft.ended, hlasts.dead hleft.dead,
        hlasts.disposed hleft.disposed, hleft.started.trans ?_⟩
      rw [show t.connection.id = x.id from hlasts.id_eq]

/-! ## Reads -/

def turned (v : Visit) (n : Nat) (e : EventStream) (c : Cluster) (tasks : List Task) : Server :=
  { v.server with streams := v.server.streams.set n e }.withTasks c tasks

theorem begun_turned (v : Visit) (n : Nat) (e : EventStream) (c : Cluster) (tasks : List Task) :
    begun v.server (v.turned n e c tasks) = tasks := by
  simp [begun, turned, Server.withTasks]

theorem Inv.outbox (hinv : v.Inv h id capacity x) : x.writer = .outbox x.outbox := by
  obtain ⟨o, ho⟩ := hinv.orderly.writer
  have ho : x.writer = .outbox o := ho
  simp only [Connection.outbox, ho]

theorem parted_eq (ho : x.writer = .outbox x.outbox) :
    EventStream.parted x = x.close.withOutbox x.outbox.dispose.dropReceiver := by
  rw [EventStream.parted, EventStream.onOutbox, Connection.close, ho]
  rfl

/-- A body that goes away, because it ends or is dropped, closes its connection and begins its
removal. -/
theorem Inv.leaves (hinv : v.Inv h id capacity x) (hgoes : v.GoesOn h x) {n : Nat}
    (hn : v.number = some n) {answers : List EventStream.Answer} {dropped : Bool}
    (hanswers : answers = v.answers ∧ dropped = true ∨
      answers = v.answers ++ [.ended] ∧ dropped = v.dropped) :
    Inv h id capacity { v with
      server := v.turned n { streamOf h with gone := true }
        (v.server.cluster.setConnection h (EventStream.parted x))
        [{ activity := .removal place (.fresh x.id) }]
      answers := answers
      started := v.started ++ [{ activity := .removal place (.fresh x.id) }]
      dropped := dropped } (EventStream.parted x) := by
  have hyielded : answers.filterMap EventStream.Answer.text? = v.yielded := by
    rcases hanswers with ⟨rfl, _⟩ | ⟨rfl, _⟩
    · rfl
    · rw [List.filterMap_append]
      exact List.append_nil _
  have hparted := parted_eq hinv.outbox
  constructor
  case connection =>
    exact (connection?_setConnection hinv.connection (EventStream.parted x) h).trans (if_pos rfl)
  case named =>
    rw [hparted]
    exact hinv.named
  case orderly =>
    have horderly := (Traffic.Act.dropReceiver _).orderly
      ((Traffic.Act.dispose _ true).orderly hinv.orderly)
    rw [Traffic.outbox_dispose hinv.orderly.toSound] at horderly
    rw [traffic, yielded, hyielded, hparted]
    exact horderly
  case ordered =>
    rw [yielded, hyielded]
    exact hinv.ordered
  case stands =>
    refine .inr ⟨⟨n, hn, ?_⟩, ?_, ?_, ?_, ?_, ?_⟩
    · exact List.getElem?_set_self (List.getElem?_eq_some_iff.mp (hgoes.stream n hn)).1
    · rcases hanswers with ⟨_, rfl⟩ | ⟨rfl, _⟩
      · exact .inr rfl
      · exact .inl (List.mem_append_right _ (List.mem_singleton.mpr rfl))
    · rcases hanswers with ⟨rfl, _⟩ | ⟨rfl, _⟩
      · exact ⟨v.answers, [], (List.append_nil _).symm, hgoes.answers, by simp⟩
      · exact ⟨v.answers, [.ended], rfl, hgoes.answers, by simp⟩
    · rw [hparted]
      rfl
    · rw [hparted]
      rfl
    · rw [hgoes.started, hparted]
      rfl

/-- A body that goes on yields the frame that was accepted next. -/
theorem Inv.takes (hinv : v.Inv h id capacity x) (hgoes : v.GoesOn h x) {n : Nat}
    (hn : v.number = some n) {f : String} {rest : List String}
    (hqueue : x.outbox.queue = f :: rest) :
    Inv h id capacity { v with
      server := v.turned n (streamOf h) (v.server.cluster.setConnection h
        (x.withOutbox { x.outbox with queue := rest })) []
      answers := v.answers ++ [.frame f]
      started := v.started ++ [] } (x.withOutbox { x.outbox with queue := rest }) := by
  have hyielded : (v.answers ++ [EventStream.Answer.frame f]).filterMap EventStream.Answer.text? =
      v.yielded ++ [f] := by
    rw [List.filterMap_append]
    rfl
  have horderly := (Traffic.Act.receive _).orderly hinv.orderly
  rw [Traffic.receive_cons hqueue] at horderly
  constructor
  case connection =>
    exact (connection?_setConnection hinv.connection _ h).trans (if_pos rfl)
  case named => exact hinv.named
  case orderly =>
    rw [traffic, yielded, hyielded]
    exact horderly
  case ordered =>
    have hreceiver : x.outbox.receiverGone = false := by
      have hreceiver := hgoes.receiver
      rwa [hinv.outbox] at hreceiver
    rw [yielded, hyielded]
    exact ⟨rest, horderly.delivered hreceiver⟩
  case stands =>
    refine .inl ⟨fun m hm => ?_, ?_, hgoes.dropped, ?_, ?_⟩
    · obtain rfl : n = m := Option.some.inj (hn.symm.trans hm)
      exact List.getElem?_set_self (List.getElem?_eq_some_iff.mp (hgoes.stream n hn)).1
    · simpa using hgoes.answers
    · rw [hgoes.started, List.append_nil]
    · have hreceiver := hgoes.receiver
      rw [hinv.outbox] at hreceiver
      exact hreceiver

theorem Inv.pends (hinv : v.Inv h id capacity x) (hgoes : v.GoesOn h x) {n : Nat}
    (hn : v.number = some n) :
    Inv h id capacity { v with
      server := v.turned n (streamOf h) v.server.cluster []
      answers := v.answers ++ [.pending]
      started := v.started ++ [] } x := by
  have hyielded : (v.answers ++ [EventStream.Answer.pending]).filterMap EventStream.Answer.text? =
      v.yielded := by
    rw [List.filterMap_append]
    exact List.append_nil _
  constructor
  case connection => exact hinv.connection
  case named => exact hinv.named
  case orderly =>
    rw [traffic, yielded, hyielded]
    exact hinv.orderly
  case ordered =>
    rw [yielded, hyielded]
    exact hinv.ordered
  case stands =>
    refine .inl ⟨fun m hm => ?_, ?_, hgoes.dropped, ?_, hgoes.receiver⟩
    · obtain rfl : n = m := Option.some.inj (hn.symm.trans hm)
      exact List.getElem?_set_self (List.getElem?_eq_some_iff.mp (hgoes.stream n hn)).1
    · simpa using hgoes.answers
    · rw [hgoes.started, List.append_nil]

theorem Inv.reads_open (hinv : v.Inv h id capacity x) (hgoes : v.GoesOn h x) {n : Nat}
    (hn : v.number = some n) (choice : List EventStream.Branch → Option EventStream.Branch) :
    ∃ x', Inv h id capacity { v with
      server := (v.server.readStream choice n).1
      answers := v.answers ++ [(v.server.readStream choice n).2]
      started := v.started ++ begun v.server (v.server.readStream choice n).1 } x' := by
  have hpolled := EventStream.polled (e := streamOf h) hinv.connection hinv.outbox rfl choice
    v.server.shutdown
  generalize hpoll : (streamOf h).poll choice v.server.shutdown v.server.cluster = p at hpolled
  have hread : v.server.readStream choice n = (v.turned n p.2.1 p.1 p.2.2.2, p.2.2.1) := by
    simp only [Server.readStream, hgoes.stream n hn, turned, ← hpoll]
  rw [hread, begun_turned]
  cases hpolled with
  | pends => exact ⟨_, hinv.pends hgoes hn⟩
  | takes f rest hqueue => exact ⟨_, hinv.takes hgoes hn hqueue⟩
  | leaves => exact ⟨_, hinv.leaves hgoes hn (.inr ⟨rfl, rfl⟩)⟩

theorem Inv.drops_open (hinv : v.Inv h id capacity x) (hgoes : v.GoesOn h x) {n : Nat}
    (hn : v.number = some n) :
    ∃ x', Inv h id capacity { v with
      server := v.server.dropStream n
      started := v.started ++ begun v.server (v.server.dropStream n)
      dropped := true } x' := by
  have hdrop : v.server.dropStream n = v.turned n { streamOf h with gone := true }
      (v.server.cluster.setConnection h (EventStream.parted x))
      [{ activity := .removal place (.fresh x.id) }] := by
    simp only [Server.dropStream, hgoes.stream n hn,
      EventStream.leave_open (e := streamOf h) hinv.connection rfl]
    rfl
  rw [hdrop, begun_turned]
  exact ⟨_, hinv.leaves hgoes hn (.inl ⟨rfl, rfl⟩)⟩

/-- Nothing changes for a body that has gone, but that it may be told again that it has ended. -/
theorem Inv.stays (hinv : v.Inv h id capacity x) (hleft : v.HasLeft h x) {n : Nat}
    {e : EventStream} (he : v.server.streams[n]? = some e)
    {answers : List EventStream.Answer} {dropped : Bool}
    (hanswers : answers = v.answers ∨ answers = v.answers ++ [.ended])
    (hdropped : v.dropped = true → dropped = true) :
    Inv h id capacity { v with
      server := v.turned n e v.server.cluster []
      answers := answers
      started := v.started ++ []
      dropped := dropped } x := by
  have hyielded : answers.filterMap EventStream.Answer.text? = v.yielded := by
    rcases hanswers with rfl | rfl
    · rfl
    · rw [List.filterMap_append]
      exact List.append_nil _
  have hstreams : v.server.streams.set n e = v.server.streams := by
    obtain ⟨hlt, he⟩ := List.getElem?_eq_some_iff.mp he
    rw [← he, List.set_getElem_self]
  constructor
  case connection => exact hinv.connection
  case named => exact hinv.named
  case orderly =>
    rw [traffic, yielded, hyielded]
    exact hinv.orderly
  case ordered =>
    rw [yielded, hyielded]
    exact hinv.ordered
  case stands =>
    refine .inr ⟨?_, ?_, ?_, hleft.dead, hleft.disposed, ?_⟩
    · rw [show (v.turned n e v.server.cluster []).streams = _ from hstreams]
      exact hleft.stream
    · refine hleft.finished.imp (fun hended => ?_) hdropped
      rcases hanswers with rfl | rfl
      · exact hended
      · exact List.mem_append_left _ hended
    · obtain ⟨before, after, hsplit, hbefore, hafter⟩ := hleft.ended
      rcases hanswers with rfl | rfl
      · exact ⟨before, after, hsplit, hbefore, hafter⟩
      · refine ⟨before, after ++ [.ended], ?_, hbefore, fun a ha => ?_⟩
        · rw [hsplit, List.append_assoc]
        · rcases List.mem_append.mp ha with ha | ha
          · exact hafter a ha
          · exact List.mem_singleton.mp ha
    · rw [hleft.started, List.append_nil]

theorem Inv.reads (hinv : v.Inv h id capacity x) {n : Nat} (hn : v.number = some n)
    (choice : List EventStream.Branch → Option EventStream.Branch) :
    ∃ x', Inv h id capacity { v with
      server := (v.server.readStream choice n).1
      answers := v.answers ++ [(v.server.readStream choice n).2]
      started := v.started ++ begun v.server (v.server.readStream choice n).1 } x' := by
  obtain hgoes | hleft := hinv.stands
  · exact hinv.reads_open hgoes hn choice
  · obtain ⟨m, hm, he⟩ := hleft.stream
    obtain rfl : m = n := Option.some.inj (hm.symm.trans hn)
    have hread : v.server.readStream choice m =
        (v.turned m { streamOf h with gone := true } v.server.cluster [], .ended) := by
      simp only [Server.readStream, he, EventStream.poll, if_true, turned]
    rw [hread, begun_turned]
    exact ⟨x, hinv.stays hleft he (.inr rfl) fun hdropped => hdropped⟩

theorem Inv.drops (hinv : v.Inv h id capacity x) {n : Nat} (hn : v.number = some n) :
    ∃ x', Inv h id capacity { v with
      server := v.server.dropStream n
      started := v.started ++ begun v.server (v.server.dropStream n)
      dropped := true } x' := by
  obtain hgoes | hleft := hinv.stands
  · exact hinv.drops_open hgoes hn
  · obtain ⟨m, hm, he⟩ := hleft.stream
    obtain rfl : m = n := Option.some.inj (hm.symm.trans hn)
    have hdrop : v.server.dropStream m =
        v.turned m { streamOf h with gone := true } v.server.cluster [] := by
      simp only [Server.dropStream, he, EventStream.leave, if_true, turned]
    rw [hdrop, begun_turned]
    exact ⟨x, hinv.stays hleft he (.inl rfl) fun _ => rfl⟩

/-! ## Runs -/

theorem Inv.outside (hinv : v.Inv h id capacity x) {s : Server}
    (hconnection : s.cluster.connection? h = v.server.cluster.connection? h)
    (hstream : ∀ n, v.number = some n → s.streams[n]? = v.server.streams[n]?) :
    Inv h id capacity { v with server := s } x := by
  constructor
  case connection => exact hconnection.trans hinv.connection
  case named => exact hinv.named
  case orderly => exact (Traffic.Act.clock _ s.cluster.now).orderly hinv.orderly
  case ordered => exact hinv.ordered
  case stands =>
    refine hinv.stands.imp (fun hgoes => ?_) fun hleft => ?_
    · exact ⟨fun n hn => (hstream n hn).trans (hgoes.stream n hn), hgoes.answers, hgoes.dropped,
        hgoes.started, hgoes.receiver⟩
    · obtain ⟨n, hn, hgone⟩ := hleft.stream
      exact ⟨⟨n, hn, (hstream n hn).trans hgone⟩, hleft.finished, hleft.ended, hleft.dead,
        hleft.disposed, hleft.started⟩

theorem Inv.opens (hinv : v.Inv h id capacity x) (hnumber : v.number = none) :
    Inv h id capacity { v with
      server := { v.server with streams := v.server.streams ++ [streamOf h] }
      number := some v.server.streams.length } x := by
  refine ⟨hinv.connection, hinv.named, hinv.orderly, hinv.ordered, ?_⟩
  obtain hgoes | hleft := hinv.stands
  · refine .inl ⟨fun n hn => ?_, hgoes.answers, hgoes.dropped, hgoes.started, hgoes.receiver⟩
    obtain rfl := Option.some.inj hn
    exact List.getElem?_concat_length
  · obtain ⟨n, hn, _⟩ := hleft.stream
    rw [hnumber] at hn
    cases hn

theorem Step.inv (hstep : Step h v v') (hinv : v.Inv h id capacity x) :
    ∃ x', v'.Inv h id capacity x' := by
  cases hstep with
  | writes hx hwrites =>
    obtain rfl := Option.some.inj (hinv.connection.symm.trans hx)
    exact ⟨_, hinv.writes hwrites⟩
  | opens hnumber => exact ⟨x, hinv.opens hnumber⟩
  | reads hn choice => exact hinv.reads hn choice
  | drops hn => exact hinv.drops hn
  | shutDown => exact ⟨x, hinv.outside rfl fun _ _ => rfl⟩
  | outside s hconnection hstream => exact ⟨x, hinv.outside hconnection hstream⟩

theorem Run.inv (hrun : Run h v v') (hinv : v.Inv h id capacity x) :
    ∃ x', v'.Inv h id capacity x' := by
  induction hrun with
  | refl => exact ⟨x, hinv⟩
  | tail _ hstep ih =>
    obtain ⟨y, hinv'⟩ := ih
    exact hstep.inv hinv'

theorem Step.accepted (hstep : Step h v v') (hinv : v.Inv h id capacity x) :
    v.accepted <+: v'.accepted := by
  cases hstep with
  | writes hx hwrites =>
    obtain rfl := Option.some.inj (hinv.connection.symm.trans hx)
    exact ((hwrites.step.acts hinv.orderly.toSound).lasts hinv.orderly).accepted
  | opens | reads | drops | shutDown | outside => exact List.prefix_rfl

theorem Run.accepted (hrun : Run h v v') (hinv : v.Inv h id capacity x) :
    v.accepted <+: v'.accepted := by
  induction hrun with
  | refl => exact List.prefix_rfl
  | tail hrun hstep ih =>
    obtain ⟨y, hinv'⟩ := Run.inv hrun hinv
    exact ih.trans (hstep.accepted hinv')

/-! ## From the beginning -/

variable {s : Server} {client : ClientId} {lastEventId : Option String}

theorem inv_ofClient (s : Server) (id : ConnectionId) (client : ClientId)
    (lastEventId : Option String) :
    (ofClient s id client lastEventId).Inv s.cluster.connections.length id (max s.settings.buffer 1)
      (EventStream.connectionOf s.settings s.cluster.now id client lastEventId) := by
  have hwriter : (EventStream.connectionOf s.settings s.cluster.now id client lastEventId).writer =
      .outbox { Outbox.ofSettings s.settings.buffer s.settings.writeTimeout.millis with
        queue := [Event.retry s.settings.retryInterval], nextTurn := 1 } := by
    simp only [EventStream.connectionOf, Traffic.start_ofSettings]
  constructor
  case connection => exact List.getElem?_concat_length
  case named => rfl
  case orderly => exact Traffic.orderly_first s.cluster.now hwriter
  case ordered => exact List.nil_prefix
  case stands =>
    refine .inl ⟨fun n hn => (by cases hn), by simp [ofClient], rfl, rfl, ?_⟩
    rw [hwriter]
    rfl

theorem HasLeft.lasts (hleft : v.HasLeft h x) {i j : Nat} (hij : i ≤ j)
    (hended : v.answers[i]? = some .ended) {a : EventStream.Answer}
    (ha : v.answers[j]? = some a) : a = .ended := by
  obtain ⟨before, after, hsplit, hbefore, hafter⟩ := hleft.ended
  rw [hsplit] at hended ha
  have hi : before.length ≤ i := by
    refine Nat.le_of_not_lt fun hlt => hbefore ?_
    rw [List.getElem?_append_left hlt] at hended
    exact List.mem_of_getElem? hended
  rw [List.getElem?_append_right (hi.trans hij)] at ha
  exact hafter a (List.mem_of_getElem? ha)

/-- Whatever happens to a client, the body of its stream yields the frames that have been accepted,
from the hint when to reconnect on, in the order in which they were accepted and each once. A body
that has ended answers that it has ended. One that has ended or been dropped leaves its connection
dead and the outbox disposed, and has begun one removal; before, it has begun none. -/
theorem body_yields_accepted
    (hrun : Run s.cluster.connections.length (ofClient s id client lastEventId) v) :
    (v.yielded <+: v.accepted ∧ [Event.retry s.settings.retryInterval] <+: v.accepted ∧
      v.asked.Nodup ∧
      (∀ (i : Nat) (c : Connection.Call), v.calls[i]? = some c →
        c.Succeeded → i ∈ v.asked) ∧
      ∀ v', Run s.cluster.connections.length v v' → v.accepted <+: v'.accepted) ∧
    (∀ (i j : Nat) (a : EventStream.Answer), i ≤ j → v.answers[i]? = some .ended →
      v.answers[j]? = some a → a = .ended) ∧
    (v.Over → (∃ x o, v.server.cluster.connection? s.cluster.connections.length = some x ∧
        x.id = id ∧ x.live = false ∧ x.writer = .outbox o ∧ o.disposed = true) ∧
      v.started = [{ activity := .removal place (.fresh id) }]) ∧
    (¬ v.Over → v.started = []) := by
  have hbegins := inv_ofClient s id client lastEventId
  obtain ⟨x, hinv⟩ := hrun.inv hbegins
  refine ⟨⟨hinv.ordered, hrun.accepted hbegins, hinv.orderly.asked_nodup, ?_,
    fun v' hrun' => hrun'.accepted hinv⟩, ?_, ?_, ?_⟩
  · intro i c hc hsucceeded
    obtain ⟨n, hn, _⟩ := hinv.orderly.succeeded i c hc hsucceeded
    exact List.mem_of_getElem? hn
  · intro i j a hij hended ha
    obtain hgoes | hleft := hinv.stands
    · exact absurd (List.mem_of_getElem? hended) hgoes.answers
    · exact hleft.lasts hij hended ha
  · intro hover
    obtain hgoes | hleft := hinv.stands
    · rcases hover with hended | hdropped
      · exact absurd hended hgoes.answers
      · rw [hgoes.dropped] at hdropped
        cases hdropped
    · refine ⟨⟨x, x.outbox, hinv.connection, hinv.named, hleft.dead, hinv.outbox,
        hleft.disposed⟩, ?_⟩
      rw [← hinv.named]
      exact hleft.started
  · intro hopen
    obtain hgoes | hleft := hinv.stands
    · exact hgoes.started
    · exact absurd hleft.finished hopen

/-- A client whose first event waits for room behind the hint. -/
def crowded : Visit :=
  let v := ofClient Server.lone ⟨"a"⟩ "x" none
  { v with
    server := { v.server.withTasks { v.server.cluster with connections :=
      [{ id := ⟨"a"⟩, client := "x", writer := .outbox {
        capacity := 1, patience := 5, queue := [Event.retry (.ofSeconds 3)]
        line := [⟨1, "data: 1\n\n", some 5⟩], nextTurn := 2 } }] } [] with
      streams := [streamOf 0] }
    number := some 0
    calls := v.calls ++ [⟨"data: 1\n\n", .write (some (.turn 1))⟩]
    asked := [0, 1] }

theorem run_crowded : Run 0 (ofClient Server.lone ⟨"a"⟩ "x" none) crowded := by
  have hcall : Run 0 (ofClient Server.lone ⟨"a"⟩ "x" none) _ :=
    .single (.writes _ rfl (.call _ "data: 1\n\n" true))
  have hpoll := hcall.tail (.writes _ rfl (.poll _ 1 _ rfl false))
  exact hpoll.tail (.opens _ rfl)

/-- The event is accepted once the hint has been taken, and still waits when the outbox is disposed,
which ends the body. -/
theorem body_yields_accepted_disposed :
    ∃ v, Run 0 (ofClient Server.lone ⟨"a"⟩ "x" none) v ∧
      v.answers = [.frame (Event.retry (.ofSeconds 3)), .ended, .ended] ∧
      v.yielded <+: v.accepted ∧
      v.accepted = [Event.retry (.ofSeconds 3), "data: 1\n\n"] ∧
      v.started = [{ activity := .removal place (.fresh ⟨"a"⟩) }] := by
  have hhint := run_crowded.tail (.reads _ rfl fun _ => some .frame)
  have haccepted := hhint.tail (.writes _ rfl (.poll _ 1 _ rfl false))
  have hdisposed := haccepted.tail (.writes _ rfl (.dispose _ true))
  have hended := (hdisposed.tail (.reads _ rfl fun _ => some .terminated)).tail
    (.reads _ rfl fun _ => some .frame)
  have hdropped : Run 0 (ofClient Server.lone ⟨"a"⟩ "x" none) _ := hended.tail (.drops _ rfl)
  obtain ⟨⟨hordered, _⟩, _, hover, _⟩ := body_yields_accepted (s := Server.lone) hdropped
  exact ⟨_, hdropped, rfl, hordered, rfl, (hover (.inr rfl)).2⟩

end Visit

end EventHub.Web
