import EventHub.Proofs.Cluster.Conduct
import EventHub.Proofs.Web.OpenStreams
/-!
# Servers in order

Whatever happens on a server, the outboxes of its connections go on handing out their turns
properly, so that every call finds its cluster in order.
-/

namespace EventHub.Web

open Cluster

/-! ## Streams -/

theorem EventStream.tidy_onOutbox {f : Outbox → Outbox} (hf : ∀ o, o.Tidy → (f o).Tidy)
    {x : Connection} (htidy : x.writer.Tidy) : (onOutbox f x).writer.Tidy := by
  unfold onOutbox
  split
  · next o hwriter =>
    rw [hwriter] at htidy
    exact hf o htidy
  · exact htidy

namespace EventStream

variable {c : Cluster}

theorem tidy_leave (htidy : c.Tidy) (b : EventStream) : (b.leave c).1.Tidy := by
  have hdropped (o : Outbox) (ho : o.Tidy) : o.dropReceiver.Tidy :=
    ho.of_sublist rfl (List.Sublist.refl _)
  unfold leave
  split
  · exact htidy
  · split
    · exact htidy
    · next x hx =>
      exact htidy.setConnection hx
        (tidy_onOutbox hdropped ((Connection.Outside.close (x := x)).writer.2 (htidy _ x hx)))

theorem tidy_take (htidy : c.Tidy) (b : EventStream) (branch : Branch) :
    (b.take c branch).1.Tidy := by
  have hleave := tidy_leave htidy b
  cases branch with
  | shutdown => exact hleave
  | terminated => exact hleave
  | frame =>
    simp only [take]
    cases ho : b.outbox? c with
    | none => exact hleave
    | some o =>
      obtain ⟨x, hx, hwriter⟩ := outbox?_eq_some ho
      have hreceived := (Connection.Outside.receive o hwriter).writer.2 (htidy _ x hx)
      have htaken : (c.modifyConnection b.handle (onOutbox fun _ => o.receive.1)).Tidy := by
        rw [modifyConnection_of_some hx]
        exact htidy.setConnection hx (tidy_onOutbox (fun _ _ => hreceived) (htidy _ x hx))
      rw [Option.map_some]
      generalize o.receive = p at htaken
      obtain ⟨o', text | _ | _⟩ := p
      · exact htaken
      · exact htidy
      · exact hleave

theorem tidy_poll (htidy : c.Tidy) (choice : List Branch → Option Branch) (shutdown : Bool)
    (b : EventStream) : (b.poll choice shutdown c).1.Tidy := by
  unfold poll
  split
  · exact htidy
  · split
    · exact htidy
    · exact tidy_take htidy b _

theorem tidy_connectionOf (settings : Settings.Stream) (now : Nat) (id : ConnectionId)
    (client : ClientId) (lastEventId : Option String) :
    (connectionOf settings now id client lastEventId).writer.Tidy := by
  have hempty : (Outbox.ofSettings settings.buffer settings.writeTimeout.millis).Tidy :=
    ⟨fun t ht => absurd ht List.not_mem_nil, List.nodup_nil⟩
  exact (Outbox.moves_start _ now _).tidy hempty

end EventStream

/-! ## Servers -/

namespace Server

variable {s s' s₀ : Server}

theorem tidy_stepTask (htidy : s.cluster.Tidy) (stopFirst : Bool) (i : Nat) :
    (s.stepTask stopFirst i).cluster.Tidy := by
  cases ht : s.machine.tasks[i]? with
  | none =>
    rw [stepTask, ht]
    exact htidy
  | some t =>
    cases hlive : t.outcome with
    | some o =>
      rw [stepTask_ended ht (by rw [Task.isDone, hlive]; rfl)]
      exact htidy
    | none =>
      rw [cluster, (stepTask_eq ht stopFirst).1, (Network.step_of_live stopFirst hlive rfl).1]
      exact (amid_step place t.activity).onward.tidy htidy

theorem Step.tidy (hstep : Step s s') (htidy : s.cluster.Tidy) : s'.cluster.Tidy := by
  cases hstep with
  | task stopFirst i => exact tidy_stepTask htidy stopFirst i
  | connect id client lastEventId hid =>
    intro i x hx
    rcases (connection?_of_append (comes_connect s id client lastEventId).connections).mp hx with
      hx | ⟨-, rfl⟩
    · exact htidy i x hx
    · exact EventStream.tidy_connectionOf ..
  | spawn t ht => exact htidy
  | forget tasks hmem hkept => exact htidy
  | name => exact htidy
  | read choice number =>
    rw [readStream]
    split
    · exact htidy
    · exact EventStream.tidy_poll htidy choice s.shutdown _
  | drop number =>
    rw [dropStream]
    split
    · exact htidy
    · exact EventStream.tidy_leave htidy _
  | shutDown => exact htidy
  | outside c hconnections hserver => exact (Onward.of_connections hconnections).tidy htidy

theorem Run.tidy (hrun : Run s₀ s) (htidy : s₀.cluster.Tidy) : s.cluster.Tidy := by
  induction hrun with
  | refl => exact htidy
  | tail _ hstep ih => exact hstep.tidy ih

theorem inOrder_of_run (hstarts : Starts s₀) (hrun : Run s₀ s) {x : Cluster.Server}
    (hx : s.cluster.server? place = some x) : InOrder place x s.cluster := by
  refine ⟨(Run.inv hrun hstarts.inv).located, hx, Run.tidy hrun fun h x hx => ?_⟩
  rw [connection?, hstarts.connections] at hx
  cases hx

end Server

end EventHub.Web
