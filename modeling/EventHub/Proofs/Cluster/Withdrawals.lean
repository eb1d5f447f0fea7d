import EventHub.Proofs.Cluster.Deliveries
/-!
# Deliveries that are cancelled

The token of a delivery may be cancelled at any time: before the call, or while some of its sends
have ended and others are in line. A delivery that ends as cancelled has removed nobody, and what
its sends have done shows in the connections only.
-/

namespace EventHub.Cluster

variable {c : Cluster} {s : Nat} {server : Server} {target : Option ClientId} {event : Event}
  {cancelled : Bool} {e : DeliveryErrand}

def publicize (s : Nat) (c : Cluster) (cancelled : Bool) (p : Publication) :
    Cluster × Progress Publication (Except Error Unit) := c.stepPublication cancelled s p

def crowdServer : Server :=
  { id := ⟨"s"⟩, registry := crowdRegistry, sharing := some ⟨60000, 20000⟩ }

theorem inOrder_crowded : InOrder 0 crowdServer crowded := by
  refine ⟨⟨registry_crowded ▸ agrees_crowd, ready_crowded.member⟩, rfl, fun h x hx => ?_⟩
  have htidy : ∀ x ∈ crowd, x.writer.Tidy := by
    have hroom : ({ Outbox.ofSettings 1 5 with queue := [""] } : Outbox).Tidy :=
      ⟨by simp [Outbox.Orderly, Outbox.turns, Outbox.ofSettings], List.nodup_nil⟩
    simp [crowd, Writer.Tidy, hroom]
  exact htidy x (List.mem_of_getElem? hx)

end EventHub.Cluster
