import EventHub.Cluster.Registration
/-!
# Calls on the store

What one step of a call on the store may come to, and from this what a step of a registration or a
removal may come to.
-/

namespace EventHub.Cluster

/-- A step of a call leaves the store alone until the call ends; then the call fails without effect
or takes effect as a whole. -/
inductive CallStep (c : Cluster) (call : Store.Call) :
    Cluster × Progress StoreWait (Except Error Nat) → Prop where
  | blocked : CallStep c call (c, .blocked)
  | moved (calls : List Store.Call) (w : StoreWait) :
      CallStep c call ({ c with storeCalls := calls }, .moved w)
  | failed (calls : List Store.Call) (e : Error) (htrouble : c.trouble? call = some e) :
      CallStep c call ({ c with storeCalls := calls }, .done (.error e))
  | performed (calls : List Store.Call) (htrouble : c.trouble? call = none) :
      CallStep c call ({ c with storeCalls := calls, store := (c.store.perform call).1 },
        .done (.ok (c.store.perform call).2))

theorem callStep_finishCall (c : Cluster) (call : Store.Call) (calls : List Store.Call) :
    CallStep c call (({ c with storeCalls := calls }.finishCall call).1,
      .done ({ c with storeCalls := calls }.finishCall call).2) := by
  unfold finishCall
  split
  · next e he => exact .failed calls e he
  · next hnone => exact .performed calls hnone

theorem stepCall_step (c : Cluster) (call : Store.Call) (w : StoreWait) :
    CallStep c call (c.stepCall call w) := by
  unfold stepCall
  split
  · dsimp only
    split
    · exact callStep_finishCall c call (c.storeCalls ++ [call])
    · exact .moved _ _
  · split
    · exact callStep_finishCall c call c.storeCalls
    · exact .blocked

end EventHub.Cluster
