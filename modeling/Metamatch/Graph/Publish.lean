import Metamatch.Graph

/-!
# Publication

* `Graph.publish`: the final values of a slot, which release its dependents.
* `Graph.observers`: the observers to call about them.
-/

namespace Metamatch

/-- The outcome is the one that an observer waits for. -/
def Trigger.fires (empty : Bool) : Trigger → Bool
  | .onMatch => !empty
  | .onMiss => empty

namespace Node

/-- One awaited reference less. It counts as missed if its slot was published empty. -/
def release (missed : Bool) (node : Node) : Node :=
  { node with
    counter := node.counter - 1
    missed := if missed then node.missed + 1 else node.missed }

end Node

namespace Graph

/-- Release every dependent on a list of subscribers, once for each reference. -/
def releaseAll (missed : Bool) (g : Graph) (subscribers : List Subscriber) : Graph :=
  subscribers.foldl (fun g subscriber =>
    match subscriber with
    | .matcher dependent => g.modify dependent (·.release missed)
    | .observer _ _ => g) g

/-- Publish the values of a slot, which has to be ready. An empty publication releases the
dependents too, so that none waits for ever. -/
def publish (g : Graph) (slot : Slot) (values : List Entity) (sweep : Nat) :
    Except SessionError Graph :=
  match g.get? slot with
  | none => .error (.dependencyInvariant slot 0)
  | some node =>
    if node.counter ≠ 1 then .error (.dependencyInvariant slot node.counter)
    else if node.published.isSome then .error (.alreadyResolved slot)
    else
      .ok <| releaseAll values.isEmpty
        (g.modify slot fun node => { node with counter := 0, published := some ⟨values, sweep⟩ })
        node.subscribers

/-- The observers of a slot that an outcome concerns, in the order in which they were attached. -/
def observers (g : Graph) (slot : Slot) (empty : Bool) : List Nat :=
  match g.get? slot with
  | none => []
  | some node => node.subscribers.filterMap fun
    | .observer trigger number => if trigger.fires empty then some number else none
    | .matcher _ => none

end Graph

end Metamatch
