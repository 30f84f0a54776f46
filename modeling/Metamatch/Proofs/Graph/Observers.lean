import Metamatch.Proofs.Graph.After

/-!
# Observers on the list of a slot

Neither publications nor references concern the observers of a slot, apart from their order.

* `Graph.observers_publish`: publications leave the observers as they are.
* `Graph.observers_subscribe`, `Graph.observers_detach`: references move them at most.
-/

namespace Metamatch

/-- The number of an observer that an outcome concerns. -/
def Subscriber.called? (empty : Bool) : Subscriber → Option Nat
  | .observer trigger number => if trigger.fires empty then some number else none
  | .matcher _ => none

namespace Graph

variable {g g' : Graph} {m d s : Slot} {empty : Bool}

theorem observers_eq : g.observers s empty =
    ((g.get? s).map (·.subscribers)).elim [] (List.filterMap (Subscriber.called? empty)) := by
  rw [observers]
  cases g.get? s <;> rfl

theorem observers_publish {values : List Entity} {sweep : Nat}
    (h : g.publish d values sweep = .ok g') : g'.observers s empty = g.observers s empty := by
  have hsubscribers : (g'.get? s).map (·.subscribers) = (g.get? s).map (·.subscribers) := by
    obtain ⟨_, -, -, -, hget⟩ := publish_cases h
    rw [hget, Option.map_map]
    rfl
  rw [observers_eq, observers_eq, hsubscribers]

theorem observers_modify {f : Node → Node}
    (hf : ∀ node, (f node).subscribers = node.subscribers) :
    (g.modify d f).observers s empty = g.observers s empty := by
  rw [observers_eq, observers_eq, get?_modify, Option.map_map]
  refine congrArg (Option.elim · [] _) (congrArg (Option.map · (g.get? s)) (funext fun node => ?_))
  by_cases hd : d = s <;> simp [hd, hf]

theorem observers_subscribe : (g.subscribe m d).observers s empty = g.observers s empty := by
  rw [observers_eq, observers_eq, get?_subscribe]
  cases g.get? s with
  | none => rfl
  | some node => by_cases hd : d = s <;> simp [hd, Subscriber.called?]

theorem observers_unsubscribe :
    ((g.unsubscribe m d).observers s empty).Perm (g.observers s empty) := by
  unfold unsubscribe
  split
  · exact .refl _
  · next node hnode =>
    split
    · exact .refl _
    · next index hindex =>
      rw [← drop, observers_eq, observers_eq, get?_drop, Option.map_map]
      by_cases hs : d = s
      · subst hs
        have hfilter : ((node.subscribers.erase (.matcher m)).filterMap
            (Subscriber.called? empty)).Perm
            (node.subscribers.filterMap (Subscriber.called? empty)) := by
          have hmem : Subscriber.matcher m ∈ node.subscribers :=
            List.isSome_idxOf?.1 (Option.isSome_of_eq_some hindex)
          exact ((List.perm_cons_erase hmem).filterMap (Subscriber.called? empty)).symm
        simpa [hnode] using ((swapRemove_perm_erase hindex).filterMap _).trans hfilter
      · simp [hs, Function.comp_def]

theorem observers_detach : ((g.detach m).observers s empty).Perm (g.observers s empty) := by
  unfold detach
  induction g.references m generalizing g with
  | nil => exact .refl _
  | cons d rest ih => exact ih.trans observers_unsubscribe

end Graph

end Metamatch
