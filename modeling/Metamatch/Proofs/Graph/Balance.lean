import Metamatch.Progress
import Metamatch.Proofs.Graph.After

/-!
# Counters in the course of a run

* `Graph.Balanced`: what the counters of a graph say of its lists and publications.
* `Graph.Fresh.balanced_after`: they say so whatever is published.
* `Change.Turns`, `Change.Covered`: the outcome of a change, and the counters that pay for it.
* `Recorded`: steps that lead from one graph to another.
* `Recorded.publicationsOf`: what such steps publish of a slot.
-/

namespace Metamatch

/-- Counters that agree with lists and publications: a counter is 0 from the publication of its
matcher on, and is one more than the number of subscriptions to unpublished slots until then; a
missed counter is the number of subscriptions to slots that were published empty. -/
structure Graph.Balanced (g : Graph) : Prop where
  published : ∀ m node, g.get? m = some node → (node.counter = 0 ↔ node.published.isSome)
  awaited : ∀ m node, g.get? m = some node → node.published = none →
    node.counter = 1 + ∑ s ∈ Finset.range g.size with g.valuation s = none, g.subscriptions m s
  missed : ∀ m node, g.get? m = some node →
    node.missed = ∑ s ∈ Finset.range g.size with g.valuation s = some [], g.subscriptions m s

namespace Graph

variable {g : Graph} {m d s : Slot} {refs : Slot → List Slot} {pub : Publications} {node : Node}

@[simp] theorem subscriptions_after :
    (g.after refs pub).subscriptions m s = g.subscriptions m s := by
  rw [subscriptions, get?_after, subscriptions]
  cases g.get? s <;> rfl

theorem valuation_after (hs : s < g.size) :
    (g.after refs pub).valuation s = (pub s).map (·.values) := by
  obtain ⟨node, hnode⟩ := lt_size_iff.1 hs
  rw [valuation, get?_after, hnode]
  cases pub s <;> simp [Node.after]

namespace Fresh

/-- The subscriptions of a matcher to slots with `p` are its references with `p`. -/
theorem sum_subscriptions (h : g.Fresh refs) (m : Slot) (p : Slot → Prop) [DecidablePred p] :
    ∑ s ∈ Finset.range g.size with p s, g.subscriptions m s = (refs m).countP p := by
  simp only [h.subscriptions]
  exact sum_count_eq_countP (h.inRange m) p

/-- **Counters agree with lists and publications**, whatever is published. -/
theorem balanced_after (h : g.Fresh refs) : (g.after refs pub).Balanced := by
  refine ⟨fun m node hm => ?_, fun m node hm hp => ?_, fun m node hm => ?_⟩ <;>
    obtain ⟨old, hold, rfl⟩ := Option.map_eq_some_iff.1 (get?_after ▸ hm)
  · cases hpub : pub m <;> simp [Node.after]
  · have hpub : pub m = none := hp
    simp only [subscriptions_after, size_after, h.sum_subscriptions]
    simp only [Node.after, hpub, Option.isSome_none, Bool.false_eq_true, if_false]
    refine congrArg (1 + ·) (List.countP_congr fun s hs => ?_)
    simp [valuation_after (h.inRange m s hs)]
  · simp only [subscriptions_after, size_after, h.sum_subscriptions]
    refine List.countP_congr fun s hs => ?_
    rw [valuation_after (h.inRange m s hs)]
    cases pub s <;> simp

end Fresh

end Graph

/-! ## Steps on record -/

/-- The change was made and gave `g'`. -/
def Change.Turns (change : Change) (g g' : Graph) : Prop :=
  match change with
  | .detach slot => (∀ d ∈ g.references slot, d < g.size) ∧ g.detach slot = g'
  | .publish slot values sweep => g.publish slot values sweep = .ok g'

/-- No counter is asked for more than it holds. To detach a matcher takes one for each of its
references off its counter, and to publish a slot takes one for each subscription off the counter
of the subscriber, which for the slot itself is 0 by then. -/
def Change.Covered (change : Change) (g : Graph) : Prop :=
  match change with
  | .detach slot => ∀ node, g.get? slot = some node → (g.references slot).length < node.counter
  | .publish slot _ _ => ∀ m node, g.get? m = some node →
    g.subscriptions m slot ≤ if m = slot then 0 else node.counter

/-- Steps, the latest first, that lead from one graph to another. -/
def Recorded (start : Graph) : List Step → Graph → Prop
  | [], g => g = start
  | step :: rest, g => step.change.Turns step.before g ∧ Recorded start rest step.before

/-- A step from a graph in balance, with counters that pay for it. -/
structure Step.Safe (step : Step) : Prop where
  balanced : step.before.Balanced
  covered : step.change.Covered step.before

theorem Graph.publish_release {g g' : Graph} {s : Slot} {values : List Entity} {sweep : Nat}
    (h : g.publish s values sweep = .ok g') {m : Slot} (hm : m ≠ s) {node : Node}
    (hnode : g.get? m = some node) :
    ∃ released, g'.get? m = some released ∧
      released.counter = node.counter - g.subscriptions m s := by
  obtain ⟨published, hs, -, -, hget⟩ := publish_cases h
  refine ⟨_, by rw [hget, hnode]; rfl, ?_⟩
  simp [subscriptions, hs, Ne.symm hm]

/-- A safe step finds as much on each counter as it takes off. -/
theorem Step.Safe.released {before g : Graph} {s : Slot} {values : List Entity} {sweep : Nat}
    (h : Step.Safe ⟨before, .publish s values sweep⟩)
    (hpublish : before.publish s values sweep = .ok g) {m : Slot} {node : Node} (hm : m ≠ s)
    (hnode : before.get? m = some node) :
    ∃ released, g.get? m = some released ∧
      released.counter + before.subscriptions m s = node.counter := by
  obtain ⟨released, hreleased, hcounter⟩ := Graph.publish_release hpublish hm hnode
  have hcovered : before.subscriptions m s ≤ node.counter := by
    have hle := h.covered m node hnode
    rwa [if_neg hm] at hle
  refine ⟨released, hreleased, ?_⟩
  rw [hcounter]
  exact Nat.sub_add_cancel hcovered

namespace Graph.Fresh

variable {g : Graph} {s : Slot} {refs : Slot → List Slot} {pub : Publications}

theorem publish_covered (h : g.Fresh refs) (hpub : pub s = none)
    (hself : s ∉ refs s) (hclosed : ∀ m, pub m ≠ none → s ∉ refs m) (values : List Entity)
    (sweep : Nat) : (Change.publish s values sweep).Covered (g.after refs pub) := by
  intro m node hm
  obtain ⟨old, hold, rfl⟩ := Option.map_eq_some_iff.1 (get?_after ▸ hm)
  rw [subscriptions_after, h.subscriptions]
  split_ifs with hms
  · rw [hms, List.count_eq_zero_of_not_mem hself]
  · cases hm : pub m with
    | some published =>
      rw [List.count_eq_zero_of_not_mem (hclosed m (by simp [hm]))]
      exact Nat.zero_le _
    | none =>
      have := Publications.awaited_add hpub values sweep (refs m)
      simp only [Node.after, Option.isSome_none, Bool.false_eq_true, if_false]
      omega

end Graph.Fresh

/-! ## Publications on record -/

/-- What a change publishes of a slot. -/
def Change.publicationOf? (s : Slot) : Change → Option Published
  | .publish slot values sweep => if slot = s then some ⟨values, sweep⟩ else none
  | .detach _ => none

/-- The values that a change publishes for a slot. -/
def Change.valuesFor? (s : Slot) : Change → Option (List Entity)
  | .publish slot values _ => if slot = s then some values else none
  | .detach _ => none

theorem Change.valuesFor?_eq (s : Slot) (change : Change) :
    change.valuesFor? s = (change.publicationOf? s).map (·.values) := by
  cases change with
  | detach slot => rfl
  | publish slot values sweep =>
    rw [valuesFor?, publicationOf?]
    split_ifs <;> rfl

namespace Graph

variable {g g' : Graph} {s t : Slot}

/-- What is published of a slot. -/
def publication? (g : Graph) (s : Slot) : Option Published := (g.get? s).bind (·.published)

theorem publication?_eq : g.publication? s = ((g.get? s).map (·.published)).bind id := by
  rw [publication?, Option.bind_map]
  rfl

theorem valuation_eq_map : g.valuation s = (g.publication? s).map (·.values) := by
  rw [valuation, publication?]
  cases g.get? s with
  | none => rfl
  | some node => cases h : node.published <;> simp [h]

theorem valuation_eq :
    g.valuation s = ((g.get? s).map (·.published)).bind (Option.map (·.values)) := by
  rw [valuation_eq_map, publication?]
  cases g.get? s <;> rfl

theorem Fresh.publication?_eq_none {refs : Slot → List Slot} (h : g.Fresh refs) :
    g.publication? s = none := by
  rw [publication?]
  cases hs : g.get? s with
  | none => rfl
  | some node => exact (h.node s node hs).published

theorem Fresh.valuation_eq_none {refs : Slot → List Slot} (h : g.Fresh refs) :
    g.valuation s = none := by
  rw [valuation_eq_map, h.publication?_eq_none]
  rfl

theorem publication?_detach : (g.detach s).publication? t = g.publication? t := by
  rw [publication?_eq, publication?_eq, map_get?_detach fun _ _ _ _ => rfl]

theorem publication?_publish {values : List Entity} {sweep : Nat}
    (h : g.publish s values sweep = .ok g') :
    g.publication? s = none ∧
      ∀ t, g'.publication? t = if s = t then some ⟨values, sweep⟩ else g.publication? t := by
  obtain ⟨node, hnode, -, hpublished, hget⟩ := publish_cases h
  refine ⟨by rw [publication?, hnode]; exact hpublished, fun t => ?_⟩
  rw [publication?_eq, publication?_eq, hget]
  by_cases ht : s = t
  · subst ht
    simp [hnode]
  · cases g.get? t <;> simp [ht]

theorem valuation_publish {values : List Entity} {sweep : Nat}
    (h : g.publish s values sweep = .ok g') :
    g.valuation s = none ∧ ∀ t, g'.valuation t = if s = t then some values else g.valuation t := by
  obtain ⟨hnone, hpublication⟩ := publication?_publish h
  refine ⟨by rw [valuation_eq_map, hnone]; rfl, fun t => ?_⟩
  rw [valuation_eq_map, valuation_eq_map, hpublication]
  split_ifs <;> rfl

end Graph

namespace Recorded

variable {start g : Graph} {steps : List Step} {s : Slot}

theorem publicationsOf (h : Recorded start steps g) (hs : start.publication? s = none) :
    steps.filterMap (·.change.publicationOf? s) = (g.publication? s).toList := by
  induction steps generalizing g with
  | nil =>
    rw [show g = start from h, hs]
    rfl
  | cons step rest ih =>
    obtain ⟨hturns, hrest⟩ := h
    have hrest := ih hrest
    obtain ⟨before, change⟩ := step
    cases change with
    | detach slot =>
      rw [List.filterMap_cons_none rfl, hrest, ← hturns.2, Graph.publication?_detach]
    | publish slot values sweep =>
      obtain ⟨hnone, hpublication⟩ := Graph.publication?_publish hturns
      have hchange : (Change.publish slot values sweep).publicationOf? s =
          if slot = s then some ⟨values, sweep⟩ else none := rfl
      rw [hpublication]
      by_cases hslot : slot = s
      · subst hslot
        rw [if_pos rfl] at hchange ⊢
        simp only [List.filterMap_cons, hchange, hrest, hnone]
        rfl
      · rw [if_neg hslot] at hchange ⊢
        simp only [List.filterMap_cons, hchange, hrest]

theorem publications (h : Recorded start steps g) (hs : start.valuation s = none) :
    steps.filterMap (·.change.valuesFor? s) = (g.valuation s).toList := by
  have hnone : start.publication? s = none := by
    rw [Graph.valuation_eq_map, Option.map_eq_none_iff] at hs
    exact hs
  have hvalues : (fun step : Step => step.change.valuesFor? s) =
      fun step : Step => (step.change.publicationOf? s).map (·.values) :=
    funext fun step => step.change.valuesFor?_eq s
  rw [hvalues, ← List.map_filterMap, h.publicationsOf hnone, Graph.valuation_eq_map]
  cases g.publication? s <;> rfl

/-- Every change on record was made. -/
theorem exists_turns (h : Recorded start steps g) : ∀ step ∈ steps,
    ∃ g', step.change.Turns step.before g' := by
  induction steps generalizing g with
  | nil => simp
  | cons step rest ih => exact List.forall_mem_cons.2 ⟨⟨g, h.1⟩, ih h.2⟩

end Recorded

end Metamatch
