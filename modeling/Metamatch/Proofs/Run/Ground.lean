import Metamatch.Proofs.Graph.Balance
import Metamatch.Proofs.Search

/-!
# The ground of a run

The sweeps of a run start from a graph in which nothing is searched for yet. Everything later is
this graph with what is published.

* `Ground`: a graph without publications, and the matchers that gave up their references.
* `Ground.Ready`: the slots that can be published.
* `Run.Finds`: the values that a search may come to, none if it fails.
* `Ground.Sound`: publications that searches may have led to, one after the other.
* `Ground.Sound.add`: one publication more.
-/

namespace Metamatch

variable {σ : Type}

/-- The search for a matcher may come to these values, which are none if it fails. -/
def Run.Finds (ctx : RunContext σ) (g : Graph) (slot : Slot) (values : List Entity) : Prop :=
  ∃ node trace, g.get? slot = some node ∧
    (Run.search ctx g slot node trace : Except TaskError (List Entity) × Trace σ).1.toOption.getD []
      = values

/-- A graph without publications, and the matchers that have given up their references. -/
structure Ground where
  graph : Graph
  detached : List Slot
  fresh : graph.Fresh fun m => if m ∈ detached then [] else graph.references m

namespace Ground

variable (ground : Ground)

/-- The references that a matcher has not given up. -/
def refs (m : Slot) : List Slot := if m ∈ ground.detached then [] else ground.graph.references m

/-- The graph once given publications are out. -/
def after (pub : Publications) : Graph := ground.graph.after ground.refs pub

/-- The slot is there, unpublished, and awaits nothing. -/
structure Ready (pub : Publications) (s : Slot) : Prop where
  inRange : s < ground.graph.size
  unpublished : pub s = none
  references : ∀ d ∈ ground.refs s, pub d ≠ none

/-- Publications that searches may have led to, one after the other: each of them is of a slot of
the graph, follows those that it refers to, and holds what a search may come to, unless the slot
has given up its references. -/
structure Sound (ctx : RunContext σ) (pub : Publications) : Prop where
  inRange : ∀ s, pub s ≠ none → s < ground.graph.size
  closed : ∀ m, pub m ≠ none → ∀ d ∈ ground.refs m, pub d ≠ none
  found : ∀ s published, pub s = some published → s ∉ ground.detached →
    Run.Finds ctx (ground.after pub) s published.values

variable {ground} {ctx : RunContext σ} {pub pub' : Publications} {s t : Slot}
  {values : List Entity} {sweep : Nat}

theorem fresh_refs : ground.graph.Fresh ground.refs := ground.fresh

theorem size_after : (ground.after pub).size = ground.graph.size := Graph.size_after

theorem get?_after :
    (ground.after pub).get? s = (ground.graph.get? s).map (·.after (ground.refs s) pub (pub s)) :=
  Graph.get?_after

theorem balanced_after : (ground.after pub).Balanced := ground.fresh_refs.balanced_after

/-! ## Searches -/

theorem refs_of_get? {node : Node} (h : ground.graph.get? s = some node)
    (hs : s ∉ ground.detached) : ground.refs s = node.constraints.references := by
  rw [refs, if_neg hs, Graph.references_of_get? h]

theorem search_after {g : Graph} {node : Node} {refs : List Slot} {own : Option Published} :
    Run.search ctx g s (node.after refs pub own) =
      if pub.missed refs > 0 ∧ ctx.config.missPolicy = .forceEmpty then pure []
      else Run.scan ctx g s node := rfl

theorem shares_after (hr : ∀ d ∈ ground.refs s, pub d ≠ none)
    (h : ∀ d ∈ ground.refs s, pub' d = pub d) :
    Graph.Shares id (ground.after pub) (ground.after pub') (ground.refs s) := by
  intro d hd
  obtain ⟨published, hp⟩ := Option.ne_none_iff_exists'.1 (hr d hd)
  have hsize := ground.fresh_refs.inRange s d hd
  refine ⟨published.values, ?_, ?_⟩
  · rw [after, Graph.valuation_after hsize, hp]
    rfl
  · rw [id, after, Graph.valuation_after hsize, h d hd, hp]
    rfl

/-- The search for a matcher whose references are published stays the same from then on. -/
theorem finds_congr (hs : s ∉ ground.detached) (hr : ∀ d ∈ ground.refs s, pub d ≠ none)
    (h : ∀ d ∈ ground.refs s, pub' d = pub d) (hf : Run.Finds ctx (ground.after pub) s values) :
    Run.Finds ctx (ground.after pub') s values := by
  obtain ⟨node, trace, hnode, rfl⟩ := hf
  obtain ⟨old, hold, rfl⟩ := Option.map_eq_some_iff.1 (get?_after ▸ hnode)
  refine ⟨old.after (ground.refs s) pub' (pub' s), trace, by rw [get?_after, hold]; rfl, ?_⟩
  have hmissed : pub'.missed (ground.refs s) = pub.missed (ground.refs s) :=
    List.countP_congr fun d hd => by rw [h d hd]
  have hshares := shares_after hr h
  rw [refs_of_get? hold hs] at hshares
  rw [search_after, search_after, hmissed, Run.scan_shares ctx hshares]

/-! ## One publication more -/

theorem add_of_ne (h : t ≠ s) : pub.add s values sweep t = pub t := Function.update_of_ne h _ _

theorem add_self : pub.add s values sweep s = some ⟨values, sweep⟩ := Function.update_self _ _ _

theorem add_ne_none (h : pub t ≠ none) : pub.add s values sweep t ≠ none := by
  by_cases ht : t = s
  · subst ht
    rw [add_self]
    exact Option.some_ne_none _
  · rwa [add_of_ne ht]

theorem add_of_published (hs : pub s = none) (ht : pub t ≠ none) :
    pub.add s values sweep t = pub t :=
  add_of_ne fun h => ht (h ▸ hs)

/-- A publication that the search may have led to keeps publications sound. -/
theorem Sound.add (h : ground.Sound ctx pub) (hs : ground.Ready pub s)
    (hf : s ∉ ground.detached → Run.Finds ctx (ground.after pub) s values) (sweep : Nat) :
    ground.Sound ctx (pub.add s values sweep) where
  inRange t ht := by
    by_cases hts : t = s
    · exact hts ▸ hs.inRange
    · exact h.inRange t (by rwa [add_of_ne hts] at ht)
  closed m hm d hd := by
    by_cases hms : m = s
    · exact add_ne_none (hs.references d (hms ▸ hd))
    · exact add_ne_none (h.closed m (by rwa [add_of_ne hms] at hm) d hd)
  found t published ht htd := by
    have hkeep : (∀ d ∈ ground.refs t, pub d ≠ none) →
        ∀ d ∈ ground.refs t, pub.add s values sweep d = pub d :=
      fun hr d hd => add_of_published hs.unpublished (hr d hd)
    by_cases hts : t = s
    · subst hts
      rw [add_self, Option.some.injEq] at ht
      subst ht
      exact finds_congr htd hs.references (hkeep hs.references) (hf htd)
    · rw [add_of_ne hts] at ht
      have hr := h.closed t (by simp [ht])
      exact finds_congr htd hr (hkeep hr) (h.found t published ht htd)

theorem publish_after (hs : ground.Ready pub s) (values : List Entity) (sweep : Nat) :
    (ground.after pub).publish s values sweep = .ok (ground.after (pub.add s values sweep)) :=
  Graph.publish_after ground.fresh_refs hs.inRange hs.unpublished hs.references values sweep

theorem Sound.publish_safe (h : ground.Sound ctx pub) (hs : ground.Ready pub s)
    (values : List Entity) (sweep : Nat) :
    Step.Safe ⟨ground.after pub, .publish s values sweep⟩ where
  balanced := balanced_after
  covered :=
    ground.fresh_refs.publish_covered hs.unpublished
      (fun hd => hs.references s hd hs.unpublished)
      (fun m hm hd => h.closed m hm s hd hs.unpublished) values sweep

end Ground

end Metamatch
