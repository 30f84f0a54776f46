import Metamatch.Proofs.Run.Completion

/-!
# The meaning of a session

A run finds out what the equations of its session say, in whatever order it gets there.

* `Session.Finished.published`: at the end, every matcher that is not left out is published.
* `Session.Finished.solves`: what is published solves the equations.
* `values_of_execute`: a run publishes the solution, each matcher once.
-/

namespace Metamatch

variable {σ : Type}

theorem Publications.missed_pos {pub : Publications} {refs : List Slot}
    (hr : ∀ d ∈ refs, pub d ≠ none) : pub.missed refs > 0 ↔ ∃ d ∈ refs, pub.values d = [] := by
  rw [missed, gt_iff_lt, List.countP_pos_iff]
  refine exists_congr fun d => and_congr_right fun hd => ?_
  obtain ⟨published, hp⟩ := Option.ne_none_iff_exists'.1 (hr d hd)
  simp [values, hp]

namespace Session

variable {session : Session} {lists : List (List String)} {host : Host σ} {world : σ}
  {ground : Ground} {pub : Publications} {m : Slot} {arrange : List Slot → List Slot}

theorem Grounds.values_of_finds (h : session.Grounds host world ground) (hsteady : host.Steady)
    (hlookup : (session.seeds host world).lookup m = none)
    (hr : ∀ d ∈ ground.refs m, pub d ≠ none) {values : List Entity}
    (hf : Run.Finds (session.context arrange lists host) (ground.after pub) m values) :
    values = session.equation lists host world pub.values m := by
  obtain ⟨node, trace, hnode, rfl⟩ := hf
  obtain ⟨old, hold, rfl⟩ := Option.map_eq_some_iff.1 (Ground.get?_after ▸ hnode)
  have hmissed : pub.missed (ground.refs m) > 0 ↔
      ∃ d ∈ session.dependencies host world m, pub.values d = [] :=
    h.refs_eq ▸ Publications.missed_pos hr
  rw [equation, hlookup, ← h.graph, hold, Ground.search_after]
  dsimp only [Option.elim_some]
  by_cases hforce : session.config.missPolicy = .forceEmpty ∧
      ∃ d ∈ session.dependencies host world m, pub.values d = []
  · rw [if_pos hforce, if_pos ⟨hmissed.2 hforce.2, hforce.1⟩]
    rfl
  · rw [if_neg hforce, if_neg fun hf => hforce ⟨hf.2, hmissed.1 hf.1⟩]
    have hshares : Graph.Shares id (ground.after pub) (ground.graph.fill pub.values)
        old.constraints.references := by
      rw [← Ground.refs_of_get? hold (h.not_detached hlookup)]
      intro d hd
      have hsize := ground.fresh_refs.inRange m d hd
      obtain ⟨published, hp⟩ := Option.ne_none_iff_exists'.1 (hr d hd)
      refine ⟨pub.values d, ?_, Graph.valuation_fill hsize⟩
      rw [Ground.after, Graph.valuation_after hsize, Publications.values, hp]
      rfl
    have hscan : ∀ slot slot' node, Alike (Run.scan (session.context id lists host)
        (ground.graph.fill pub.values) slot node) (Run.scan (session.context id lists host)
        (ground.graph.fill pub.values) slot' node) := hsteady.scan_alike
    rw [Run.scan_shares _ hshares, scanned, ← h.graph]
    exact congrArg (fun outcome => (Except.toOption outcome).getD [])
      (hscan m 0 old trace ⟨world, []⟩)

variable {result : MatchResult} {p : Progress σ}

theorem Finished.published
    (h : session.Finished (session.context arrange lists host) world ground pub result p)
    (hacyclic : session.Acyclic host world) (hm : session.Unpruned host world m) :
    pub m ≠ none :=
  (h.published_iff hm).2 fun ⟨c, _, hc⟩ => hacyclic c (Relation.transGen_swap.1 hc)

theorem Finished.taken {ctx : RunContext σ}
    (h : session.Finished ctx world ground pub result p) {values : List Entity}
    (hlookup : (session.seeds ctx.host world).lookup m = some values) :
    pub m = some ⟨values, 0⟩ := by
  have hseed : session.seedPublications ctx.host world m = some ⟨values, 0⟩ := by
    rw [seedPublications, hlookup]
    rfl
  have hne : session.seedPublications ctx.host world m ≠ none := by simp [hseed]
  exact (h.sweeps.grows m hne).trans hseed

theorem Finished.values_of_taken {ctx : RunContext σ}
    (h : session.Finished ctx world ground pub result p) {values : List Entity}
    (hlookup : (session.seeds ctx.host world).lookup m = some values) : pub.values m = values := by
  rw [Publications.values, h.taken hlookup]
  rfl

theorem Finished.solves_of_unseeded
    (h : session.Finished (session.context arrange lists host) world ground pub result p)
    (hsteady : host.Steady) (hlookup : (session.seeds host world).lookup m = none)
    (hm : pub m ≠ none) : pub.values m = session.equation lists host world pub.values m := by
  have hground : session.Grounds host world ground := h.grounds
  obtain ⟨published, hp⟩ := Option.ne_none_iff_exists'.1 hm
  have hfound := h.standing.sound.found m published hp (hground.not_detached hlookup)
  rw [← hground.values_of_finds hsteady hlookup (h.standing.sound.closed m hm) hfound,
    Publications.values, hp]
  rfl

/-- The published values solve the equations. -/
theorem Finished.solves
    (h : session.Finished (session.context arrange lists host) world ground pub result p)
    (hsteady : host.Steady) (hacyclic : session.Acyclic host world) :
    session.Solves lists host world pub.values := by
  intro m hm
  cases hlookup : (session.seeds host world).lookup m with
  | some values =>
    rw [h.values_of_taken hlookup, equation, hlookup]
  | none => exact h.solves_of_unseeded hsteady hlookup (h.published hacyclic hm)

theorem Finished.outcome_pruned_iff
    (h : session.Finished (session.context arrange lists host) world ground pub result p)
    (hacyclic : session.Acyclic host world) {report : Report}
    (hr : result.report? m = some report) :
    report.outcome = .pruned ↔ ¬ session.Unpruned host world m := by
  have hground : session.Grounds host world ground := h.grounds
  obtain ⟨node', hnode', ht⟩ := h.tells.get? hr
  rw [h.standing.graph] at hnode'
  obtain ⟨node, hnode, rfl⟩ := Option.map_eq_some_iff.1 (Ground.get?_after ▸ hnode')
  rw [ht.outcome, Node.outcome]
  constructor
  · intro houtcome hm
    obtain ⟨published, hp⟩ := Option.ne_none_iff_exists'.1 (h.published hacyclic hm)
    simp only [Node.after, hp] at houtcome
    split_ifs at houtcome
  · intro hm
    have hpruned : node.isPruned session.config.pruneUnconsumed = true := by
      by_contra hpruned
      refine hm ⟨hground.size_eq ▸ Graph.lt_size hnode, ?_⟩
      rwa [← hground.graph, Graph.Pruned, hnode, Option.any_some]
    simp only [Node.after, h.unpublished hm]
    exact if_pos hpruned

end Session

/-- **A run finds the meaning of its session.** The equations of the matchers have one solution,
whatever their numbers, and a run publishes it, whatever the order of its tasks. -/
theorem values_of_execute {session : Session} {arrange : List Slot → List Slot}
    {lists : List (List String)} {host : Host σ} {world : σ} {result : MatchResult}
    {final : Progress σ} (hg : session.graph.Built)
    (harrange : ∀ items, (arrange items).Perm items) (hsteady : host.Steady)
    (hacyclic : session.Acyclic host world)
    (hrun : session.execute arrange lists host world = (.ok result, final)) :
    ∃ v, session.Solves lists host world v ∧
      (∀ v', session.Solves lists host world v' →
        ∀ m, session.Unpruned host world m → v' m = v m) ∧
      (∀ session' π, session'.graph.Built → session.Renumbered π session' →
        ∀ v', session'.Solves lists host world v' →
          ∀ m, session.Unpruned host world m → v' (π m) = v m) ∧
      (∀ m, session.Unpruned host world m →
        final.steps.filterMap (·.change.valuesFor? m) = [v m] ∧
        ∃ report, result.report? m = some report ∧ report.values = v m ∧
          report.outcome = if v m = [] then .missed else .resolved) ∧
      ∀ m report, result.report? m = some report →
        (report.outcome = .pruned ↔ ¬ session.Unpruned host world m) := by
  have hends := session.execute_ends hg harrange lists host world
  rw [hrun] at hends
  obtain ⟨ground, pub, h⟩ := hends
  have hground : session.Grounds host world ground := h.grounds
  have hsolves := h.solves hsteady hacyclic
  refine ⟨pub.values, hsolves, fun v' hv' m hm => ?_, fun session' π hg' hπ v' hv' m hm => ?_,
    fun m hm => ?_, fun m report hr => h.outcome_pruned_iff hacyclic hr⟩
  · exact hsolves.unique hv' (.refl session) hsteady hg hg hacyclic hm
  · exact hsolves.unique hv' hπ hsteady hg hg' hacyclic hm
  · obtain ⟨node, hnode, -⟩ := hground.node_of_unpruned hm
    obtain ⟨published, hp⟩ := Option.ne_none_iff_exists'.1 (h.published hacyclic hm)
    have hvalues : pub.values m = published.values := by
      rw [Publications.values, hp]
      rfl
    constructor
    · rw [h.standing.recorded.publications hg.fresh.valuation_eq_none, h.standing.graph,
        Ground.after, Graph.valuation_after (Graph.lt_size hnode), hp, hvalues]
      rfl
    · obtain ⟨report, hr, ht⟩ := h.report hnode
      refine ⟨report, hr, ht.values, ?_⟩
      rw [ht.outcome, Node.outcome, hvalues]
      simp only [Node.after, hp, List.isEmpty_iff]

namespace Sample

theorem steady : host.Steady := by
  constructor
  case constructors | judge => exact fun _ _ _ => rfl
  all_goals exact fun _ => Call.ofExcept_constant _

theorem acyclic : (session calls).Acyclic host 0 := by
  refine Session.acyclic_of_lt fun m => ?_
  by_cases hm : m < 8
  · revert m
    decide +kernel
  · have hnone : (session calls).graph.get? m = none :=
      Graph.get?_eq_none (Nat.le_trans (by decide +kernel) (Nat.not_lt.1 hm))
    simp [Session.dependencies, Graph.references, hnone]

end Sample

theorem values_of_sample :
    ∃ v, (Sample.session Sample.calls).Solves [["B", "A"]] Sample.host 0 v ∧
      ∀ m < 7, (Sample.run Sample.calls).2.steps.filterMap (·.change.valuesFor? m) = [v m] := by
  have hunpruned : ∀ m < 7, (Sample.session Sample.calls).Unpruned Sample.host 0 m := by
    decide +kernel
  have hok : (Sample.run Sample.calls).1.toOption.isSome = true := by decide +kernel
  generalize hrun : Sample.run Sample.calls = r at hok
  rcases r with ⟨e | result, final⟩
  · cases hok
  · obtain ⟨v, hsolves, -, -, hvalues, -⟩ := values_of_execute (Sample.built _ (by decide +kernel))
      (fun items => items.reverse_perm) Sample.steady Sample.acyclic hrun
    exact ⟨v, hsolves, fun m hm => (hvalues m (hunpruned m hm)).1⟩

example : (Sample.run Sample.calls).1.toOption.map (·.reports.map fun report =>
    (report.outcome, report.values)) =
    some [(.resolved, [.cls ⟨0⟩]), (.resolved, [.cls ⟨1⟩]), (.resolved, [.method ⟨⟨0⟩, 0⟩]),
      (.missed, []), (.missed, []), (.resolved, [.cls ⟨1⟩]), (.resolved, [.field ⟨⟨1⟩, 0⟩]),
      (.pruned, [])] := by
  decide +kernel

end Metamatch
