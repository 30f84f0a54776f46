import Metamatch.Proofs.Run.Equations
import Metamatch.Proofs.Run.SweepNumbers

/-!
# Completion

A run leaves nothing undone but what waits for itself.

* `ReachesCycle`: dependencies lead from a matcher to one that depends on itself.
* `Session.Finished.published_iff`: at the end, just these matchers are still waiting.
* `Session.Finished.outcome?_of_published`, `Session.Finished.outcome?_of_unpublished`: the outcome
  of a matcher by its publication.
* `outcomes_of_execute`: what the reports say of it.
-/

namespace Metamatch

/-! ## Dependencies that come back -/

/-- Dependencies lead from a matcher to one that depends on itself. -/
def ReachesCycle (dependencies : Slot → List Slot) (m : Slot) : Prop :=
  ∃ c, Relation.ReflTransGen (fun m d => d ∈ dependencies m) m c ∧
    Relation.TransGen (fun m d => d ∈ dependencies m) c c

section Cycles

variable {dependencies : Slot → List Slot} {m d : Slot}

theorem ReachesCycle.of_dependency (h : ReachesCycle dependencies d) (hd : d ∈ dependencies m) :
    ReachesCycle dependencies m := by
  obtain ⟨c, hc, hcycle⟩ := h
  exact ⟨c, .head hd hc, hcycle⟩

theorem ReachesCycle.exists_dependency (h : ReachesCycle dependencies m) :
    ∃ d ∈ dependencies m, ReachesCycle dependencies d := by
  obtain ⟨c, hc, hcycle⟩ := h
  rcases Relation.ReflTransGen.cases_head hc with rfl | ⟨d, hd, hdc⟩
  · obtain ⟨d, hd, hdm⟩ := Relation.TransGen.head'_iff.1 hcycle
    exact ⟨d, hd, m, hdm, hcycle⟩
  · exact ⟨d, hd, c, hdc, hcycle⟩

theorem ReachesCycle.mono {dependencies' : Slot → List Slot}
    (hsub : ∀ m, dependencies' m ⊆ dependencies m) (h : ReachesCycle dependencies' m) :
    ReachesCycle dependencies m := by
  obtain ⟨c, hc, hcycle⟩ := h
  exact ⟨c, hc.lift id fun m d hd => hsub m hd, hcycle.lift id fun m d hd => hsub m hd⟩

/-- From matchers that reach no cycle every chain of dependencies comes to an end. -/
theorem wellFounded_of_not_reachesCycle {n : Nat} (hrange : ∀ m, ∀ d ∈ dependencies m, d < n) :
    WellFounded fun d m => d ∈ dependencies m ∧ ¬ ReachesCycle dependencies m := by
  classical
  -- the dependencies of the others do not matter, and without them there is no cycle left
  let kept (m : Slot) : List Slot := if ReachesCycle dependencies m then [] else dependencies m
  have hkept : ∀ m d, d ∈ kept m ↔ d ∈ dependencies m ∧ ¬ ReachesCycle dependencies m := by
    intro m d
    by_cases hm : ReachesCycle dependencies m <;> simp [kept, hm]
  have hwf : WellFounded fun d m => d ∈ kept m := by
    refine Session.wellFounded_of_acyclic (fun m d hd => hrange m d ((hkept m d).1 hd).1) ?_
    intro m hm
    obtain ⟨d, -, hd⟩ := Relation.TransGen.tail'_iff.1 hm
    have hcycle : Relation.TransGen (fun d m => d ∈ dependencies m) m m :=
      hm.lift id fun d m h => ((hkept m d).1 h).1
    exact ((hkept m d).1 hd).2 ⟨m, .refl, Relation.transGen_swap.1 hcycle⟩
  simpa only [hkept] using hwf

end Cycles

namespace Session

variable {σ : Type} {session : Session} {host : Host σ} {world : σ} {ground : Ground}
  {pub : Publications} {m : Slot}

/-! ## What is left out -/

theorem Grounds.node_of_unpruned (h : session.Grounds host world ground)
    (hm : session.Unpruned host world m) : ∃ node, ground.graph.get? m = some node ∧
      node.isPruned session.config.pruneUnconsumed = false := by
  obtain ⟨node, hnode⟩ := Graph.lt_size_iff.1 (h.size_eq ▸ hm.1)
  have hpruned := hm.2
  rw [← h.graph, Graph.Pruned, hnode, Option.any_some, Bool.not_eq_true] at hpruned
  exact ⟨node, hnode, hpruned⟩

theorem Grounds.seeded_unpruned (h : session.Grounds host world ground)
    (hm : m ∈ session.seeded host world) : session.Unpruned host world m := by
  obtain ⟨node, hnode, hkey⟩ := (session.gathered host world).2 m hm
  exact h.unpruned_of_key hnode hkey

/-! ## The end of a run -/

namespace Finished

variable {arrange : List Slot → List Slot} {lists : List (List String)} {result : MatchResult}
  {p : Progress σ}

theorem unpublished
    (h : session.Finished (session.context arrange lists host) world ground pub result p)
    (hm : ¬ session.Unpruned host world m) : pub m = none := by
  have hground : session.Grounds host world ground := h.grounds
  by_contra hne
  by_cases hseed : session.seedPublications host world m = none
  · refine hm ⟨hground.size_eq ▸ h.standing.sound.inRange m hne, ?_⟩
    exact hground.graph ▸ h.sweeps.not_pruned hseed hne
  · exact hm (hground.seeded_unpruned (seedPublications_ne_none.1 hseed))

theorem not_reachesCycle
    (h : session.Finished (session.context arrange lists host) world ground pub result p)
    (hm : pub m ≠ none) : ¬ ReachesCycle ground.refs m := by
  have htimely := h.timely.1
  induction htime : 4 * pub.sweep m + ground.graph.rank m using Nat.strong_induction_on
    generalizing m with
  | _ time ih =>
    subst htime
    intro hcycle
    obtain ⟨d, hd, hdcycle⟩ := hcycle.exists_dependency
    have hmd : m ∉ ground.detached := fun hmd => by simp [Ground.refs, hmd] at hd
    have hlt := htimely.time_lt h.standing.sound.inRange hm hmd hd
    exact ih _ hlt (htimely.closed m hm d hd) rfl hdcycle

/-- **At the end, a matcher that is not left out is published unless it reaches a cycle.** -/
theorem published_iff
    (h : session.Finished (session.context arrange lists host) world ground pub result p)
    (hm : session.Unpruned host world m) :
    pub m ≠ none ↔ ¬ ReachesCycle (session.dependencies host world) m := by
  have hground : session.Grounds host world ground := h.grounds
  rw [← hground.refs_eq]
  refine ⟨h.not_reachesCycle, fun hcycle => ?_⟩
  have hwf := wellFounded_of_not_reachesCycle ground.fresh_refs.inRange
  induction m using hwf.induction with
  | _ m ih =>
    intro hnone
    obtain ⟨node, hnode, hpruned⟩ := hground.node_of_unpruned hm
    have hr : ∀ d ∈ ground.refs m, pub d ≠ none := by
      intro d hd
      refine ih d ⟨hd, hcycle⟩ (hground.unpruned (hground.refs_eq ▸ hd)) fun hd' => ?_
      exact hcycle (hd'.of_dependency hd)
    have hready : m ∈ (ground.after pub).ready session.config.pruneUnconsumed node.kind :=
      Ground.mem_ready.2 ⟨⟨Graph.lt_size hnode, hnone, hr⟩, node, hnode, rfl, hpruned⟩
    have hsilent : (ground.after pub).ready session.config.pruneUnconsumed node.kind = [] :=
      h.sweeps.silent_last node.kind (ground.fresh_refs.node m node hnode).kind
    rw [hsilent] at hready
    cases hready

theorem outcome?_of_published
    (h : session.Finished (session.context arrange lists host) world ground pub result p)
    {published : Published} (hm : pub m = some published) :
    result.outcome? m = some (if published.values = [] then .missed else .resolved) := by
  obtain ⟨node, hnode⟩ := Graph.lt_size_iff.1 (h.standing.sound.inRange m (by simp [hm]))
  obtain ⟨report, hr, ht⟩ := h.report hnode
  rw [MatchResult.outcome?, hr, Option.map_some, ht.outcome, Node.outcome]
  simp only [Node.after, hm, List.isEmpty_iff]

theorem outcome?_of_unpublished
    (h : session.Finished (session.context arrange lists host) world ground pub result p)
    (hsize : m < session.graph.size) (hm : pub m = none) :
    result.outcome? m = some (if session.Unpruned host world m then .unresolved else .pruned) := by
  have hground : session.Grounds host world ground := h.grounds
  obtain ⟨node, hnode⟩ := Graph.lt_size_iff.1 (hground.size_eq ▸ hsize)
  obtain ⟨report, hr, ht⟩ := h.report hnode
  rw [MatchResult.outcome?, hr, Option.map_some, ht.outcome, Node.outcome]
  simp only [Node.after, hm, hground.unpruned_iff_node hnode]
  change some (if node.isPruned session.config.pruneUnconsumed then _ else _) = _
  cases node.isPruned session.config.pruneUnconsumed <;> rfl

theorem outcome?_eq_none
    (h : session.Finished (session.context arrange lists host) world ground pub result p)
    (hsize : session.graph.size ≤ m) : result.outcome? m = none := by
  have hground : session.Grounds host world ground := h.grounds
  rw [MatchResult.outcome?, Option.map_eq_none_iff]
  cases hr : result.report? m with
  | none => rfl
  | some report =>
    obtain ⟨node, hnode, -⟩ := h.tells.get? hr
    have hlt := Graph.lt_size hnode
    rw [h.standing.graph, Ground.size_after, hground.size_eq] at hlt
    exact absurd hlt (Nat.not_lt.2 hsize)

theorem values_eq
    (h : session.Finished (session.context arrange lists host) world ground pub result p)
    (m : Slot) : result.values m = pub.values m := by
  unfold MatchResult.values Publications.values
  cases hreport : result.report? m with
  | some report =>
    obtain ⟨node, hnode, ht⟩ := h.tells.get? hreport
    rw [h.standing.graph] at hnode
    obtain ⟨old, -, rfl⟩ := Option.map_eq_some_iff.1 (Ground.get?_after ▸ hnode)
    exact ht.values
  | none =>
    cases hp : pub m with
    | none => rfl
    | some published =>
      obtain ⟨node, hnode⟩ := Graph.lt_size_iff.1 (h.standing.sound.inRange m (by simp [hp]))
      obtain ⟨report, hr, -⟩ := h.report hnode
      rw [hreport] at hr
      cases hr

theorem valuation_eq
    (h : session.Finished (session.context arrange lists host) world ground pub result p)
    (m : Slot) : p.graph.valuation m = (pub m).map (·.values) :=
  h.standing.valuation_eq m

/-- A run gives up on nothing but cycles. -/
theorem unresolved_iff
    (h : session.Finished (session.context arrange lists host) world ground pub result p) :
    result.outcome? m = some .unresolved ↔
      session.Unpruned host world m ∧ ReachesCycle (session.dependencies host world) m := by
  cases hp : pub m with
  | some published =>
    have hsize : m < session.graph.size :=
      h.grounds.size_eq ▸ h.standing.sound.inRange m (by simp [hp])
    have hcycle : session.Unpruned host world m →
        ¬ ReachesCycle (session.dependencies host world) m :=
      fun hm => (h.published_iff hm).1 (by simp [hp])
    rw [h.outcome?_of_published hp]
    refine iff_of_false ?_ fun hm => hcycle hm.1 hm.2
    split_ifs <;> simp
  | none =>
    by_cases hsize : m < session.graph.size
    · have hcycle : session.Unpruned host world m →
          ReachesCycle (session.dependencies host world) m :=
        fun hm => not_not.1 ((h.published_iff hm).not.1 (not_not.2 hp))
      rw [h.outcome?_of_unpublished hsize hp]
      by_cases hm : session.Unpruned host world m
      · exact iff_of_true (by rw [if_pos hm]) ⟨hm, hcycle hm⟩
      · exact iff_of_false (by simp [hm]) fun hm' => hm hm'.1
    · rw [h.outcome?_eq_none (Nat.not_lt.1 hsize)]
      exact iff_of_false (by simp) fun hm => hsize hm.1.1

end Finished

end Session

/-- **A run gives up on nothing but cycles.** A matcher with earlier values depends on nothing. -/
theorem outcomes_of_execute {σ : Type} {session : Session} {arrange : List Slot → List Slot}
    (hg : session.graph.Built) (harrange : ∀ items, (arrange items).Perm items)
    (lists : List (List String)) (host : Host σ) (world : σ) {result : MatchResult}
    (hresult : (session.execute arrange lists host world).1 = .ok result) (m : Slot) :
    (result.outcome? m = some .unresolved ↔
      session.Unpruned host world m ∧ ReachesCycle (session.dependencies host world) m) ∧
    (session.Unpruned host world m → ¬ ReachesCycle (session.dependencies host world) m →
      result.outcome? m = some .resolved ∨ result.outcome? m = some .missed) ∧
    (result.outcome? m = some .pruned ↔
      m < session.graph.size ∧ ¬ session.Unpruned host world m) := by
  obtain ⟨ground, pub, h⟩ := (session.execute_ends hg harrange lists host world).of_ok hresult
  refine ⟨h.unresolved_iff, fun hm hcycle => ?_, ?_⟩
  · obtain ⟨published, hp⟩ := Option.ne_none_iff_exists'.1 ((h.published_iff hm).2 hcycle)
    rw [h.outcome?_of_published hp]
    by_cases hvalues : published.values = [] <;> simp [hvalues]
  · have hunpublished : ¬ session.Unpruned host world m → pub m = none := h.unpublished
    cases hp : pub m with
    | some published =>
      have hm : session.Unpruned host world m := by
        by_contra hm
        rw [hunpublished hm] at hp
        cases hp
      rw [h.outcome?_of_published hp]
      by_cases hvalues : published.values = [] <;> simp [hvalues, hm]
    | none =>
      by_cases hsize : m < session.graph.size
      · rw [h.outcome?_of_unpublished hsize hp]
        by_cases hm : session.Unpruned host world m <;> simp [hm, hsize]
      · rw [h.outcome?_eq_none (Nat.not_lt.1 hsize)]
        simp [hsize]

/-- The last two matchers of the sample wait for each other. -/
theorem outcomes_of_cycle :
    (∃ result, (Sample.run (Sample.calls ++ Sample.cycle)).1 = .ok result ∧
      result.outcome? 8 = some .unresolved) ∧
    ReachesCycle ((Sample.session (Sample.calls ++ Sample.cycle)).dependencies Sample.host 0)
      8 := by
  have houtcome : (Sample.run (Sample.calls ++ Sample.cycle)).1.toOption.bind (·.outcome? 8) =
      some .unresolved := by
    decide +kernel
  have hall := fun result => @outcomes_of_execute _ _ _
    (Sample.built (Sample.calls ++ Sample.cycle) (by decide +kernel))
    (fun items => items.reverse_perm) [["B", "A"]] Sample.host 0 result
  change ∀ result, (Sample.run (Sample.calls ++ Sample.cycle)).1 = .ok result → _ at hall
  generalize (Sample.run (Sample.calls ++ Sample.cycle)).1 = outcome at houtcome hall
  cases outcome with
  | error e => cases houtcome
  | ok result =>
    have h8 : result.outcome? 8 = some .unresolved := houtcome
    exact ⟨⟨result, rfl, h8⟩, ((hall result rfl 8).1.1 h8).2⟩

end Metamatch
