import Metamatch.Proofs.Run.Comparison

/-!
# One session under two configurations

A configuration says what is left out and what becomes of a miss. It changes neither the matchers
nor what they depend on, so what both runs publish they publish in the same sweep.

* `Session.withConfig`: a session under another configuration.
* `Config.Spares`: a configuration that leaves out at most what another one does.
* `Session.Finished.published_of_spares`, `Session.Finished.sweep_of_spares`: what is published
  under one is published under the other, in the same sweep.
* `Session.equation_of_forceEmpty`: the equations under both policies on misses.
-/

namespace Metamatch

variable {σ : Type}

/-- One configuration leaves out at most what another one does. -/
def Config.Spares (config' config : Config) : Prop :=
  config'.pruneUnconsumed = true → config.pruneUnconsumed = true

namespace Session

/-- The same session under another configuration. -/
def withConfig (session : Session) (config : Config) : Session := { session with config }

/-- The same session under a policy on misses. -/
def withMissPolicy (session : Session) (missPolicy : MissPolicy) : Session :=
  session.withConfig { session.config with missPolicy }

/-- The same session that leaves out what nothing asks for, or does not. -/
def withPruning (session : Session) (prune : Bool) : Session :=
  session.withConfig { session.config with pruneUnconsumed := prune }

variable {session : Session} {host : Host σ} {world : σ} {config config' : Config}
  {arrange arrange' : List Slot → List Slot} {lists : List (List String)}
  {ground ground' : Ground} {pub pub' : Publications} {result result' : MatchResult}
  {p p' : Progress σ} {m : Slot} {v v' : Slot → List Entity}

@[simp] theorem graph_withConfig : (session.withConfig config).graph = session.graph := rfl

@[simp] theorem config_withConfig : (session.withConfig config).config = config := rfl

@[simp] theorem seeds_withConfig :
    (session.withConfig config).seeds host world = session.seeds host world := rfl

@[simp] theorem seeded_withConfig :
    (session.withConfig config).seeded host world = session.seeded host world := rfl

@[simp] theorem seededGraph_withConfig :
    (session.withConfig config).seededGraph host world = session.seededGraph host world := rfl

@[simp] theorem dependencies_withConfig :
    (session.withConfig config).dependencies host world = session.dependencies host world := rfl

@[simp] theorem scanned_withConfig :
    (session.withConfig config).scanned lists host world v = session.scanned lists host world v :=
  rfl

/-- A configuration plays no part in the start of a run, nor does the order of tasks. -/
theorem execute_withConfigs {verdict : String → Decision} (hg : session.graph.Built)
    (harrange : ∀ items, (arrange items).Perm items)
    (harrange' : ∀ items, (arrange' items).Perm items) (hsteady : host.Steady)
    (hverdict : host.Judges verdict) (lists : List (List String)) (world : σ)
    (config config' : Config) :
    (∃ e p, (session.withConfig config).execute arrange lists host world = (.error e, p) ∧
      (session.withConfig config').execute arrange' lists host world = (.error e, p)) ∨
    ∃ start ground pub count q ground' pub' count' q',
      (session.withConfig config).Closes arrange lists host world start ground pub count q ∧
      (session.withConfig config').Closes arrange' lists host world start ground' pub' count'
        q' := by
  have hseed : ∀ ctx : RunContext σ, ctx.host = host → session.last.forM (Run.seed ctx) =
      session.last.forM (Run.seed ((session.withConfig config).context arrange lists host)) :=
    fun ctx hctx => congrArg session.last.forM (funext fun last =>
      @Run.seed_congr _ ((session.withConfig config).context arrange lists host) ctx hctx last)
  rcases hstart : session.last.forM
    (Run.seed ((session.withConfig config).context arrange lists host))
    { world, graph := session.graph } with ⟨e | u, start⟩
  · refine .inl ⟨e, start, execute_of_unstarted hstart, execute_of_unstarted ?_⟩
    exact (congrFun (hseed _ rfl) _).trans hstart
  · obtain ⟨ground, pub, count, q, h⟩ :=
      (session.withConfig config).execute_of_started hg harrange hsteady hverdict hstart
    obtain ⟨ground', pub', count', q', h'⟩ := (session.withConfig config').execute_of_started hg
      harrange' hsteady hverdict ((congrFun (hseed _ rfl) _).trans hstart)
    exact .inr ⟨start, ground, pub, count, q, ground', pub', count', q', h, h'⟩

/-! ## Publications -/

theorem Unpruned.of_spares (hspares : config'.Spares config)
    (hm : (session.withConfig config).Unpruned host world m) :
    (session.withConfig config').Unpruned host world m := by
  refine ⟨hm.1, fun hpruned => hm.2 ?_⟩
  rw [Graph.Pruned, seededGraph_withConfig, config_withConfig] at hpruned ⊢
  cases hnode : (session.seededGraph host world).get? m with
  | none => simp [hnode] at hpruned
  | some node =>
    simp only [hnode, Option.any_some, Node.isPruned, Bool.and_eq_true] at hpruned ⊢
    exact ⟨hspares hpruned.1, hpruned.2⟩

namespace Finished

theorem forall₂_nodes {S : Node → Node → Prop}
    (h : (session.withConfig config).Finished
      ((session.withConfig config).context arrange lists host) world ground pub result p)
    (h' : (session.withConfig config').Finished
      ((session.withConfig config').context arrange' lists host) world ground' pub' result' p')
    (hS : ∀ m node, (session.seededGraph host world).get? m = some node →
      S (node.after (session.dependencies host world m) pub (pub m))
        (node.after (session.dependencies host world m) pub' (pub' m))) :
    List.Forall₂ S p.graph.nodes p'.graph.nodes := by
  have hnodes : ∀ m, p.graph.nodes[m]? = ((session.seededGraph host world).get? m).map
      fun node => node.after (session.dependencies host world m) pub (pub m) := by
    intro m
    rw [← Graph.get?, h.standing.graph, Ground.get?_after, h.grounds.graph, h.grounds.refs_eq]
    rfl
  have hnodes' : ∀ m, p'.graph.nodes[m]? = ((session.seededGraph host world).get? m).map
      fun node => node.after (session.dependencies host world m) pub' (pub' m) := by
    intro m
    rw [← Graph.get?, h'.standing.graph, Ground.get?_after, h'.grounds.graph, h'.grounds.refs_eq]
    rfl
  refine forall₂_of_getElem? fun m => ?_
  rw [hnodes, hnodes']
  cases hnode : (session.seededGraph host world).get? m with
  | none => exact .none
  | some node => exact .some (hS m node hnode)

section Spares

variable (hspares : config'.Spares config)
  (h : (session.withConfig config).Finished
    ((session.withConfig config).context arrange lists host) world ground pub result p)
  (h' : (session.withConfig config').Finished
    ((session.withConfig config').context arrange' lists host) world ground' pub' result' p')

include hspares h h'

/-- What is not left out is published under both configurations or under none. -/
theorem published_iff_of_spares (hm : (session.withConfig config).Unpruned host world m) :
    pub' m ≠ none ↔ pub m ≠ none :=
  (h'.published_iff (hm.of_spares hspares)).trans (h.published_iff hm).symm

theorem published_of_spares (hm : pub m ≠ none) : pub' m ≠ none :=
  (published_iff_of_spares hspares h h' (h.unpruned hm)).2 hm

/-- **What both publish they publish in the same sweep.** -/
theorem sweep_of_spares (hm : pub m ≠ none) : pub'.sweep m = pub.sweep m := by
  refine h.induction (motive := fun m => pub'.sweep m = pub.sweep m) (fun m hm ih => ?_) hm
  rw [h.sweep_eq hm, h'.sweep_eq (published_of_spares hspares h h' hm)]
  exact ite_congr rfl (fun _ => rfl) fun _ => dueSweep_congr fun d hd => (ih d hd).2

end Spares

end Finished

/-! ## Equations -/

theorem Grounds.equation_of_dependencies (hg : session.Grounds host world ground)
    (hsteady : host.Steady) (hm : m < session.graph.size)
    (hlookup : (session.seeds host world).lookup m = none)
    (hv : ∀ d ∈ session.dependencies host world m, v' d = v d) :
    session.equation lists host world v' m = session.equation lists host world v m := by
  obtain ⟨node, hnode⟩ := Graph.lt_size_iff.1 hm
  exact hg.equation_congr (ρ := id) hg hsteady rfl hnode hnode rfl
    node.constraints.rename_id.symm hlookup hlookup (fun d => by simp) hv

theorem equation_withConfig (hlookup : (session.seeds host world).lookup m = none) :
    (session.withConfig config).equation lists host world v m =
      if config.missPolicy = .forceEmpty ∧
          ∃ d ∈ session.dependencies host world m, v d = [] then []
      else ((session.seededGraph host world).get? m).elim []
        (session.scanned lists host world v) := by
  have hsame : ((session.withConfig config).seeds host world).lookup m = none := hlookup
  rw [equation, hsame]
  rfl

theorem equation_of_samePolicy (hpolicy : config'.missPolicy = config.missPolicy)
    (hlookup : (session.seeds host world).lookup m = none) :
    (session.withConfig config').equation lists host world v m =
      (session.withConfig config).equation lists host world v m := by
  rw [equation_withConfig hlookup, equation_withConfig hlookup]
  simp only [hpolicy]

/-- Under the policy that forces misses, a matcher with a dependency that has no values has none;
any other has the values that it has under the policy that drops constraints. -/
theorem equation_of_forceEmpty (hforce : config.missPolicy = .forceEmpty)
    (hdrop : config'.missPolicy = .disableConstraint)
    (hlookup : (session.seeds host world).lookup m = none) :
    (session.withConfig config).equation lists host world v m =
      if ∃ d ∈ session.dependencies host world m, v d = [] then []
      else (session.withConfig config').equation lists host world v m := by
  rw [equation_withConfig hlookup, equation_withConfig hlookup]
  simp [hforce, hdrop]

end Session

end Metamatch
