import Metamatch.Proofs.Mirror.Search

/-!
# Runs that mirror each other

Two runs go in lockstep if they start from graphs that mirror each other, with hosts that do. They
make the same changes in the same order, and come to results that mirror each other.

* `Progress.Mirrors`: states of runs over related surroundings.
* `RunContext.Mirrors.publish`: publications, whose observers may be called in any order.
* `RunContext.Mirrors.evaluate`, `RunContext.Mirrors.sweeps`: tasks, batches and sweeps.
* `RunContext.Mirrors.seed`: values taken over.
* `Session.execute_mirrors`: whole runs.
-/

namespace Metamatch

variable {σ τ ε ε' α β : Type} {C : ClassId → ClassId → Prop} {R : σ → τ → Prop} {Q : α → β → Prop}

/-! ## States -/

/-- The same change, up to the handles of classes. -/
inductive Change.Mirrors (C : ClassId → ClassId → Prop) : Change → Change → Prop
  | detach (slot : Slot) : Mirrors C (.detach slot) (.detach slot)
  | publish (slot : Slot) {values values' : List Entity} (sweep : Nat) :
    List.Forall₂ (Entity.Mirrors C) values values' →
      Mirrors C (.publish slot values sweep) (.publish slot values' sweep)

/-- The same change of graphs that mirror each other. -/
structure Step.Mirrors (C : ClassId → ClassId → Prop) (step step' : Step) : Prop where
  before : step.before.Mirrors C step'.before
  change : step.change.Mirrors C step'.change

/-- States of runs that have made the same changes. Of the surroundings they only share what relates
them, and what the observers were called with is left to the changes. -/
structure Progress.Mirrors (C : ClassId → ClassId → Prop) (R : σ → τ → Prop) (p : Progress σ)
    (p' : Progress τ) : Prop where
  trace : p.toTrace.Mirrors R p'.toTrace
  graph : p.graph.Mirrors C p'.graph
  steps : List.Forall₂ (Step.Mirrors C) p.steps p'.steps

/-- Runs over the same names and options, with hosts that mirror each other. -/
structure RunContext.Mirrors (C : ClassId → ClassId → Prop) (R : σ → τ → Prop) (ctx : RunContext σ)
    (ctx' : RunContext τ) : Prop where
  host : ctx.host.Mirrors C R ctx'.host
  catalog : ctx'.catalog = ctx.catalog
  config : ctx'.config = ctx.config
  arrange : ctx'.arrange = ctx.arrange

/-- Results that differ at most in the handles of classes. -/
structure MatchResult.Mirrors (C : ClassId → ClassId → Prop) (result result' : MatchResult) :
    Prop where
  sweeps : result'.sweeps = result.sweeps
  reports : List.Forall₂ (Report.Mirrors C) result.reports result'.reports
  failures : result'.failures = result.failures

namespace Run

/-! ## Embeddings -/

theorem graph_lockstep : Lockstep (Progress.Mirrors C R) (Graph.Mirrors C)
    (graph : Run σ ε Graph) graph :=
  fun _ _ hp => ⟨.ok hp.graph, hp⟩

theorem change_lockstep {change change' : Change} (hchange : change.Mirrors C change')
    {f f' : Graph → Except ε Graph}
    (hf : ∀ g g', g.Mirrors C g' → Agree (Graph.Mirrors C) (f g) (f' g')) :
    Lockstep (Progress.Mirrors C R) Eq (Run.change change f : Run σ ε Unit)
      (Run.change change' f') := by
  intro p p' hp
  have hagree := hf p.graph p'.graph hp.graph
  simp only [Run.change]
  revert hagree
  generalize f p.graph = outcome
  generalize f' p'.graph = outcome'
  intro hagree
  cases hagree with
  | ok hg => exact ⟨.ok rfl, hp.trace, hg, .cons ⟨hp.graph, hchange⟩ hp.steps⟩
  | error e => exact ⟨.error e, hp.trace, hp.graph, .cons ⟨hp.graph, hchange⟩ hp.steps⟩

theorem ofTask_lockstep {task : Task σ α} {task' : Task τ β}
    (h : Lockstep (Trace.Mirrors R) Q task task') :
    Lockstep (Progress.Mirrors C R) Q (ofTask task) (ofTask task') := by
  intro p p' hp
  obtain ⟨hagree, htrace⟩ := h p.toTrace p'.toTrace hp.trace
  exact ⟨hagree, htrace, hp.graph, hp.steps⟩

theorem ask_lockstep {x : ExceptT ε (StateM σ) α} {y : ExceptT ε (StateM τ) β}
    (h : Lockstep R Q x y) : Lockstep (Progress.Mirrors C R) Q (ask x) (ask y) := by
  intro p p' hp
  obtain ⟨hagree, htrace⟩ := hp.trace.ask h
  exact ⟨hagree, htrace, hp.graph, hp.steps⟩

theorem adapt_lockstep {x : Run σ ε α} {y : Run τ ε β} (f : ε → ε')
    (h : Lockstep (Progress.Mirrors C R) Q x y) :
    Lockstep (Progress.Mirrors C R) Q (adapt f x) (adapt f y) := by
  intro p p' hp
  obtain ⟨hagree, hp'⟩ := h p p' hp
  exact ⟨hagree.mapError f, hp'⟩

theorem contain_lockstep {x : Run σ ε α} {y : Run τ ε β}
    (h : Lockstep (Progress.Mirrors C R) Q x y) :
    Lockstep (Progress.Mirrors C R) (Agree Q) (contain x : Run σ ε' (Except ε α)) (contain y) := by
  intro p p' hp
  obtain ⟨hagree, hp'⟩ := h p p' hp
  exact ⟨.ok hagree, hp'⟩

/-- Observers that never crash report nothing, and keep what none of them concerns. -/
theorem callObservers_calm {ctx : RunContext σ} {P : Progress σ → Prop}
    (hcalm : ∀ number values t,
      (ctx.host.observe number values t : Option Payload × σ).1 = none)
    (hP : ∀ p number values notices, P p → P { p with
      world := (ctx.host.observe number values p.world : Option Payload × σ).2, notices })
    (slot : Slot) (values : List Entity) (numbers : List Nat) :
    Leads P (callObservers ctx slot values numbers : Run σ ε (List Payload))
      (fun crashes p => crashes = [] ∧ P p) fun _ _ => False := by
  induction numbers with
  | nil => exact .pure fun _ hp => ⟨rfl, hp⟩
  | cons number rest ih =>
    unfold callObservers
    refine Leads.bind (Q := fun crash p => crash = none ∧ P p) ?_ fun crash => ?_
    · intro p hp
      exact ⟨hcalm number values p.world, hP p number values _ hp⟩
    · rintro p ⟨rfl, hp⟩
      refine Leads.bind ih (fun crashes => .pure ?_) p hp
      rintro p ⟨rfl, hp⟩
      exact ⟨rfl, hp⟩

end Run

namespace RunContext.Mirrors

open Run

variable {ctx : RunContext σ} {ctx' : RunContext τ}

/-! ## Policy and observers -/

theorem consult (h : ctx.Mirrors C R ctx') (slot : Slot) (message : String) :
    Lockstep (Progress.Mirrors C R) Eq (consult ctx slot message) (consult ctx' slot message) := by
  intro p p' hp
  obtain ⟨hagree, htrace⟩ := hp.trace.consult h.host.judge slot message
  exact ⟨hagree.map fun _ _ _ => rfl, htrace, hp.graph, hp.steps⟩

theorem reportCrashes (h : ctx.Mirrors C R ctx') (slot : Slot) (crashes : List Payload) :
    Lockstep (Progress.Mirrors C R) Eq (reportCrashes ctx slot crashes)
      (reportCrashes ctx' slot crashes) := by
  refine Lockstep.forM (P := Eq) (List.forall₂_refl _) fun payload _ heq => ?_
  rw [← heq]
  exact h.consult slot _

theorem callObservers (h : ctx.Mirrors C R ctx') (slot : Slot) (values values' : List Entity)
    (numbers numbers' : List Nat) :
    Lockstep (Progress.Mirrors C R) Eq
      (callObservers ctx slot values numbers : Run σ ε (List Payload))
      (callObservers ctx' slot values' numbers') := by
  intro p p' hp
  obtain ⟨crashes, q, hcalls, rfl, hq⟩ := (callObservers_calm (ε := ε)
    (P := fun q => q.Mirrors C R p') h.host.calm (fun q number values _ hq =>
      ⟨⟨h.host.apart number values _ _ hq.trace.world, hq.trace.failures⟩, hq.graph, hq.steps⟩)
    slot values numbers).returns hp
  obtain ⟨crashes', q', hcalls', rfl, hq'⟩ := (callObservers_calm (ε := ε)
    (P := fun q' => q.Mirrors C R q') h.host.calm' (fun q' number values _ hq' =>
      ⟨⟨h.host.apart' number values _ _ hq'.trace.world, hq'.trace.failures⟩, hq'.graph, hq'.steps⟩)
    slot values' numbers').returns hq
  rw [hcalls, hcalls']
  exact ⟨.ok rfl, hq'⟩

theorem publish (h : ctx.Mirrors C R ctx') (slot : Slot) {values values' : List Entity}
    (hvalues : List.Forall₂ (Entity.Mirrors C) values values') (sweep : Nat) :
    Lockstep (Progress.Mirrors C R) Eq (publish ctx slot values sweep)
      (publish ctx' slot values' sweep) := by
  unfold Run.publish
  refine (change_lockstep (.publish slot sweep hvalues) fun g g' hg =>
    hg.publish slot hvalues sweep).bindEq fun _ => ?_
  exact graph_lockstep.bind fun g g' _ => h.callObservers slot values values' _ _

/-! ## Tasks -/

theorem search (h : ctx.Mirrors C R ctx') (hC : Relator.BiUnique C) {g g' : Graph}
    (hg : g.Mirrors C g') (slot : Slot) {node node' : Node} (hnode : node.Mirrors C node') :
    Lockstep (Trace.Mirrors R) (List.Forall₂ (Entity.Mirrors C)) (search ctx g slot node)
      (search ctx' g' slot node') := by
  unfold Run.search scan
  rw [hnode.missed, hnode.kind, hnode.constraints, h.config, h.catalog]
  split_ifs
  · exact .pure .nil
  · split
    · exact h.host.classes hC hg _ slot _
    · exact h.host.members hC hg _ _
    · exact h.host.members hC hg _ _
    · exact h.host.members hC hg _ _
    · exact .pure .nil
    · exact .pure .nil

theorem evaluate (h : ctx.Mirrors C R ctx') (hC : Relator.BiUnique C) (number : Nat)
    (slot : Slot) :
    Lockstep (Progress.Mirrors C R) Eq (evaluate ctx number slot) (evaluate ctx' number slot) := by
  unfold Run.evaluate
  refine graph_lockstep.bind fun g g' hg => ?_
  rcases hg.lookup slot with ⟨hs, hs'⟩ | ⟨node, node', hs, hs', hnode⟩
  · rw [hs, hs']
    exact .pure rfl
  · rw [hs, hs']
    refine (ofTask_lockstep (h.search hC hg slot hnode)).bind fun values values' hvalues => ?_
    refine (adapt_lockstep _ (h.publish slot hvalues number)).bindEq fun crashes => ?_
    exact adapt_lockstep _ (h.reportCrashes slot crashes)

theorem execute (h : ctx.Mirrors C R ctx') (hC : Relator.BiUnique C) (number : Nat)
    (slots : List Slot) :
    Lockstep (Progress.Mirrors C R) Eq
      (execute ctx number slots : Run σ ε (List (Slot × Except TaskError Unit)))
      (execute ctx' number slots) := by
  induction slots with
  | nil => exact .pure rfl
  | cons slot rest ih =>
    unfold Run.execute
    refine (contain_lockstep (h.evaluate hC number slot)).bind fun outcome outcome' houtcome => ?_
    rw [houtcome.eq]
    exact ih.bindEq fun others => .pure rfl

theorem recover (h : ctx.Mirrors C R ctx') (number : Nat) (slot : Slot) (e : TaskError) :
    Lockstep (Progress.Mirrors C R) Eq (recover ctx number slot e)
      (recover ctx' number slot e) := by
  unfold Run.recover
  refine (adapt_lockstep _ (h.consult slot _)).bindEq fun _ => ?_
  refine graph_lockstep.bind fun g g' hg => ?_
  have hready : (g.get? slot).any Node.isReady = (g'.get? slot).any Node.isReady :=
    optionRel_any (hg slot) fun node node' hnode => by
      rw [Node.isReady, Node.isReady, hnode.counter]
  rw [hready]
  split_ifs
  · refine (adapt_lockstep _ (h.publish slot .nil number)).bindEq fun crashes => ?_
    exact adapt_lockstep _ (h.reportCrashes slot crashes)
  · exact .pure rfl

theorem settle (h : ctx.Mirrors C R ctx') (number : Nat) (slot : Slot)
    (outcome : Except TaskError Unit) :
    Lockstep (Progress.Mirrors C R) Eq (settle ctx number slot outcome)
      (settle ctx' number slot outcome) := by
  unfold Run.settle
  split
  · exact .pure rfl
  · exact .throw _
  · exact h.recover number slot _

/-! ## Sweeps -/

theorem draw (h : ctx.Mirrors C R ctx') (number : Nat) (kind : Kind) :
    Lockstep (Progress.Mirrors C R) Eq (draw ctx number kind) (draw ctx' number kind) := by
  intro p p' hp
  have hready := hp.graph.ready ctx.config.pruneUnconsumed kind
  unfold Run.draw
  rw [h.config, hready]
  exact ⟨.ok rfl, hp.trace, hp.graph, hp.steps⟩

theorem batch (h : ctx.Mirrors C R ctx') (hC : Relator.BiUnique C) (number : Nat) (kind : Kind) :
    Lockstep (Progress.Mirrors C R) Eq (batch ctx number kind) (batch ctx' number kind) := by
  unfold Run.batch
  refine (h.draw number kind).bindEq fun ready => ?_
  rw [h.arrange]
  refine (h.execute hC number _).bindEq fun outcomes => ?_
  refine Lockstep.bindEq ?_ fun _ => .pure rfl
  refine Lockstep.forM (P := Eq) (List.forall₂_refl _) fun slot _ heq => ?_
  rw [← heq]
  exact h.settle number slot _

theorem sweep (h : ctx.Mirrors C R ctx') (hC : Relator.BiUnique C) (number : Nat)
    (kinds : List Kind) :
    Lockstep (Progress.Mirrors C R) Eq (sweep ctx number kinds) (sweep ctx' number kinds) := by
  induction kinds with
  | nil => exact .pure rfl
  | cons kind rest ih =>
    unfold Run.sweep
    exact (h.batch hC number kind).bindEq fun here => ih.bindEq fun others => .pure rfl

/-- **Sweeps go in lockstep**, and come to an end in the same one. -/
theorem sweeps (h : ctx.Mirrors C R ctx') (hC : Relator.BiUnique C) (number fuel : Nat) :
    Lockstep (Progress.Mirrors C R) Eq (sweeps ctx number fuel) (sweeps ctx' number fuel) := by
  induction fuel generalizing number with
  | zero => exact .pure rfl
  | succ fuel ih =>
    unfold Run.sweeps
    refine (h.sweep hC number _).bindEq fun count => ?_
    split_ifs
    · exact .pure rfl
    · exact ih (number + 1)

/-! ## Values taken over -/

theorem detach (slot : Slot) :
    Lockstep (Progress.Mirrors C R) Eq (detach slot) (detach slot) := by
  refine change_lockstep (.detach slot) fun g g' hg => ?_
  simp only [hg.references_eq, hg.size_eq, hg.outOfRangeText_eq]
  split
  · exact .error _
  · exact .ok (hg.detach slot)

theorem publishSeeds (h : ctx.Mirrors C R ctx') {seeds seeds' : List (Slot × List Entity)}
    (hseeds : List.Forall₂ (Seed.Mirrors C) seeds seeds') :
    Lockstep (Progress.Mirrors C R) Eq (publishSeeds ctx seeds) (publishSeeds ctx' seeds') := by
  induction hseeds with
  | nil => exact .pure rfl
  | @cons seed seed' _ _ hseed _ ih =>
    obtain ⟨slot, values⟩ := seed
    obtain ⟨slot', values'⟩ := seed'
    obtain ⟨rfl, hvalues⟩ := hseed
    unfold Run.publishSeeds
    exact (h.publish _ hvalues 0).bindEq fun crashes => ih.bindEq fun others => .pure rfl

theorem takeOver (h : ctx.Mirrors C R ctx') (last : MatchResult) :
    Lockstep (Progress.Mirrors C R) Eq (takeOver ctx last) (takeOver ctx' last) := by
  unfold Run.takeOver
  refine graph_lockstep.bind fun g g' hg => ?_
  have hgather := h.host.resolver.gather last hg g.slots
  rw [Graph.slots, Graph.slots, hg.size_eq, ← Graph.slots]
  refine (adapt_lockstep _ (ask_lockstep hgather)).bind fun seeds seeds' hseeds => ?_
  refine Lockstep.bindEq ?_ fun _ => adapt_lockstep _ (h.publishSeeds hseeds)
  refine Lockstep.forM hseeds fun seed seed' hseed => adapt_lockstep _ ?_
  rw [hseed.slot]
  exact detach _

theorem seed (h : ctx.Mirrors C R ctx') (last : MatchResult) :
    Lockstep (Progress.Mirrors C R) Eq (seed ctx last) (seed ctx' last) := by
  unfold Run.seed
  refine (h.takeOver last).bindEq fun crashes => ?_
  refine Lockstep.forM (P := Eq) (List.forall₂_refl _) fun item _ heq => ?_
  rw [← heq]
  exact adapt_lockstep _ (h.reportCrashes _ _)

/-! ## Results -/

theorem collect (h : ctx.Mirrors C R ctx') (hC : Relator.BiUnique C) (count : Nat) :
    Lockstep (Progress.Mirrors C R) (MatchResult.Mirrors C) (collect ctx count)
      (collect ctx' count) := by
  have hget : Lockstep (Progress.Mirrors C R) (Progress.Mirrors C R)
      (get : Run σ Payload (Progress σ)) get := fun _ _ hp => ⟨.ok hp, hp⟩
  unfold Run.collect
  rw [h.config]
  refine graph_lockstep.bind fun g g' hg => ?_
  refine (ask_lockstep (Node.reports_lockstep hC h.host.resolver _ hg.nodes 0)).bind
    fun reports reports' hreports => ?_
  exact hget.bind fun p p' hp => .pure ⟨rfl, hreports, hp.trace.failures⟩

/-- **Runs that mirror each other go in lockstep** to results that do, or to the same error. -/
theorem resolve (h : ctx.Mirrors C R ctx') (hC : Relator.BiUnique C) (last : Option MatchResult) :
    Lockstep (Progress.Mirrors C R) (MatchResult.Mirrors C) (resolve ctx last)
      (resolve ctx' last) := by
  unfold Run.resolve
  refine Lockstep.bindEq ?_ fun _ => graph_lockstep.bind fun g g' hg => ?_
  · cases last with
    | none => exact .pure rfl
    | some last => exact h.seed last
  · rw [hg.size_eq]
    exact (h.sweeps hC 1 _).bindEq fun count => adapt_lockstep _ (h.collect hC count)

end RunContext.Mirrors

/-- **Sessions over graphs that mirror each other come to results that do**, or to the same error,
and make the same changes in the same order. -/
theorem Session.execute_mirrors {session session' : Session} {host : Host σ} {host' : Host τ}
    (hC : Relator.BiUnique C) (hhost : host.Mirrors C R host')
    (hgraph : session.graph.Mirrors C session'.graph) (hconfig : session'.config = session.config)
    (hlast : session'.last = session.last) {lists lists' : List (List String)}
    (hlists : Catalog.ofLists lists' = .ofLists lists) (arrange : List Slot → List Slot)
    {world : σ} {world' : τ} (hworld : R world world') :
    Agree (MatchResult.Mirrors C) (session.execute arrange lists host world).1
        (session'.execute arrange lists' host' world').1 ∧
      (session.execute arrange lists host world).2.Mirrors C R
        (session'.execute arrange lists' host' world').2 := by
  have hctx : (session.context arrange lists host).Mirrors C R
      (session'.context arrange lists' host') := ⟨hhost, hlists, hconfig, rfl⟩
  have hresolve := hctx.resolve hC session.last { world, graph := session.graph }
    { world := world', graph := session'.graph } ⟨⟨hworld, rfl⟩, hgraph, .nil⟩
  unfold execute
  rw [hlast]
  exact hresolve

end Metamatch
