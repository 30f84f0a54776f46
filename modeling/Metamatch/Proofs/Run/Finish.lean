import Mathlib.Data.List.Forall2
import Metamatch.Proofs.Run.Seeding
import Metamatch.Registry

/-!
# The end of a run

* `MatchResult.Tells`: reports that say of each matcher what the graph says.
* `Session.Finished`: the end of a run that returns a result.
* `Session.execute_ends`: every run of a session ends so, or with a crash.
-/

namespace Metamatch

variable {σ : Type}

/-! ## Reports -/

/-- A report says what became of a matcher. -/
structure Report.Tells (prune : Bool) (report : Report) (node : Node) : Prop where
  kind : report.kind = node.kind
  key : report.key = node.key
  outcome : report.outcome = node.outcome prune
  sweep : report.sweep = node.published.map (·.sweep)
  values : report.values = node.published.elim [] Published.values

/-- The reports say what became of the matchers of a graph, one by one. -/
def MatchResult.Tells (prune : Bool) (result : MatchResult) (g : Graph) : Prop :=
  List.Forall₂ (Report.Tells prune) result.reports g.nodes

theorem forall₂_getElem? {α β : Type} {R : α → β → Prop} {as : List α} {bs : List β}
    (h : List.Forall₂ R as bs) (i : Nat) :
    as[i]? = none ∧ bs[i]? = none ∨ ∃ a b, as[i]? = some a ∧ bs[i]? = some b ∧ R a b := by
  induction h generalizing i with
  | nil => exact .inl ⟨rfl, rfl⟩
  | cons hab _ ih =>
    cases i with
    | zero => exact .inr ⟨_, _, rfl, rfl, hab⟩
    | succ i => exact ih i

namespace MatchResult.Tells

variable {prune : Bool} {result : MatchResult} {g : Graph} {m : Slot}

theorem report? (h : result.Tells prune g) {node : Node} (hm : g.get? m = some node) :
    ∃ report, result.report? m = some report ∧ report.Tells prune node := by
  rcases forall₂_getElem? h m with ⟨-, hn⟩ | ⟨report, node', hr, hn, ht⟩
  · rw [Graph.get?, hn] at hm
    cases hm
  · rw [Graph.get?, hn, Option.some.injEq] at hm
    exact ⟨report, hr, hm ▸ ht⟩

theorem get? (h : result.Tells prune g) {report : Report} (hm : result.report? m = some report) :
    ∃ node, g.get? m = some node ∧ report.Tells prune node := by
  rcases forall₂_getElem? h m with ⟨hr, -⟩ | ⟨report', node, hr, hn, ht⟩
  · rw [MatchResult.report?, hr] at hm
    cases hm
  · rw [MatchResult.report?, hr, Option.some.injEq] at hm
    exact ⟨node, hn, hm ▸ ht⟩

end MatchResult.Tells

theorem Node.report_yields (resolver : Resolver σ) (prune : Bool) (slot : Slot) (node : Node) :
    Yields (fun report => report.slot = slot ∧ report.Tells prune node)
      (node.report resolver prune slot) := by
  unfold report
  dsimp only
  split <;> exact Yields.any fun names => .pure ⟨rfl, rfl, rfl, rfl, rfl, rfl⟩

theorem Node.reports_yields (resolver : Resolver σ) (prune : Bool) (slot : Slot)
    (nodes : List Node) :
    Yields (fun reports => List.Forall₂ (Report.Tells prune) reports nodes)
      (Node.reports resolver prune slot nodes) := by
  induction nodes generalizing slot with
  | nil => exact .pure .nil
  | cons node rest ih =>
    unfold reports
    refine Yields.bind (node.report_yields resolver prune slot) fun here hhere => ?_
    exact Yields.bind (ih (slot + 1)) fun others hothers => .pure (.cons hhere.2 hothers)

/-! ## Results -/

namespace Run

open Progress (At Failed)

variable {ctx : RunContext σ} {start : Graph} {ground : Ground} {pub : Publications}

/-- The reports tell what the last graph says, and only the surroundings go on meanwhile. -/
theorem collect_tells {P : Progress σ → Prop} (hP : ∀ p world, P p → P { p with world })
    (count : Nat) :
    Leads P (collect ctx count)
      (fun result p => P p ∧ result.sweeps = count ∧
        result.Tells ctx.config.pruneUnconsumed p.graph)
      fun _ => P := by
  unfold collect
  refine graph_leads.bind fun g => ?_
  rintro p ⟨rfl, hp⟩
  have hask := ask_leads (P := fun p' : Progress σ => P p' ∧ p'.graph = p.graph)
    (fun p' world hp' => ⟨hP p' world hp'.1, hp'.2⟩)
    (Node.reports_yields ctx.host.resolver ctx.config.pruneUnconsumed 0 p.graph.nodes)
  refine ((hask.weaken (fun _ h => h) (fun _ _ h => h) fun _ _ h => h.1).bind fun reports => ?_) p
    ⟨hp, rfl⟩
  rintro p' ⟨hr, hp', hg⟩
  exact ⟨hp', rfl, hg.symm ▸ hr⟩

theorem collect_leads (count : Nat) :
    Leads (At ctx start ground pub) (collect ctx count)
      (fun result p => At ctx start ground pub p ∧ result.sweeps = count ∧
        result.Tells ctx.config.pruneUnconsumed p.graph)
      fun _ => At ctx start ground pub :=
  collect_tells (fun _ _ hp => ⟨hp.graph, hp.sound, hp.recorded, hp.safe⟩) count

end Run

namespace Session

open Run
open Progress (At Failed)

/-- **The reports of a run tell what its last graph says**, whatever led to it. -/
theorem execute_tells (session : Session) (arrange : List Slot → List Slot)
    (lists : List (List String)) (host : Host σ) (world : σ) :
    Ends (fun result p => result.Tells session.config.pruneUnconsumed p.graph) (fun _ _ => True)
      (session.execute arrange lists host world) := by
  have hcollect : ∀ count, Leads (fun _ => True)
      (adapt RunError.crash (collect (session.context arrange lists host) count))
      (fun result p => result.Tells session.config.pruneUnconsumed p.graph) fun _ _ => True := by
    intro count
    refine adapt_leads ?_ fun _ _ => id
    exact (collect_tells (fun _ _ _ => trivial) count).weaken (fun _ hp => hp)
      (fun _ _ hp => hp.2.2) fun _ _ hp => hp
  suffices Leads (fun _ => True) (resolve (session.context arrange lists host) session.last)
      (fun result p => result.Tells session.config.pruneUnconsumed p.graph) fun _ _ => True from
    this _ trivial
  unfold resolve
  refine (Leads.trivial _).bind fun _ => (Leads.trivial _).bind fun g => ?_
  exact (Leads.trivial _).bind fun count => hcollect count

/-- The end of a run that returns a result: on the ground of the session, sweeps have followed the
schedule, and the reports say what they have led to. -/
structure Finished (session : Session) (ctx : RunContext σ) (world : σ) (ground : Ground)
    (pub : Publications) (result : MatchResult) (p : Progress σ) : Prop where
  grounds : session.Grounds ctx.host world ground
  standing : At ctx session.graph ground pub p
  sweeps : ground.Sweeps ctx.config.pruneUnconsumed 1 (session.seedPublications ctx.host world)
    result.sweeps pub
  tells : result.Tells ctx.config.pruneUnconsumed p.graph

variable {session : Session} {host : Host σ} {world : σ} {arrange : List Slot → List Slot}

theorem Finished.report {ctx : RunContext σ} {ground : Ground} {pub : Publications}
    {result : MatchResult} {p : Progress σ} (h : session.Finished ctx world ground pub result p)
    {m : Slot} {node : Node} (hm : ground.graph.get? m = some node) :
    ∃ report, result.report? m = some report ∧
      report.Tells ctx.config.pruneUnconsumed (node.after (ground.refs m) pub (pub m)) :=
  h.tells.report? (by rw [h.standing.graph, Ground.get?_after, hm]; rfl)

/-- **Every run ends on the ground of its session**: with a result, once the schedule is through,
or else with a crash. -/
theorem execute_ends (hg : session.graph.Built) (harrange : ∀ items, (arrange items).Perm items)
    (lists : List (List String)) (host : Host σ) (world : σ) :
    Ends (fun result p => ∃ ground pub,
        session.Finished (session.context arrange lists host) world ground pub result p)
      (Failed (session.context arrange lists host) session.graph)
      (session.execute arrange lists host world) := by
  set ctx := session.context arrange lists host with hctx
  suffices Leads (· = { world, graph := session.graph }) (resolve ctx session.last)
      (fun result p => ∃ ground pub, session.Finished ctx world ground pub result p)
      (Failed ctx session.graph) from this _ rfl
  unfold resolve
  refine (start_leads hg).bind fun _ p ⟨ground, hground, hp⟩ => ?_
  refine (graph_leads.bind fun g p ⟨hg, hp⟩ => ?_) p hp
  have hfuel : ground.remaining (session.seedPublications host world) < g.size + 1 := by
    rw [hg, hp.graph, Ground.size_after]
    exact Nat.lt_succ_of_le Ground.remaining_le
  refine ((sweeps_leads harrange hground.published hfuel).bind
    fun count p ⟨pub, hp, hsweeps⟩ => ?_) p hp
  have hcollect : Leads (At ctx session.graph ground pub) (collect ctx count)
      (fun result p => ∃ ground pub, session.Finished ctx world ground pub result p)
      fun _ => At ctx session.graph ground pub := by
    refine (collect_leads count).weaken (fun _ => id) ?_ fun _ _ => id
    rintro result p ⟨hp, rfl, htells⟩
    exact ⟨ground, pub, hground, hp, hsweeps, htells⟩
  exact crash_leads hcollect p hp

end Session

/-! ## A sample -/

namespace Sample

/-- A class and its subclass, each with a member. -/
def registry : Registry where
  classes := [
    { name := "A", methods := [⟨"run", ⟨0⟩, [], .isPublic, ⟨⟨0⟩, 0⟩⟩] },
    { name := "B", superclass := some ⟨0⟩, fields := [⟨"a", ⟨0⟩, .isPublic, ⟨⟨1⟩, 0⟩⟩] }]

/-- Constructors cannot be asked for without a crash, and observers, which are counted, crash. -/
def host : Host Nat where
  resolver := { registry.resolver with constructors := fun _ => throw (.crash .other) }
  observe _ _ := modifyGet fun count => (some .other, count + 1)

/-- Matchers that find something, one whose scan crashes and one that misses it, one with earlier
values, and one that nothing asks for. -/
def calls : List ClientCall :=
  [.exactClass "A", .all .cls [.superclass 0], .all .method [.declaringClass 0, .key "run"],
    .all .constructor [.declaringClass 0],
    .all .cls [.interfaces (.or (.member (.value 1)) (.anyOf 3)), .superclass 0],
    .observe 4 .onMiss 0, .first .cls [.superclass 4, .key "kept"],
    .all .field [.declaringClass 5], .observe 6 .onMatch 0, .all .cls []]

/-- Two more matchers that depend on each other. -/
def cycle : List ClientCall :=
  [.matcher .cls, .all .cls [.superclass 8], .edit 8 [.superclass 9], .build 8]

/-- An earlier result, whose handles mean nothing any more. -/
def last : MatchResult where
  sweeps := 1
  reports := [
    { slot := 0
      kind := .cls
      key := some "kept"
      outcome := .resolved
      values := [.cls ⟨7⟩]
      names := [{ cls := "B" }] }]

def session (calls : List ClientCall) : Session where
  graph := Graph.afterAll {} calls
  config := { missPolicy := .forceEmpty }
  last := some last

theorem graph_session (calls : List ClientCall) :
    (session calls).graph = Graph.afterAll {} calls := rfl

/-- A run of the matchers, with the tasks of a batch in reverse order. -/
def run (calls : List ClientCall) : Except RunError MatchResult × Progress Nat :=
  (session calls).execute List.reverse [["B", "A"]] host 0

theorem built (calls : List ClientCall) (h : ClientCall.AllInRange calls {}) :
    (session calls).graph.Built :=
  Graph.Built.empty.afterAll h

end Sample

end Metamatch
