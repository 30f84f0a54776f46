import Metamatch.Proofs.Clients
import Metamatch.Proofs.Run.Admission
import Metamatch.Proofs.Run.Finish
import Metamatch.Proofs.Saved

/-!
# What placeholders hold

A run finds values of the kind of their matcher, and one of them at most for a matcher that stops
at its first candidate. Values that are taken over from an earlier result are as many as they were
there, and of the kinds that they had there.

* `singles_of_execute`: the number of values of a matcher that stops at its first candidate.
* `MatchResult.Chain`: results of sessions that take over values from one another.
* `kinds_of_chain`: the kinds of the values in such results.
-/

namespace Metamatch

variable {σ : Type}

/-! ## Single values -/

/-- **A matcher that stops at its first candidate holds one value at most**, unless it takes over
the values of an earlier report. Then it holds as many as there are in the report, whoever found
them, and holds them before the first sweep. -/
theorem singles_of_execute {calls : List ClientCall} {session : Session}
    (hgraph : session.graph = Graph.afterAll {} calls) (arrange : List Slot → List Slot)
    (lists : List (List String)) (host : Host σ) (world : σ) {m : Slot} {node : Node}
    (hnode : session.graph.get? m = some node) (hfirst : node.constraints.matchFirst = true)
    {published : Published}
    (hpublished : ((session.execute arrange lists host world).2.graph.get? m).bind (·.published) =
      some published) :
    published.values.length ≤ 1 ∨ published.sweep = 0 ∧ ∃ last report, session.last = some last ∧
      last.offer? node = some report ∧ published.values.length = report.values.length := by
  have hadmitted := session.admitted_execute
    (fun s node hs => Graph.published_afterAll (hgraph ▸ hs)) arrange lists host world
  obtain ⟨last, hlast, hown⟩ := Option.bind_eq_some_iff.1 hpublished
  have hdesign := hadmitted.design m
  rw [hlast, hnode, Option.map_some, Option.map_some, Option.some_inj] at hdesign
  cases (hadmitted.published m last published hlast hown).congr hdesign.symm with
  | searched hkeeps => exact .inl (hkeeps.first hfirst)
  | takenOver hlast hoffer hkinds =>
    have hlength := congrArg List.length hkinds
    rw [List.length_map, List.length_map] at hlength
    exact .inr ⟨rfl, _, _, hlast, hoffer, hlength⟩

namespace Sample

/-- All classes under a key. -/
def plural : Session where
  graph := Graph.afterAll {} [.all .cls [.key "kept"]]

/-- The first class under the same key, with an earlier result. -/
def single (last : MatchResult) : Session where
  graph := Graph.afterAll {} [.first .cls [.key "kept"]]
  last := some last

end Sample

/-- A matcher that stops at its first candidate can take over two values. -/
theorem two_values_of_single :
    ∃ last result, (Sample.plural.execute id [["B", "A"]] Sample.host 0).1 = .ok last ∧
      ((Sample.single last).execute id [["B", "A"]] Sample.host 0).1 = .ok result ∧
      ((Sample.single last).graph.get? 0).any (·.constraints.matchFirst) = true ∧
      (result.values 0).length = 2 := by
  have hruns : ((Sample.plural.execute id [["B", "A"]] Sample.host 0).1.toOption.bind fun last =>
      ((Sample.single last).execute id [["B", "A"]] Sample.host 0).1.toOption.map fun result =>
        (((Sample.single last).graph.get? 0).any (·.constraints.matchFirst),
          (result.values 0).length)) = some (true, 2) := by
    decide +kernel
  obtain ⟨last, hlast, hruns⟩ := Option.bind_eq_some_iff.1 hruns
  obtain ⟨result, hresult, hruns⟩ := Option.map_eq_some_iff.1 hruns
  rw [Prod.mk.injEq] at hruns
  exact ⟨last, result, eq_ok_of_toOption hlast, eq_ok_of_toOption hresult, hruns⟩

/-- The two values are those of the earlier report. -/
theorem singles_of_single :
    ∃ last published report, (Sample.plural.execute id [["B", "A"]] Sample.host 0).1 = .ok last ∧
      ((((Sample.single last).execute id [["B", "A"]] Sample.host 0).2.graph.get? 0).bind
        (·.published)) = some published ∧
      published.sweep = 0 ∧ last.keyed? "kept" = some report ∧ published.values.length = 2 ∧
      report.values.length = 2 := by
  have hruns : ((Sample.plural.execute id [["B", "A"]] Sample.host 0).1.toOption.bind fun last =>
      (((Sample.single last).execute id [["B", "A"]] Sample.host 0).2.graph.get? 0).bind
        (·.published)).map (·.values.length) = some 2 := by
    decide +kernel
  obtain ⟨published, hruns, hlength⟩ := Option.map_eq_some_iff.1 hruns
  obtain ⟨last, hlast, hpublished⟩ := Option.bind_eq_some_iff.1 hruns
  obtain ⟨node, hnode, hfirst, hkey⟩ : ∃ node, (Sample.single last).graph.get? 0 = some node ∧
      node.constraints.matchFirst = true ∧ node.key = some "kept" :=
    ⟨_, rfl, rfl, rfl⟩
  rcases @singles_of_execute _ _ (Sample.single last) rfl id [["B", "A"]] Sample.host 0 _ _ hnode
    hfirst _ hpublished with hone | ⟨hsweep, other, report, hother, hoffer, hreport⟩
  · omega
  · cases hother
    obtain ⟨key, hkey', hkeyed, -⟩ := MatchResult.keyed?_of_offer? hoffer
    cases hkey.symm.trans hkey'
    exact ⟨last, published, report, eq_ok_of_toOption hlast, hpublished, hsweep, hkeyed, hlength,
      hreport ▸ hlength⟩

/-! ## Kinds -/

/-- Every value of a report is of its kind. -/
def MatchResult.Kinded (result : MatchResult) : Prop :=
  ∀ report ∈ result.reports, ∀ value ∈ report.values, value.kind = report.kind

theorem MatchResult.Kinded.of_offer? {last : MatchResult} (h : last.Kinded) {node : Node}
    {report : Report} (hoffer : last.offer? node = some report) :
    ∀ value ∈ report.values, value.kind = node.kind := by
  obtain ⟨key, -, hkeyed, hoffers⟩ := MatchResult.keyed?_of_offer? hoffer
  have hkind : report.kind = node.kind := by
    simp only [Report.offers, Bool.and_eq_true, beq_iff_eq] at hoffers
    exact hoffers.1.1
  exact hkind ▸ h report (MatchResult.mem_of_keyed? hkeyed).1

theorem Node.Admits.kind {last : Option MatchResult} {node : Node} {published : Published}
    (h : node.Admits last published) (hlast : ∀ earlier ∈ last, earlier.Kinded) :
    ∀ value ∈ published.values, value.kind = node.kind := by
  cases h with
  | searched hkeeps => exact hkeeps.kind
  | @takenOver earlier report values hearlier hoffer hkinds =>
    have hreport := (hlast earlier hearlier).of_offer? hoffer
    intro value hvalue
    have hmem : value.kind ∈ report.values.map Entity.kind :=
      hkinds ▸ List.mem_map_of_mem hvalue
    obtain ⟨old, hold, hkind⟩ := List.mem_map.1 hmem
    exact hkind ▸ hreport old hold

/-- A run that starts from a result whose values are of their kinds returns another one, with a
report of the right kind for each matcher. -/
theorem Session.execute_kinded {session : Session} {calls : List ClientCall}
    (hgraph : session.graph = Graph.afterAll {} calls)
    (hlast : ∀ earlier ∈ session.last, earlier.Kinded) {arrange : List Slot → List Slot}
    {lists : List (List String)} {host : Host σ} {world : σ} {result : MatchResult}
    (hresult : (session.execute arrange lists host world).1 = .ok result) :
    result.reports.map (·.kind) = calls.filterMap ClientCall.made? ∧ result.Kinded := by
  have hadmitted := session.admitted_execute
    (fun s node hs => Graph.published_afterAll (hgraph ▸ hs)) arrange lists host world
  have htells : result.Tells session.config.pruneUnconsumed
      (session.execute arrange lists host world).2.graph :=
    (session.execute_tells arrange lists host world).of_ok hresult
  constructor
  · have hkinds : result.reports.map (·.kind) =
        (session.execute arrange lists host world).2.graph.nodes.map (·.kind) := by
      rw [← List.forall₂_eq_eq_eq, List.forall₂_map_left_iff, List.forall₂_map_right_iff]
      exact List.Forall₂.imp (fun _ _ ht => ht.kind) htells
    have hdesign : (session.execute arrange lists host world).2.graph.nodes.map (·.kind) =
        session.graph.nodes.map (·.kind) := by
      refine Graph.map_nodes_congr fun s => ?_
      have hs := congrArg (Option.map Prod.fst) (hadmitted.design s)
      rwa [Option.map_map, Option.map_map] at hs
    have hmade := congrArg (List.map Prod.fst) (Graph.kinds_afterAll {} calls)
    simp only [← hgraph, List.map_append, List.map_map] at hmade
    rw [hkinds, hdesign]
    exact hmade.trans (List.map_id _)
  · intro report hreport value hvalue
    obtain ⟨m, hm⟩ := List.getElem?_of_mem hreport
    obtain ⟨node, hnode, ht⟩ := htells.get? hm
    rw [ht.values] at hvalue
    cases hpublished : node.published with
    | none =>
      rw [hpublished] at hvalue
      cases hvalue
    | some published =>
      rw [hpublished] at hvalue
      rw [ht.kind]
      exact (hadmitted.published m node published hnode hpublished).kind hlast value hvalue

/-- Results of sessions one after the other, with the calls that built the last of them. Each but
the first has the result before it as its earlier one, either as it is or as its text reads
back. -/
inductive MatchResult.Chain : List ClientCall → MatchResult → Prop
  | first {σ : Type} {calls : List ClientCall} {session : Session} {arrange : List Slot → List Slot}
    {lists : List (List String)} {host : Host σ} {world : σ} {result : MatchResult} :
    session.graph = Graph.afterAll {} calls → session.last = none →
      (session.execute arrange lists host world).1 = .ok result → Chain calls result
  | next {σ : Type} {before calls : List ClientCall} {earlier last : MatchResult}
    {session : Session} {arrange : List Slot → List Slot} {lists : List (List String)}
    {host : Host σ} {world : σ} {result : MatchResult} :
    Chain before earlier → (last = earlier ∨ load? earlier.save = some last) →
      session.graph = Graph.afterAll {} calls → session.last = some last →
      (session.execute arrange lists host world).1 = .ok result → Chain calls result

/-- **Placeholders are of their kinds along any chain of runs.** The matchers are reported with the
kinds that the calls made them with, one by one, and every value of a report is of the kind of the
report. -/
theorem kinds_of_chain {calls : List ClientCall} {result : MatchResult}
    (h : MatchResult.Chain calls result) :
    result.reports.map (·.kind) = calls.filterMap ClientCall.made? ∧
      ∀ report ∈ result.reports, ∀ value ∈ report.values, value.kind = report.kind := by
  induction h with
  | first hgraph hlast hresult =>
    exact Session.execute_kinded hgraph (fun _ h => by rw [hlast] at h; cases h) hresult
  | @next _ _ _ earlier last _ _ _ _ _ _ _ hlink hgraph hlast hresult ih =>
    have hsame : last = earlier := by
      rcases hlink with hsame | hload
      · exact hsame
      · exact ((MatchResult.load?_save earlier last).1 hload).2
    refine Session.execute_kinded hgraph (fun other h => ?_) hresult
    rw [hlast] at h
    cases h
    exact hsame ▸ ih.2

/-- A session of the sample with an earlier result or without one. -/
def Sample.link (last : Option MatchResult) : Session where
  graph := Graph.afterAll {} Sample.calls
  last := last

/-- The sample, run twice in a row. -/
theorem kinds_of_links :
    ∃ earlier result, ((Sample.link none).execute id [["B", "A"]] Sample.host 0).1 = .ok earlier ∧
      ((Sample.link (some earlier)).execute id [["B", "A"]] Sample.host 0).1 = .ok result ∧
      result.reports.map (·.kind) =
        [.cls, .cls, .method, .constructor, .cls, .cls, .field, .cls] ∧
      ∀ report ∈ result.reports, ∀ value ∈ report.values, value.kind = report.kind := by
  have hruns : (((Sample.link none).execute id [["B", "A"]] Sample.host 0).1.toOption.bind
      fun earlier => ((Sample.link (some earlier)).execute id [["B", "A"]]
        Sample.host 0).1.toOption).isSome := by
    decide +kernel
  obtain ⟨result, hruns⟩ := Option.isSome_iff_exists.1 hruns
  obtain ⟨earlier, hearlier, hresult⟩ := Option.bind_eq_some_iff.1 hruns
  have hgraph : ∀ last, (Sample.link last).graph = Graph.afterAll {} Sample.calls := fun last => by
    rw [Sample.link]
  have hchain : MatchResult.Chain Sample.calls result :=
    .next (.first (hgraph none) rfl (eq_ok_of_toOption hearlier)) (.inl rfl) (hgraph _) rfl
      (eq_ok_of_toOption hresult)
  exact ⟨earlier, result, eq_ok_of_toOption hearlier, eq_ok_of_toOption hresult,
    kinds_of_chain hchain⟩

end Metamatch
