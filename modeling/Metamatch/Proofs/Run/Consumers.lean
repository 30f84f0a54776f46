import Metamatch.Proofs.Clients
import Metamatch.Proofs.Run.Configs

/-!
# Consumers

What asks for the values of a matcher can be told from its key, from the observers that the client
has attached, and from what the constraints of the other matchers mention. How often any of it was
set and replaced on the way does not matter.

* `Constraints.Mentions`: constraints that name a matcher.
* `Graph.observed_afterAll`: a matcher is observed if and only if an observer was attached to it.
* `Session.Unconsumed`: nothing asks for the values of a matcher.
* `prunings_of_execute`: a run that prunes leaves out what is not consumed, and nothing else.
-/

namespace Metamatch

variable {σ : Type}

/-! ## Mentions -/

/-- The constraints name this matcher, as a single class or at a leaf of a test. -/
def Constraints.Mentions (c : Constraints) (m : Slot) : Prop :=
  (c.superclass = some m ∨ c.declaringClass = some m ∨ c.valueType = some m) ∨
    (∃ test, c.interfaces = some test ∧ m ∈ test.leaves) ∨
      ∃ test, c.parameterTypes = some test ∧ m ∈ test.leaves

theorem SetTest.mem_slotsOf {test : Option SetTest} {m : Slot} :
    m ∈ slotsOf test ↔ ∃ inner, test = some inner ∧ m ∈ inner.leaves := by
  cases test with
  | none => simp [slotsOf]
  | some test => simp [slotsOf, mem_slots]

theorem Constraints.mem_references {c : Constraints} {m : Slot} :
    m ∈ c.references ↔ c.Mentions m := by
  simp only [references, singleSlots, testSlots, Mentions, List.mem_append, Option.mem_toList,
    SetTest.mem_slotsOf, or_assoc]

/-! ## Observers -/

namespace Graph

variable {g : Graph} {m : Slot} {node : Node} {calls : List ClientCall}

theorem mem_observers {empty : Bool} {number : Nat} (hnode : g.get? m = some node) :
    number ∈ g.observers m empty ↔ .observer (.of empty) number ∈ node.subscribers := by
  rw [← List.count_pos_iff, count_observers hnode, List.count_pos_iff]

theorem mem_attached {trigger : Trigger} {number : Nat} :
    number ∈ ClientCall.attached trigger m calls ↔
      ClientCall.observe m trigger number ∈ calls := by
  rw [ClientCall.attached, List.mem_filterMap]
  constructor
  · rintro ⟨call, hcall, hattached⟩
    cases call with
    | observe slot trigger' number' =>
      rw [ClientCall.attached?] at hattached
      split_ifs at hattached with hslot
      cases hattached
      rwa [← hslot.1, ← hslot.2]
    | _ => cases hattached
  · intro hcall
    exact ⟨_, hcall, if_pos ⟨rfl, rfl⟩⟩

/-- **A matcher is observed if and only if an observer was attached to it**, whatever else the calls
have done since. -/
theorem observed_afterAll (hcalls : ClientCall.AllInRange calls {})
    (hnode : (Graph.afterAll {} calls).get? m = some node) :
    node.Observed ↔ ∃ trigger number, ClientCall.observe m trigger number ∈ calls := by
  have hmem : ∀ empty number, .observer (.of empty) number ∈ node.subscribers ↔
      ClientCall.observe m (.of empty) number ∈ calls := by
    intro empty number
    rw [← mem_observers hnode, (observers_afterAll hcalls).mem_iff, ← mem_attached]
    rfl
  have hof : ∀ trigger : Trigger, ∃ empty, trigger = .of empty := by
    intro trigger
    cases trigger
    · exact ⟨false, rfl⟩
    · exact ⟨true, rfl⟩
  refine exists_congr fun trigger => exists_congr fun number => ?_
  obtain ⟨empty, rfl⟩ := hof trigger
  exact hmem empty number

end Graph

/-! ## Runs -/

namespace Session

/-- Nothing asks for the values of a matcher: it has no key, no call attaches an observer to it,
and matchers whose constraints name it have taken their own values over, as the result tells by
their sweep. -/
structure Unconsumed (session : Session) (calls : List ClientCall) (result : MatchResult)
    (m : Slot) (node : Node) : Prop where
  key : node.key = none
  observers : ∀ trigger number, ClientCall.observe m trigger number ∉ calls
  mentions : ∀ k other, session.graph.get? k = some other → other.constraints.Mentions m →
    result.sweep? k = some 0

variable {session : Session} {host : Host σ} {world : σ} {arrange : List Slot → List Slot}
  {lists : List (List String)} {ground : Ground} {pub : Publications} {result : MatchResult}
  {ctx : RunContext σ} {p : Progress σ} {m k : Slot} {node : Node}

theorem Finished.sweep?_eq_zero (h : session.Finished ctx world ground pub result p) :
    result.sweep? m = some 0 ↔ m ∈ session.seeded ctx.host world := by
  constructor
  · intro hsweep
    by_contra hm
    have hdue := (h.timed.due m hm 0 hsweep).2
    have hpos := @one_le_dueSweep session.graph.rank (fun d => (result.sweep? d).getD 0)
      (session.dependencies ctx.host world m) m
    omega
  · exact h.timed.seeded m

theorem mem_dependencies : m ∈ session.dependencies host world k ↔
    k ∉ session.seeded host world ∧
      ∃ other, session.graph.get? k = some other ∧ other.constraints.Mentions m := by
  by_cases hk : k ∈ session.seeded host world
  · simp [dependencies, hk]
  · cases hnode : session.graph.get? k with
    | none => simp [dependencies, Graph.references, hnode]
    | some other =>
      rw [dependencies, if_neg hk, Graph.references_of_get? hnode, Constraints.mem_references]
      simp [hk]

end Session

/-- **A run that prunes leaves out exactly what is not consumed**: matchers without a key, without
an observer, and without a matcher that refers to them in the end and is searched for. -/
theorem prunings_of_execute {session : Session} {calls : List ClientCall}
    (hcalls : ClientCall.AllInRange calls {}) (hgraph : session.graph = Graph.afterAll {} calls)
    {arrange : List Slot → List Slot} (harrange : ∀ items, (arrange items).Perm items)
    (lists : List (List String)) (host : Host σ) (world : σ) {result : MatchResult}
    (hresult : (session.execute arrange lists host world).1 = .ok result) :
    (∀ k, result.sweep? k = some 0 ↔ k ∈ session.seeded host world) ∧
    (session.config.pruneUnconsumed = false → ∀ m, result.outcome? m ≠ some .pruned) ∧
    (session.config.pruneUnconsumed = true → ∀ m node, session.graph.get? m = some node →
      (result.outcome? m = some .pruned ↔ session.Unconsumed calls result m node)) := by
  have hg : session.graph.Built := hgraph ▸ Graph.Built.empty.afterAll hcalls
  obtain ⟨ground, pub, h⟩ := (session.execute_ends hg harrange lists host world).of_ok hresult
  have hground : session.Grounds host world ground := h.grounds
  have hseeded : ∀ k, result.sweep? k = some 0 ↔ k ∈ session.seeded host world :=
    fun k => h.sweep?_eq_zero
  refine ⟨hseeded, fun hoff m hm => ?_, fun hon m node hnode => ?_⟩
  · obtain ⟨hsize, hpruned⟩ := h.pruned_iff.1 hm
    obtain ⟨node, hnode⟩ := Graph.lt_size_iff.1 hsize
    exact hpruned ((hground.unpruned_iff hnode).2 fun hon => absurd (hoff.symm.trans hon) nofun)
  · have hobserved : node.Observed ↔ ∃ trigger number, .observe m trigger number ∈ calls :=
      Graph.observed_afterAll hcalls (hgraph ▸ hnode)
    have hdependents : (∃ k, m ∈ session.dependencies host world k) ↔ ∃ k other,
        session.graph.get? k = some other ∧ other.constraints.Mentions m ∧
          result.sweep? k ≠ some 0 := by
      simp only [Session.mem_dependencies, ne_eq, hseeded]
      exact exists_congr fun k => ⟨fun ⟨hk, other, hother, hm⟩ => ⟨other, hother, hm, hk⟩,
        fun ⟨other, hother, hm, hk⟩ => ⟨hk, other, hother, hm⟩⟩
    rw [h.pruned_iff, hground.unpruned_iff hnode, hobserved, hdependents]
    simp only [hon, forall_const, Graph.lt_size hnode, true_and, not_or, not_exists, not_and,
      ne_eq, not_not]
    exact ⟨fun ⟨hmentions, hobservers, hkey⟩ => ⟨hkey, hobservers, hmentions⟩,
      fun hm => ⟨hm.mentions, hm.observers, hm.key⟩⟩

namespace Sample

/-- A reference that is replaced by another one, which is given up for earlier values, and a chain
of matchers at whose end nothing is asked for. -/
def replaced : List ClientCall :=
  [.exactClass "A", .exactClass "B", .first .cls [.superclass 1, .superclass 0, .key "kept"],
    .all .cls [.interfaces (.not (.anyOf 2))], .all .method [.declaringClass 3], .all .cls [],
    .observe 5 .onMiss 0]

/-- A session that leaves out what nothing asks for. -/
def pruning (calls : List ClientCall) : Session := (session calls).withPruning true

theorem graph_pruning (calls : List ClientCall) :
    (pruning calls).graph = Graph.afterAll {} calls := rfl

/-- A run of these matchers. -/
def runReplaced : Except RunError MatchResult × Progress Nat :=
  (pruning replaced).execute List.reverse [["B", "A"]] host 0

end Sample

/-- Neither a reference that was replaced nor one that was given up keeps a matcher in the run, but
one by a matcher that is left out itself does, and so does an observer. -/
theorem prunings_of_replaced :
    ∃ result node, Sample.runReplaced.1 = .ok result ∧
      (Sample.pruning Sample.replaced).graph.get? 1 = some node ∧
      (Sample.pruning Sample.replaced).Unconsumed Sample.replaced result 1 node ∧
      result.reports.map (·.outcome) =
        [.pruned, .pruned, .resolved, .resolved, .pruned, .resolved] := by
  have houtcomes : Sample.runReplaced.1.toOption.map (·.reports.map (·.outcome)) =
      some [.pruned, .pruned, .resolved, .resolved, .pruned, .resolved] := by
    decide +kernel
  have hsize : 1 < (Sample.pruning Sample.replaced).graph.size := by decide +kernel
  have hall := fun result => @prunings_of_execute _ (Sample.pruning Sample.replaced)
    Sample.replaced (by decide +kernel) (Sample.graph_pruning _) List.reverse
    (fun items => items.reverse_perm) [["B", "A"]] Sample.host 0 result
  change ∀ result, Sample.runReplaced.1 = .ok result → _ at hall
  generalize Sample.runReplaced.1 = outcome at houtcomes hall
  cases outcome with
  | error e => cases houtcomes
  | ok result =>
    have hreports := Option.some.inj houtcomes
    obtain ⟨-, -, hpruned⟩ := hall result rfl
    obtain ⟨node, hnode⟩ := Graph.lt_size_iff.1 hsize
    have h1 : result.outcome? 1 = some .pruned := by
      have hget := congrArg (·[1]?) hreports
      simpa [MatchResult.outcome?, MatchResult.report?] using hget
    exact ⟨result, node, rfl, hnode, (hpruned rfl 1 node hnode).1 h1, hreports⟩

end Metamatch
