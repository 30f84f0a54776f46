import Metamatch.Proofs.Clients
import Metamatch.Proofs.Run.Calls
import Metamatch.Proofs.Run.Completion

/-!
# Observers hear of an outcome once

* `Step.notices_released`: no observer is called before the dependents are released.
* `Session.Finished.callsDue_eq`: the outcomes that are reported, by the values of the last graph.
* `notices_of_execute`: the calls of a run that returns.
-/

namespace Metamatch

variable {σ : Type}

/-! ## Dependents are released first -/

/-- An observer is called once the values are there and the dependents are released, each as often
as it is on the list of the slot. -/
theorem Step.notices_released {step : Step} (h : step.Safe) {notice : Notice}
    (hnotice : notice ∈ step.notices) :
    ∃ sweep, step.change = .publish notice.slot notice.values sweep ∧
      notice.graph.valuation notice.slot = some notice.values ∧
      ∀ m node, m ≠ notice.slot → step.before.get? m = some node →
        ∃ released, notice.graph.get? m = some released ∧
          released.counter + step.before.subscriptions m notice.slot = node.counter := by
  obtain ⟨before, change⟩ := step
  cases change with
  | detach slot => cases hnotice
  | publish slot values sweep =>
    cases hpublish : before.publish slot values sweep with
    | error e => simp [Step.notices, hpublish, Except.toOption] at hnotice
    | ok g =>
      rw [Step.notices_of_publish hpublish] at hnotice
      obtain ⟨number, -, rfl⟩ := List.mem_map.1 hnotice
      refine ⟨sweep, rfl, ?_, fun m node hm hnode => ?_⟩
      · rw [(Graph.valuation_publish hpublish).2, if_pos rfl]
      · exact h.released hpublish hm hnode

/-! ## Outcomes -/

/-- The calls that the observers of a slot are to get, by what became of its matcher. -/
def MatchResult.callsDue (result : MatchResult) (calls : List ClientCall) (m : Slot) :
    List (Nat × List Entity) :=
  match result.outcome? m with
  | some .resolved => (ClientCall.attached .onMatch m calls).map (·, result.values m)
  | some .missed => (ClientCall.attached .onMiss m calls).map (·, [])
  | some .unresolved | some .pruned | none => []

namespace Session.Finished

variable {session : Session} {arrange : List Slot → List Slot} {lists : List (List String)}
  {host : Host σ} {world : σ} {ground : Ground} {pub : Publications} {result : MatchResult}
  {p : Progress σ}

theorem callsDue_eq
    (h : session.Finished (session.context arrange lists host) world ground pub result p)
    (calls : List ClientCall) (m : Slot) :
    result.callsDue calls m = (p.graph.valuation m).toList.flatMap fun values =>
      (ClientCall.attached (.of values.isEmpty) m calls).map (·, values) := by
  rw [h.valuation_eq, MatchResult.callsDue]
  cases hp : pub m with
  | some published =>
    rw [h.outcome?_of_published hp, h.values_eq, Publications.values, hp]
    by_cases hvalues : published.values = []
    · simp [hvalues, Trigger.of]
    · simp [hvalues, Trigger.of]
  | none =>
    by_cases hsize : m < session.graph.size
    · rw [h.outcome?_of_unpublished hsize hp]
      split_ifs <;> rfl
    · rw [h.outcome?_eq_none (Nat.not_lt.1 hsize)]
      rfl

end Session.Finished

/-- **Observers hear of an outcome once**, with its values, when these are published and every
dependent has been released. -/
theorem notices_of_execute {calls : List ClientCall} (hcalls : ClientCall.AllInRange calls {})
    {session : Session} (hgraph : session.graph = Graph.afterAll {} calls)
    {arrange : List Slot → List Slot} (harrange : ∀ items, (arrange items).Perm items)
    (lists : List (List String)) (host : Host σ) (world : σ) {result : MatchResult}
    (hresult : (session.execute arrange lists host world).1 = .ok result) :
    (∀ m, (((session.execute arrange lists host world).2.notices.filter (·.slot = m)).map
      fun notice => (notice.observer, notice.values)).Perm (result.callsDue calls m)) ∧
    (∀ notice ∈ (session.execute arrange lists host world).2.notices,
      ∃ step ∈ (session.execute arrange lists host world).2.steps, ∃ sweep,
        step.change = .publish notice.slot notice.values sweep ∧
        notice.graph.valuation notice.slot = some notice.values ∧
        ∀ m node, m ≠ notice.slot → step.before.get? m = some node →
          ∃ released, notice.graph.get? m = some released ∧
            released.counter + step.before.subscriptions m notice.slot = node.counter) ∧
    ∀ log, host.Logs log → log (session.execute arrange lists host world).2.world = log world ++
      (session.execute arrange lists host world).2.notices.reverse.map
        fun notice => (notice.observer, notice.values) := by
  have hg : session.graph.Built := hgraph ▸ Graph.Built.empty.afterAll hcalls
  obtain ⟨ground, pub, h⟩ := (session.execute_ends hg harrange lists host world).of_ok hresult
  have hnoted := session.notices_execute arrange lists host world
  set p := (session.execute arrange lists host world).2
  refine ⟨fun m => ?_, fun notice hnotice => ?_, fun log hlog => session.log_execute hlog lists world⟩
  · have hnotices : p.notices.Perm (p.steps.flatMap Step.notices) := by
      have hperm := p.notices.reverse_perm.symm
      rw [hnoted] at hperm
      exact hperm.trans ((List.reverse_perm _).flatMap_right _)
    have hattached : ∀ empty, (session.graph.observers m empty).Perm
        (ClientCall.attached (.of empty) m calls) := by
      intro empty
      rw [hgraph]
      exact Graph.observers_afterAll hcalls
    have hslot := h.standing.recorded.map_call_slot_perm (s := m)
      hg.fresh.valuation_eq_none
    have hcalls := (((hnotices.filter (·.slot = m)).map Notice.call).trans hslot).map Prod.snd
    rw [List.map_map, List.map_flatMap] at hcalls
    rw [h.callsDue_eq]
    refine hcalls.trans (List.Perm.flatMap_left _ fun values _ => ?_)
    rw [Graph.callsOf, List.map_map]
    exact (hattached values.isEmpty).map _
  · rw [← List.mem_reverse, hnoted] at hnotice
    obtain ⟨step, hstep, hnotice⟩ := List.mem_flatMap.1 hnotice
    rw [List.mem_reverse] at hstep
    exact ⟨step, hstep, step.notices_released (h.standing.safe step hstep) hnotice⟩

namespace Sample

/-- Observers of matchers that are missed, one of them after a crash, of one that takes earlier
values over, and of one that finds some. All of them crash. -/
def attended : List ClientCall :=
  calls ++ [.observe 6 .onMatch 1, .observe 6 .onMiss 2, .observe 4 .onMiss 3, .observe 5 .onMatch 4,
    .observe 3 .onMiss 5]

/-- A run with these observers and a log of their calls. -/
def attend : Except RunError MatchResult × Progress (List (Nat × List Entity)) :=
  (session attended).execute List.reverse [["B", "A"]] recorder []

end Sample

theorem notices_of_attended :
    ∃ result, Sample.attend.1 = .ok result ∧
      [3, 4, 5, 6, 7].map (fun m => (result.callsDue Sample.attended m).map Prod.fst) =
        [[5], [0, 3], [4], [0, 1], []] ∧
      (∀ m, ((Sample.attend.2.notices.filter (·.slot = m)).map
        fun notice => (notice.observer, notice.values)).Perm
          (result.callsDue Sample.attended m)) ∧
      Sample.attend.2.world =
        Sample.attend.2.notices.reverse.map fun notice => (notice.observer, notice.values) := by
  have hdue : Sample.attend.1.toOption.map (fun result =>
      [3, 4, 5, 6, 7].map fun m => (result.callsDue Sample.attended m).map Prod.fst) =
        some [[5], [0, 3], [4], [0, 1], []] := by
    decide +kernel
  have hgraph : (Sample.session Sample.attended).graph = Graph.afterAll {} Sample.attended := by
    rw [Sample.session]
  have hall := fun result => @notices_of_execute _ Sample.attended (by decide +kernel) _ hgraph
    List.reverse (fun items => items.reverse_perm) [["B", "A"]] Sample.recorder [] result
  unfold Sample.attend at hdue ⊢
  revert hdue hall
  generalize (Sample.session Sample.attended).execute List.reverse [["B", "A"]] Sample.recorder []
    = r
  rcases r with ⟨e | result, p⟩
  · exact fun hdue => nomatch hdue
  · intro hdue hall
    obtain ⟨hperm, -, hlog⟩ := hall result rfl
    exact ⟨result, rfl, Option.some_inj.1 hdue, hperm, hlog id Sample.recorder_logs⟩

end Metamatch
