import Metamatch.Proofs.Run.Finish

/-!
# Counters during a run

Whatever the host answers and whatever the order of the tasks, the counters agree with lists and
publications all the time, so no publication is refused and only the name catalog, or a crash
outside the tasks, can end a run early.

* `counters_of_execute`: the steps of a run, from its first graph to its last.
-/

namespace Metamatch

open Progress (At Failed)

variable {σ : Type} {session : Session} {arrange : List Slot → List Slot}

theorem Progress.At.balanced {ctx : RunContext σ} {start : Graph} {ground : Ground}
    {pub : Publications} {p : Progress σ} (h : At ctx start ground pub p) : p.graph.Balanced := by
  rw [h.graph]
  exact Ground.balanced_after

/-- **The counters agree with lists and publications throughout a run**, cyclic references or not.
No step takes more off a counter than it holds, and no error comes of it. -/
theorem counters_of_execute (hg : session.graph.Built)
    (harrange : ∀ items, (arrange items).Perm items) (lists : List (List String)) (host : Host σ)
    (world : σ) :
    Recorded session.graph (session.execute arrange lists host world).2.steps
      (session.execute arrange lists host world).2.graph ∧
    (∀ step ∈ (session.execute arrange lists host world).2.steps, step.Safe) ∧
    (session.execute arrange lists host world).2.graph.Balanced ∧
    ∀ names e, (session.runArranged arrange names host world).1 = .error (.session e) →
      ∃ c, names = .error c ∧ e = .catalog c := by
  have hends := fun lists => session.execute_ends hg harrange lists host world
  obtain ⟨ground, pub, hp⟩ : ∃ ground pub, At (session.context arrange lists host) session.graph
      ground pub (session.execute arrange lists host world).2 :=
    (hends lists).state (fun _ _ ⟨ground, pub, h⟩ => ⟨ground, pub, h.standing⟩) fun _ _ h => h.2
  refine ⟨hp.recorded, hp.safe, hp.balanced, fun names e he => ?_⟩
  cases names with
  | error c =>
    simp only [Session.runArranged, Except.error.injEq, RunError.session.injEq] at he
    exact ⟨c, rfl, he.symm⟩
  | ok lists =>
    change (session.execute arrange lists host world).1 = _ at he
    obtain ⟨⟨payload, hpayload⟩, -⟩ := (hends lists).of_error he
    cases hpayload

theorem counters_of_sample :
    (Sample.run (Sample.calls ++ Sample.cycle)).2.graph.Balanced ∧
      ∀ step ∈ (Sample.run (Sample.calls ++ Sample.cycle)).2.steps, step.Safe := by
  unfold Sample.run
  obtain ⟨-, hsafe, hbalanced, -⟩ := counters_of_execute
    (Sample.built (Sample.calls ++ Sample.cycle) (by decide +kernel))
    (fun items => items.reverse_perm) [["B", "A"]] Sample.host 0
  exact ⟨hbalanced, hsafe⟩

end Metamatch
