import Metamatch.Proofs.Renaming
import Metamatch.Proofs.Run.Finish
import Metamatch.Proofs.Run.Invariant

/-!
# The graphs that a run goes through

A run changes its graph step by step: references are given up and values are published. What no
such change undoes, no run undoes.

* `Progress.graphs`: the graphs of a run in order.
* `Session.pairwise_graphs`: a relation that holds across every change holds between any two of
  them.
* `SetTest.holds_congr`: a test is decided by the values of its slots.
* `tests_of_execute`: once these are published, it says the same for the rest of the run.
-/

namespace Metamatch

variable {σ : Type}

/-- The graphs of a run so far, the first one first: the one that each change has found, and the
one that the last change has left. -/
def Progress.graphs (p : Progress σ) : List Graph :=
  (p.steps.map (·.before)).reverse ++ [p.graph]

/-! ## Relations that changes keep -/

section Relation

variable {r : Graph → Graph → Prop}

/-- The start of a run and its graphs, each related to the next. -/
def Progress.Related (r : Graph → Graph → Prop) (start : Graph) (p : Progress σ) : Prop :=
  (start :: p.graphs).IsChain r

theorem Progress.Related.change {start g : Graph} {p : Progress σ} (h : p.Related r start)
    (hg : r p.graph g) (change : Change) :
    Progress.Related r start { p with graph := g, steps := ⟨p.graph, change⟩ :: p.steps } := by
  unfold Related
  rw [graphs, List.map_cons, List.reverse_cons, List.append_assoc, ← List.cons_append,
    List.singleton_append, List.isChain_split]
  exact ⟨h, List.isChain_pair.2 hg⟩

/-- **What no change undoes, no run undoes.** -/
theorem Session.pairwise_graphs (hrefl : ∀ g, r g g)
    (htrans : ∀ g₁ g₂ g₃, r g₁ g₂ → r g₂ g₃ → r g₁ g₃) (hdetach : ∀ g slot, r g (g.detach slot))
    (hpublish : ∀ g g' slot values sweep, g.publish slot values sweep = .ok g' → r g g')
    (session : Session) (arrange : List Slot → List Slot) (lists : List (List String))
    (host : Host σ) (world : σ) :
    (session.graph :: (session.execute arrange lists host world).2.graphs).Pairwise r := by
  have hkeeps : Run.Invariant (session.context arrange lists host) session.last (fun _ _ => True)
      (Progress.Related r session.graph) := by
    refine .of_keeps ?search ?gather ?reports ?consult ?draw ?detach ?publish
    case search | gather | reports | consult | draw =>
      intros
      exact Keeps.of_state fun _ hp => hp
    case detach =>
      exact fun slot => Run.detach_keeps (fun p hp => hp.change (hrefl p.graph) _)
        fun p hp => hp.change (hdetach p.graph slot) _
    case publish =>
      refine fun slot values sweep => Run.publish_keeps ?_ fun _ => Keeps.of_state fun _ hp => hp
      exact Run.change_keeps (fun p hp => hp.change (hrefl p.graph) _)
        fun p g hp hg => hp.change (hpublish _ _ _ _ _ hg) _
  have hrelated : Progress.Related r session.graph
      (session.execute arrange lists host world).2 :=
    session.execute_keeps hkeeps (List.isChain_pair.2 (hrefl _))
  have : Trans r r r := ⟨fun h h' => htrans _ _ _ h h'⟩
  exact hrelated.pairwise

end Relation

/-! ## Tests on published values -/

/-- A test is decided by the values of its slots. -/
theorem SetTest.holds_congr {test : SetTest} {values values' : Valuation}
    (h : ∀ s ∈ test.slots, values s = values' s) (set : List Entity) :
    test.holds values set = test.holds values' set := by
  have hrename : (test.rename id).holds values' set = test.holds values set :=
    holds_rename fun s hs => h s (mem_slots.2 hs)
  rw [← hrename, rename_id]

/-- What is published stays, with its values. -/
def Graph.Retains (g g' : Graph) : Prop :=
  ∀ s values, g.valuation s = some values → g'.valuation s = some values

theorem Graph.retains_publish {g g' : Graph} {slot : Slot} {values : List Entity} {sweep : Nat}
    (h : g.publish slot values sweep = .ok g') : g.Retains g' := by
  obtain ⟨hnone, hvaluation⟩ := valuation_publish h
  intro s old hs
  rw [hvaluation, if_neg, hs]
  rintro rfl
  cases hnone.symm.trans hs

theorem Graph.retains_detach (g : Graph) (slot : Slot) : g.Retains (g.detach slot) := by
  intro s values hs
  rwa [valuation_eq_map, publication?_detach, ← valuation_eq_map]

/-- **A test depends on its slots and on nothing else**, so that it says the same for the rest of a
run once they are published. -/
theorem tests_of_execute (test : SetTest) (session : Session) (arrange : List Slot → List Slot)
    (lists : List (List String)) (host : Host σ) (world : σ) :
    test.slots.Pairwise (· < ·) ∧ (∀ s, s ∈ test.slots ↔ test.Reads s) ∧
    (∀ values values' : Valuation, (∀ s ∈ test.slots, values s = values' s) →
      ∀ set, test.holds values set = test.holds values' set) ∧
    (session.graph :: (session.execute arrange lists host world).2.graphs).Pairwise fun g g' =>
      (∀ s ∈ test.slots, (g.valuation s).isSome) →
        ∀ set, test.holds g'.valuation set = test.holds g.valuation set := by
  refine ⟨test.pairwise_slots, fun s => SetTest.mem_slots_iff,
    fun values values' h set => SetTest.holds_congr h set, ?_⟩
  have hretains := session.pairwise_graphs (fun _ _ _ hs => hs)
    (fun _ _ _ h h' s values hs => h' s values (h s values hs)) Graph.retains_detach
    (fun _ _ _ _ _ => Graph.retains_publish) arrange lists host world
  refine hretains.imp fun h hpublished set => SetTest.holds_congr (fun s hs => ?_) set
  obtain ⟨values, hvalues⟩ := Option.isSome_iff_exists.1 (hpublished s hs)
  rw [hvalues, h s values hvalues]

/-- A test that reads one of its slots three times. -/
def Sample.nested : SetTest :=
  .not (.and (.member (.parameter 5 1)) (.or (.and (.anyOf 1) (.allOf 5)) (.nonMember (.value 5))))

theorem tests_of_sample : Sample.nested.slots = [1, 5] ∧
    ∃ g ∈ (Sample.run Sample.calls).2.graphs, (g.valuation 4).isNone ∧
      ((Sample.run Sample.calls).2.graph.valuation 4).isSome ∧ ∀ set,
        Sample.nested.holds (Sample.run Sample.calls).2.graph.valuation set =
          Sample.nested.holds (fun s => if s = 4 then some [.cls ⟨7⟩] else g.valuation s) set := by
  have hslots : Sample.nested.slots = [1, 5] := by decide +kernel
  have hstep : ∃ step ∈ (Sample.run Sample.calls).2.steps,
      (∀ s ∈ Sample.nested.slots, (step.before.valuation s).isSome) ∧
      (step.before.valuation 4).isNone ∧
      ((Sample.run Sample.calls).2.graph.valuation 4).isSome := by
    decide +kernel
  obtain ⟨step, hmem, hpublished, hnone, hsome⟩ := hstep
  obtain ⟨-, -, hcongr, hlater⟩ := tests_of_execute Sample.nested (Sample.session Sample.calls)
    List.reverse [["B", "A"]] Sample.host 0
  rw [← Sample.run] at hlater
  generalize (Sample.run Sample.calls).2 = p at hmem hsome hlater
  have hbefore : step.before ∈ (p.steps.map (·.before)).reverse :=
    List.mem_reverse.2 (List.mem_map_of_mem hmem)
  have hsame := (List.pairwise_append.1 (List.pairwise_cons.1 hlater).2).2.2 step.before hbefore
    p.graph (List.mem_singleton_self _) hpublished
  refine ⟨hslots, step.before, List.mem_append_left _ hbefore, hnone, hsome, fun set => ?_⟩
  refine (hsame set).trans (hcongr _ _ (fun s hs => ?_) set)
  rw [if_neg]
  rintro rfl
  rw [hslots] at hs
  exact absurd hs (by decide)

end Metamatch
