import Metamatch.Proofs.Computation
import Metamatch.Proofs.Graph.Links
import Metamatch.Proofs.Renaming
import Metamatch.Sweep

/-!
# Searches

A search reads the graph only at the references of its matcher, so it is the same search in every
graph in which these are published with the same values, by whatever names. Its failures are its
own.

* `Graph.Shares`: slots published with the same values in two graphs.
* `Run.scan_rename`, `Run.scan_shares`: a scan is the same in both.
* `TaskError.Contained`: failures that concern nothing but the task.
-/

namespace Metamatch

variable {σ τ ε α β : Type}

/-! ## References -/

namespace Constraints

variable (c : Constraints)

theorem superclass_subset : c.superclass.toList ⊆ c.references :=
  fun _ hs => List.mem_append_left _ (List.mem_append_left _ (List.mem_append_left _ hs))

theorem declaringClass_subset : c.declaringClass.toList ⊆ c.references :=
  fun _ hs => List.mem_append_left _ (List.mem_append_left _ (List.mem_append_right _ hs))

theorem valueType_subset : c.valueType.toList ⊆ c.references :=
  fun _ hs => List.mem_append_left _ (List.mem_append_right _ hs)

theorem interfaces_subset : SetTest.slotsOf c.interfaces ⊆ c.references :=
  fun _ hs => List.mem_append_right _ (List.mem_append_left _ hs)

theorem parameterTypes_subset : SetTest.slotsOf c.parameterTypes ⊆ c.references :=
  fun _ hs => List.mem_append_right _ (List.mem_append_right _ hs)

end Constraints

/-- The slots are published in one graph, and by other names in the other, with the same values. -/
def Graph.Shares (ρ : Slot → Slot) (g g' : Graph) (slots : List Slot) : Prop :=
  ∀ s ∈ slots, ∃ values, g.valuation s = some values ∧ g'.valuation (ρ s) = some values

namespace Graph

variable {ρ : Slot → Slot} {g g' : Graph} {s : Slot} {slots : List Slot}

theorem Shares.subset {slots' : List Slot} (h : Shares ρ g g' slots) (hs : slots' ⊆ slots) :
    Shares ρ g g' slots' :=
  fun s hs' => h s (hs hs')

theorem look_of_valuation {values : List Entity} (h : g.valuation s = some values) :
    g.look s = .ok values := by
  rw [valuation] at h
  rw [look]
  cases hnode : g.get? s with
  | none => simp [hnode] at h
  | some node =>
    obtain ⟨published, hp, hv⟩ : ∃ published, node.published = some published ∧
        published.values = values := by
      simpa [hnode, Option.bind_eq_some_iff] using h
    simp [hp, hv]

theorem single_shares {reference : Option Slot} (h : Shares ρ g g' reference.toList) :
    ∃ cls, g.single reference = .ok cls ∧ g'.single (reference.map ρ) = .ok cls := by
  cases reference with
  | none => exact ⟨none, rfl, rfl⟩
  | some s =>
    obtain ⟨values, hg, hg'⟩ := h s (by simp)
    refine ⟨values.head? >>= Entity.classId?, ?_, ?_⟩
    · rw [single, look_of_valuation hg]
      rfl
    · rw [Option.map_some, single, look_of_valuation hg']
      rfl

theorem allPublished_eq {values : Slot → List Entity}
    (h : ∀ s ∈ slots, g.valuation s = some (values s)) :
    g.allPublished slots = .ok (slots.all fun s => !(values s).isEmpty) := by
  induction slots with
  | nil => rfl
  | cons s rest ih =>
    rw [allPublished, look_of_valuation (h s List.mem_cons_self),
      ih fun d hd => h d (List.mem_cons_of_mem s hd), List.all_cons]
    cases values s <;> rfl

/-- A test that takes part in a search gives the same answers in both graphs. -/
theorem active_shares {test : Option SetTest} (h : Shares ρ g g' (SetTest.slotsOf test)) :
    ∃ active active', g.active test = .ok active ∧
      g'.active (test.map (·.rename ρ)) = .ok active' ∧
      (active.map fun test set => test.holds g.valuation set) =
        active'.map fun test set => test.holds g'.valuation set := by
  cases test with
  | none => exact ⟨none, none, rfl, rfl, rfl⟩
  | some test =>
    have hg : ∀ s ∈ test.slots, g.valuation s = some ((g.valuation s).getD []) := by
      intro s hs
      obtain ⟨values, hv, -⟩ := h s hs
      rw [hv]
      rfl
    have hg' : ∀ d ∈ (test.rename ρ).slots, g'.valuation d = some ((g'.valuation d).getD []) := by
      intro d hd
      obtain ⟨s, hs, rfl⟩ := SetTest.mem_slots_rename.1 hd
      obtain ⟨values, -, hv⟩ := h s hs
      rw [hv]
      rfl
    have hvalues : ∀ s ∈ test.slots, g.valuation s = g'.valuation (ρ s) := by
      intro s hs
      obtain ⟨values, hv, hv'⟩ := h s hs
      rw [hv, hv']
    have hall : (test.rename ρ).slots.all (fun d => !((g'.valuation d).getD []).isEmpty) =
        test.slots.all fun s => !((g.valuation s).getD []).isEmpty := by
      rw [Bool.eq_iff_iff, List.all_eq_true, List.all_eq_true]
      constructor
      · intro hd s hs
        rw [hvalues s hs]
        exact hd (ρ s) (SetTest.mem_slots_rename.2 ⟨s, hs, rfl⟩)
      · intro hs d hd
        obtain ⟨s, hs', rfl⟩ := SetTest.mem_slots_rename.1 hd
        rw [← hvalues s hs']
        exact hs s hs'
    rw [Option.map_some, active, active, allPublished_eq hg, allPublished_eq hg', hall]
    refine ⟨_, _, rfl, rfl, ?_⟩
    split
    · refine congrArg some (funext fun set => ?_)
      exact (SetTest.holds_rename fun s hs => hvalues s (SetTest.mem_slots.2 hs)).symm
    · rfl

end Graph

/-! ## Scans -/

theorem Task.ofExcept_ok_bind (value : α) (f : α → Task σ β) :
    (Task.ofExcept (.ok value) >>= f) = f value := by
  funext trace
  rw [bind_apply]
  rfl

namespace Run

variable (ctx : RunContext σ) {ρ : Slot → Slot} {g g' : Graph} {slot : Slot} {node node' : Node}

theorem scan_rename (hkind : node'.kind = node.kind)
    (hc : node'.constraints = node.constraints.rename ρ)
    (h : Graph.Shares ρ g g' node.constraints.references) :
    scan ctx g slot node = scan ctx g' slot node' := by
  obtain ⟨superclass, hs, hs'⟩ :=
    Graph.single_shares (h.subset node.constraints.superclass_subset)
  obtain ⟨owner, ho, ho'⟩ := Graph.single_shares (h.subset node.constraints.declaringClass_subset)
  obtain ⟨type, ht, ht'⟩ := Graph.single_shares (h.subset node.constraints.valueType_subset)
  obtain ⟨interfaces, interfaces', hi, hi', hinterfaces⟩ :=
    Graph.active_shares (h.subset node.constraints.interfaces_subset)
  obtain ⟨types, types', hp, hp', htypes⟩ :=
    Graph.active_shares (h.subset node.constraints.parameterTypes_subset)
  unfold scan
  rw [hkind, hc]
  cases node.kind with
  | cls =>
    simp only [Scan.classes, Constraints.rename, hs, hs', hi, hi', Task.ofExcept_ok_bind,
      hinterfaces]
  | field | method | constructor =>
    simp only [Scan.members, Constraints.rename, ho, ho', ht, ht', hp, hp', Task.ofExcept_ok_bind,
      htypes]
  | text | parameter => rfl

theorem scan_shares (h : Graph.Shares id g g' node.constraints.references) :
    scan ctx g slot node = scan ctx g' slot node :=
  scan_rename ctx rfl node.constraints.rename_id.symm h

end Run

/-! ## Errors that stay within a task -/

/-- Not a session error. -/
def TaskError.Contained (e : TaskError) : Prop := ∀ e', e ≠ .session e'

theorem TaskError.ofPayload_contained (payload : Payload) : (ofPayload payload).Contained :=
  fun _ h => nomatch h

theorem TaskError.ofMishap_contained (mishap : Mishap) : (ofMishap mishap).Contained := by
  cases mishap <;> exact fun _ h => nomatch h

/-- A task fails with nothing but an error of its own. -/
abbrev Task.Contained (task : Task σ α) : Prop :=
  Leads (fun _ => True) task (fun _ _ => True) fun e _ => e.Contained

namespace Task

theorem mapError_contained {x : Except ε α} {f : ε → TaskError} (hf : ∀ e, (f e).Contained)
    (trace : Trace σ) :
    Ends (fun _ _ => True) (fun e _ => e.Contained) (x.mapError f, trace) := by
  cases x with
  | error e => exact hf e
  | ok a => trivial

theorem ask_contained (call : Call σ α) : (ask call).Contained :=
  fun _ _ => mapError_contained TaskError.ofMishap_contained _

theorem attempt_contained (call : Call σ α) : (attempt call).Contained :=
  fun _ _ => mapError_contained TaskError.ofPayload_contained _

theorem consult_contained (host : Host σ) (slot : Slot) (message : String) :
    (consult host slot message).Contained :=
  fun _ _ => mapError_contained TaskError.ofPayload_contained _

theorem ofExcept_contained (value : Except Payload α) : (ofExcept value : Task σ α).Contained :=
  fun _ _ => mapError_contained TaskError.ofPayload_contained _

theorem pure_contained (a : α) : (pure a : Task σ α).Contained := fun _ _ => trivial

end Task

namespace Scan

variable {host : Host σ} {slot : Slot} {g : Graph} {c : Constraints}

theorem walk_contained (matchFirst : Bool) (checks : ClassChecks) (names : List String) :
    (walk host slot matchFirst checks names).Contained := by
  induction names with
  | nil => exact Task.pure_contained []
  | cons name rest ih =>
    unfold walk
    refine (Task.attempt_contained _).bind fun answer => ?_
    cases answer with
    | error e =>
      refine (Task.consult_contained host slot e.message).bind fun decision => ?_
      cases decision with
      | proceed => exact ih
      | abort => exact Task.pure_contained []
    | ok id =>
      refine (Task.ask_contained _).bind fun passes => ?_
      split
      · split
        · exact Task.pure_contained _
        · exact ih.bind fun _ => Task.pure_contained _
      · exact ih

theorem classes_contained (catalog : Catalog) :
    (classes host catalog g slot c).Contained := by
  unfold classes
  refine (Task.ofExcept_contained _).bind fun superclass => ?_
  refine (Task.ofExcept_contained _).bind fun interfaces => ?_
  exact walk_contained _ _ _

theorem members_contained (kind : Kind) : (members host g kind c).Contained := by
  unfold members
  refine (Task.ofExcept_contained _).bind fun owner => ?_
  cases owner with
  | none => exact Task.pure_contained []
  | some owner =>
    refine (Task.ofExcept_contained _).bind fun valueType => ?_
    refine (Task.ofExcept_contained _).bind fun parameterTypes => ?_
    exact (Task.ask_contained _).bind fun _ => Task.pure_contained _

end Scan

theorem Run.search_contained (ctx : RunContext σ) (g : Graph) (slot : Slot) (node : Node) :
    (search ctx g slot node).Contained := by
  unfold search scan
  split
  · exact Task.pure_contained []
  · split
    · exact Scan.classes_contained _
    · exact Scan.members_contained _
    · exact Scan.members_contained _
    · exact Scan.members_contained _
    · exact Task.pure_contained []
    · exact Task.pure_contained []

end Metamatch
