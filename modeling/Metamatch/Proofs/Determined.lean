import Mathlib.Logic.IsEmpty.Basic
import Metamatch.Proofs.Steady
import Metamatch.Run

/-!
# Tasks with one outcome

With a host whose answers and verdicts are always the same, a search comes to the same whenever it
is made, and records the same failures.

* `Host.Judges`, `Host.Crashes`: policies and observers that go by what they are told.
* `Task.Determined`: a task with one outcome and one list of failures.
* `Host.Steady.search_determined`: searches are such tasks.
* `Host.Steady.reports_constant`: reports do not depend on the surroundings.
-/

namespace Metamatch

variable {σ α β : Type}

/-! ## Hosts -/

namespace Host

/-- A policy that never crashes and goes by the failure alone. -/
def Judges (host : Host σ) (verdict : String → Decision) : Prop :=
  ∀ message world, (host.judge message world : Except Payload Decision × σ).1 =
    .ok (verdict message)

/-- Observers of which each crashes with given values always or never. -/
def Crashes (host : Host σ) (crash : Nat → List Entity → Option Payload) : Prop :=
  ∀ number values world, (host.observe number values world : Option Payload × σ).1 =
    crash number values

end Host

/-! ## Tasks with one outcome -/

namespace Task

/-- From any trace, the task comes to the same outcome and records the same failures. -/
def Fixed (task : Task σ α) (outcome : Except TaskError α) (failures : List Failure) : Prop :=
  ∀ trace, ∃ world, task trace = (outcome, ⟨world, trace.failures ++ failures⟩)

/-- A task with one outcome and one list of failures. -/
def Determined (task : Task σ α) : Prop := ∃ outcome failures, task.Fixed outcome failures

theorem Determined.pure (a : α) : Determined (Pure.pure a : Task σ α) := by
  refine ⟨.ok a, [], fun trace => ⟨trace.world, ?_⟩⟩
  rw [List.append_nil]
  rfl

theorem Determined.bind {task : Task σ α} {f : α → Task σ β} (h : task.Determined)
    (hf : ∀ a, (f a).Determined) : (task >>= f).Determined := by
  obtain ⟨outcome, failures, h⟩ := h
  cases outcome with
  | error e =>
    refine ⟨.error e, failures, fun trace => ?_⟩
    obtain ⟨world, ht⟩ := h trace
    exact ⟨world, by rw [bind_apply, ht]⟩
  | ok a =>
    obtain ⟨outcome, failures', h'⟩ := hf a
    refine ⟨outcome, failures ++ failures', fun trace => ?_⟩
    obtain ⟨world, ht⟩ := h trace
    obtain ⟨world', ht'⟩ := h' ⟨world, trace.failures ++ failures⟩
    refine ⟨world', ?_⟩
    rw [bind_apply, ht, ← List.append_assoc]
    exact ht'

theorem Determined.of_constant {task : Task σ α} (h : Constant task)
    (hquiet : ∀ trace, (task trace : Except TaskError α × Trace σ).2.failures = trace.failures) :
    task.Determined := by
  rcases isEmpty_or_nonempty (Trace σ) with hempty | ⟨⟨trace⟩⟩
  · exact ⟨.error (.crashed ""), [], fun trace => (hempty.false trace).elim⟩
  · refine ⟨(task trace : Except TaskError α × Trace σ).1, [], fun other => ?_⟩
    have hfailures := hquiet other
    refine ⟨(task other : Except TaskError α × Trace σ).2.world, ?_⟩
    rw [h trace other, List.append_nil, ← hfailures]
    rfl

theorem ask_determined {call : Call σ α} (h : Constant call) : (ask call).Determined :=
  .of_constant (ask_constant h) fun _ => rfl

theorem attempt_determined {call : Call σ α} (h : Constant call) : (attempt call).Determined :=
  .of_constant (attempt_constant h) fun _ => rfl

theorem ofExcept_determined (value : Except Payload α) :
    (ofExcept value : Task σ α).Determined :=
  .of_constant (ofExcept_constant value) fun _ => rfl

end Task

namespace Trace

theorem consult_eq {host : Host σ} {verdict : String → Decision} (h : host.Judges verdict)
    (slot : Slot) (message : String) (trace : Trace σ) :
    ∃ world, trace.consult host slot message =
      (.ok (verdict message), ⟨world, trace.failures ++ [⟨slot, message, verdict message⟩]⟩) :=
  ⟨_, consult_of_judge (Prod.ext (h message trace.world) rfl)⟩

end Trace

theorem Task.consult_determined {host : Host σ} {verdict : String → Decision}
    (h : host.Judges verdict) (slot : Slot) (message : String) :
    (Task.consult host slot message).Determined := by
  refine ⟨.ok (verdict message), [⟨slot, message, verdict message⟩], fun trace => ?_⟩
  obtain ⟨world, ht⟩ := Trace.consult_eq h slot message trace
  exact ⟨world, by rw [Task.consult, ht]; rfl⟩

namespace Host.Steady

variable {host : Host σ} {verdict : String → Decision} {g : Graph} {c : Constraints}

theorem walk_determined (h : host.Steady) (hverdict : host.Judges verdict) (slot : Slot)
    (matchFirst : Bool) (checks : Scan.ClassChecks) (names : List String) :
    (Scan.walk host slot matchFirst checks names).Determined := by
  induction names with
  | nil => exact .pure []
  | cons name rest ih =>
    unfold Scan.walk
    refine (Task.attempt_determined (h.loadClass name)).bind fun answer => ?_
    cases answer with
    | error e =>
      refine (Task.consult_determined hverdict slot e.message).bind fun decision => ?_
      cases decision with
      | proceed => exact ih
      | abort => exact .pure []
    | ok id =>
      refine (Task.ask_determined (h.pass_constant checks id)).bind fun passes => ?_
      split
      · split
        · exact .pure _
        · exact ih.bind fun _ => .pure _
      · exact ih

theorem members_determined (h : host.Steady) (kind : Kind) :
    (Scan.members host g kind c).Determined := by
  unfold Scan.members
  refine (Task.ofExcept_determined _).bind fun owner => ?_
  cases owner with
  | none => exact .pure []
  | some owner =>
    refine (Task.ofExcept_determined _).bind fun valueType => ?_
    refine (Task.ofExcept_determined _).bind fun parameterTypes => ?_
    exact (Task.ask_determined (h.candidates_constant kind owner)).bind fun _ => .pure _

/-- **A search comes to the same and records the same failures** whenever it is made. -/
theorem search_determined {ctx : RunContext σ} (h : ctx.host.Steady)
    (hverdict : ctx.host.Judges verdict) (slot : Slot) (node : Node) :
    (Run.search ctx g slot node).Determined := by
  have hclasses : ∀ c, (Scan.classes ctx.host ctx.catalog g slot c).Determined := by
    intro c
    unfold Scan.classes
    refine (Task.ofExcept_determined _).bind fun superclass => ?_
    refine (Task.ofExcept_determined _).bind fun interfaces => ?_
    exact h.walk_determined hverdict slot _ _ _
  unfold Run.search Run.scan
  split
  · exact .pure []
  · split
    · exact hclasses _
    · exact h.members_determined _
    · exact h.members_determined _
    · exact h.members_determined _
    · exact .pure []
    · exact .pure []

end Host.Steady

/-! ## Reports -/

namespace Host.Steady

variable {host : Host σ}

theorem describe_constant (h : host.Steady) (entity : Entity) :
    Constant (entity.describe host.resolver) := by
  unfold Entity.describe
  split <;> first
    | exact (h.className _).bind fun _ => .pure _
    | refine (h.candidates_constant _ _).bind fun candidates => ?_
      split
      · exact .pure none
      · next candidate _ =>
        refine (h.className _).bind fun cls => ?_
        exact (h.signature_constant candidate).bind fun _ => .pure _

theorem describeAll_constant (h : host.Steady) (values : List Entity) :
    Constant (Entity.describeAll host.resolver values) := by
  induction values with
  | nil => exact .pure _
  | cons value rest ih =>
    unfold Entity.describeAll
    refine (Call.attempt_constant (h.describe_constant value)).bind fun answer => ?_
    split
    · exact ih.bind fun _ => .pure _
    · exact .pure none
    · exact .pure none

theorem report_constant (h : host.Steady) (prune : Bool) (slot : Slot) (node : Node) :
    Constant (node.report host.resolver prune slot) := by
  unfold Node.report
  dsimp only
  split
  · exact (h.describeAll_constant _).bind fun _ => .pure _
  · exact Alike.bind (.pure none) fun _ => .pure _

theorem reports_constant (h : host.Steady) (prune : Bool) (slot : Slot) (nodes : List Node) :
    Constant (Node.reports host.resolver prune slot nodes) := by
  induction nodes generalizing slot with
  | nil => exact .pure []
  | cons node rest ih =>
    unfold Node.reports
    exact (h.report_constant prune slot node).bind fun here => (ih (slot + 1)).bind fun _ => .pure _

end Host.Steady

end Metamatch
