import Metamatch.Graph.Edit
import Metamatch.Result

/-!
# Tasks

The search for one matcher is a task. It asks the surroundings, consults the policy, and may fail
without harm to other tasks.

* `Trace`: the state of the surroundings with the failures recorded so far.
* `Task`: a computation over a trace that may fail.
* `Task.ask`, `Task.consult`: a question to the resolver, a failure put before the policy.
-/

namespace Metamatch

variable {σ α : Type}

/-- The state of the surroundings and the failures recorded so far. -/
structure Trace (σ : Type) where
  world : σ
  failures : List Failure := []

/-- A computation over a trace that may fail. -/
abbrev Task (σ α : Type) := ExceptT TaskError (StateM (Trace σ)) α

namespace Trace

/-- Run a computation over the surroundings of a trace. -/
def ask {ε : Type} (question : ExceptT ε (StateM σ) α) (trace : Trace σ) : Except ε α × Trace σ :=
  let (answer, world) := Id.run (question.run.run trace.world)
  (answer, { trace with world })

/-- Put a failure of a matcher before the policy, and record it with the verdict. -/
def consult (host : Host σ) (slot : Slot) (message : String) (trace : Trace σ) :
    Except Payload Decision × Trace σ :=
  match Id.run ((host.judge message).run.run trace.world) with
  | (.ok decision, world) =>
    (.ok decision, ⟨world, trace.failures ++ [⟨slot, message, decision⟩]⟩)
  | (.error payload, world) => (.error payload, { trace with world })

end Trace

/-- A mishap ends a task: an error as it is, a crash with its message. -/
def TaskError.ofMishap : Mishap → TaskError
  | .error e => .lookup e
  | .crash payload => .ofPayload payload

namespace Task

/-- Ask a question; a mishap ends the task. -/
def ask (call : Call σ α) : Task σ α := fun trace =>
  let (answer, trace) := trace.ask call
  (answer.mapError .ofMishap, trace)

/-- Ask a question whose error is part of the answer. -/
def attempt (call : Call σ α) : Task σ (Except LookupError α) := fun trace =>
  let (answer, trace) := trace.ask call.attempt
  (answer.mapError .ofPayload, trace)

/-- Put a failure before the policy. A policy that crashes ends the task. -/
def consult (host : Host σ) (slot : Slot) (message : String) : Task σ Decision := fun trace =>
  let (verdict, trace) := trace.consult host slot message
  (verdict.mapError .ofPayload, trace)

/-- A value that is there, unless working it out crashed. -/
def ofExcept (value : Except Payload α) : Task σ α := fun trace =>
  (value.mapError .ofPayload, trace)

end Task

end Metamatch
