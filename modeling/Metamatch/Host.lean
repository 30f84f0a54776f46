import Metamatch.Error
import Metamatch.Metadata

/-!
# The surroundings of a run

A run asks its surroundings three things: questions about classes, verdicts on failures, and the
calls of observers. Each may depend on the history, which a state of type `σ` stands for, and
each may crash.

* `Call`, `Effect`: a question to the surroundings that may end with an error or a crash, or only
  with a crash.
* `Resolver`: the questions about classes and their members.
* `Host`: a resolver with a policy on failures and the observers.
-/

namespace Metamatch

/-- What to do after a failure. -/
inductive Decision
  | proceed
  | abort
  deriving DecidableEq, Repr

namespace Decision

/-- The name of a decision in saved results. -/
def label : Decision → String
  | .proceed => "continue"
  | .abort => "abort"

/-- Both decisions, the default first. -/
def all : List Decision := [.proceed, .abort]

def ofLabel? (label : String) : Option Decision := all.find? (·.label == label)

theorem ofLabel?_label (decision : Decision) : ofLabel? decision.label = some decision := by
  cases decision <;> decide

end Decision

/-- A question went wrong. -/
inductive Mishap
  | error (e : LookupError)
  | crash (payload : Payload)
  deriving DecidableEq, Repr

/-- A question to the surroundings, answered with a value or a mishap. -/
abbrev Call (σ α : Type) := ExceptT Mishap (StateM σ) α

/-- Something asked of the surroundings that can go wrong only by a crash. -/
abbrev Effect (σ α : Type) := ExceptT Payload (StateM σ) α

namespace Call

variable {σ α : Type}

/-- An answer that neither looks at the surroundings nor changes them. -/
def ofExcept (answer : Except LookupError α) : Call σ α :=
  match answer with
  | .ok value => pure value
  | .error e => throw (.error e)

/-- An error becomes part of the answer; a crash stays one. -/
def attempt (call : Call σ α) : Effect σ (Except LookupError α) := fun world =>
  match Id.run (call.run.run world) with
  | (.ok value, world) => (.ok (.ok value), world)
  | (.error (.error e), world) => (.ok (.error e), world)
  | (.error (.crash payload), world) => (.error payload, world)

end Call

/-- Answers about classes. Asking never initializes a class. -/
structure Resolver (σ : Type) where
  /-- The class with a fully qualified name. -/
  loadClass : String → Call σ ClassId
  className : ClassId → Call σ String
  classModifiers : ClassId → Call σ Modifiers
  /-- The direct superclass, if there is one. -/
  superclass : ClassId → Call σ (Option ClassId)
  /-- The interfaces that the class names itself. -/
  interfaces : ClassId → Call σ (List ClassId)
  /-- The fields that the class declares itself. -/
  fields : ClassId → Call σ (List FieldInfo)
  /-- The methods that the class declares itself. -/
  methods : ClassId → Call σ (List MethodInfo)
  /-- The constructors that the class declares itself. -/
  constructors : ClassId → Call σ (List ConstructorInfo)

/-- The surroundings of a run. -/
structure Host (σ : Type) where
  resolver : Resolver σ
  /-- The verdict on a failure, told by the text of its root cause. -/
  judge : String → Effect σ Decision := fun _ => pure .proceed
  /-- The call of an observer with the values of its slot; `some` payload if it crashes. -/
  observe : Nat → List Entity → StateM σ (Option Payload) := fun _ _ => pure none

end Metamatch
