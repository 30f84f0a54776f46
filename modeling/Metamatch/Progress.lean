import Metamatch.Graph.Publish
import Metamatch.Scan
import Metamatch.Session

/-!
# The state of a run

* `Change`, `Step`: what a run does to the graph, on record with the graph as it was.
* `Batch`, `Notice`: a batch of a sweep and the call of an observer, on record.
* `Progress`: the graph of a run with its trace.
* `Run`: a computation over it that may fail.
* `Run.publish`: the values of a slot, given to its dependents and its observers.
-/

namespace Metamatch

variable {σ ε ε' α : Type}

/-- What a run does to the graph. -/
inductive Change
  /-- All references of a slot are given up. -/
  | detach (slot : Slot)
  | publish (slot : Slot) (values : List Entity) (sweep : Nat)
  deriving DecidableEq, Repr

/-- A change that was asked for, with the graph as it was. -/
structure Step where
  before : Graph
  change : Change
  deriving DecidableEq, Repr

/-- A batch of a sweep: the matchers of a kind that were ready. -/
structure Batch where
  sweep : Nat
  kind : Kind
  slots : List Slot
  deriving DecidableEq, Repr

/-- A call of an observer of a slot, with the graph as it stands. -/
structure Notice where
  slot : Slot
  observer : Nat
  values : List Entity
  graph : Graph
  deriving DecidableEq, Repr

/-- The graph of a run with its trace. -/
structure Progress (σ : Type) extends Trace σ where
  graph : Graph
  /-- The changes of the graph that were asked for so far, the latest first. -/
  steps : List Step := []
  /-- The batches so far, the latest first. -/
  batches : List Batch := []
  /-- The calls of observers so far, the latest first. -/
  notices : List Notice := []

/-- A computation over the state of a run that may fail. -/
abbrev Run (σ ε α : Type) := ExceptT ε (StateM (Progress σ)) α

/-- What stays the same during a run. -/
structure RunContext (σ : Type) where
  host : Host σ
  catalog : Catalog
  config : Config
  /-- The order in which the tasks of a batch are executed. -/
  arrange : List Slot → List Slot := id

/-- What ends a run as a whole. -/
inductive RunError
  | session (e : SessionError)
  /-- A crash outside the tasks. -/
  | crash (payload : Payload)
  deriving DecidableEq, Repr

namespace Run

/-! ## Embeddings -/

/-- The graph as it stands. -/
def graph : Run σ ε Graph := fun p => (.ok p.graph, p)

/-- A change of the graph, which may be refused. Either way it goes on record. -/
def change (change : Change) (f : Graph → Except ε Graph) : Run σ ε Unit := fun p =>
  let steps := ⟨p.graph, change⟩ :: p.steps
  match f p.graph with
  | .ok graph => (.ok (), { p with graph, steps })
  | .error e => (.error e, { p with steps })

/-- A task reads the graph but does not change it. -/
def ofTask (task : Task σ α) : Run σ TaskError α := fun p =>
  let (outcome, trace) := Id.run (task.run.run p.toTrace)
  (outcome, { p with toTrace := trace })

/-- A computation over the surroundings alone. -/
def ask (question : ExceptT ε (StateM σ) α) : Run σ ε α := fun p =>
  let (answer, trace) := p.toTrace.ask question
  (answer, { p with toTrace := trace })

/-- The same computation with another account of its errors. -/
def adapt (f : ε → ε') (run : Run σ ε α) : Run σ ε' α := fun p =>
  let (outcome, p) := Id.run (run.run.run p)
  (outcome.mapError f, p)

/-- The outcome of a computation, whose failure is no longer one. -/
def contain (run : Run σ ε α) : Run σ ε' (Except ε α) := fun p =>
  let (outcome, p) := Id.run (run.run.run p)
  (.ok outcome, p)

/-! ## Policy and observers -/

variable (ctx : RunContext σ)

/-- Put a failure before the policy and record the verdict. -/
def consult (slot : Slot) (message : String) : Run σ Payload Unit := fun p =>
  let (verdict, trace) := p.toTrace.consult ctx.host slot message
  (verdict.map fun _ => (), { p with toTrace := trace })

/-- Call an observer of a slot, which goes on record. -/
def observe (slot : Slot) (values : List Entity) (number : Nat) : Run σ ε (Option Payload) :=
  fun p =>
    let notices := ⟨slot, number, values, p.graph⟩ :: p.notices
    ask (liftM (ctx.host.observe number values)) { p with notices }

/-- Call observers of a slot one after the other, and collect the crashes. No crash keeps a later
observer from its call. -/
def callObservers (slot : Slot) (values : List Entity) : List Nat → Run σ ε (List Payload)
  | [] => pure []
  | number :: rest => do
    let crash ← observe ctx slot values number
    return crash.toList ++ (← callObservers slot values rest)

/-- Publish the values of a slot and call its observers. Dependents are released before the first
call. -/
def publish (slot : Slot) (values : List Entity) (sweep : Nat) :
    Run σ SessionError (List Payload) := do
  change (.publish slot values sweep) (·.publish slot values sweep)
  callObservers ctx slot values ((← graph).observers slot values.isEmpty)

/-- Put crashes of observers before the policy, one after the other. -/
def reportCrashes (slot : Slot) (crashes : List Payload) : Run σ Payload Unit :=
  crashes.forM fun payload => consult ctx slot (TaskError.ofPayload payload).explain.root

end Run

end Metamatch
