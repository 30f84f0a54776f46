import Metamatch.Progress

/-!
# Sweeps

A sweep goes through the kinds in order. Of each kind it takes the matchers that are ready as one
batch, executes their tasks, and after the last of them settles what went wrong. What a batch
publishes makes other matchers ready, for a later kind of this sweep or for the next sweep.

* `Run.scan`, `Run.search`, `Run.evaluate`: the task of one matcher.
* `Run.recover`, `Run.settle`: the end of a task that failed.
* `Run.draw`, `Run.batch`, `Run.sweep`, `Run.sweeps`: batches, sweeps, and sweeps until one publishes nothing.
-/

namespace Metamatch

/-- The matchers of a kind that are ready and not left out, in slot order. -/
def Graph.ready (g : Graph) (prune : Bool) (kind : Kind) : List Slot :=
  g.slots.filter fun slot => (g.get? slot).any fun node =>
    node.kind == kind && node.isReady && !node.isPruned prune

namespace Run

variable {σ ε : Type} (ctx : RunContext σ)

/-! ## Tasks -/

/-- The candidates that a matcher accepts. -/
def scan (g : Graph) (slot : Slot) (node : Node) : Task σ (List Entity) :=
  match node.kind with
  | .cls => Scan.classes ctx.host ctx.catalog g slot node.constraints
  | .field | .method | .constructor => Scan.members ctx.host g node.kind node.constraints
  | .text | .parameter => pure []

/-- The values of a matcher. Under the policy `forceEmpty` a missed reference leaves none. -/
def search (g : Graph) (slot : Slot) (node : Node) : Task σ (List Entity) :=
  if node.missed > 0 ∧ ctx.config.missPolicy = .forceEmpty then pure []
  else scan ctx g slot node

/-- Search for a matcher and publish what was found. The policy is told of observers that crash. -/
def evaluate (sweep : Nat) (slot : Slot) : Run σ TaskError Unit := do
  let g ← graph
  match g.get? slot with
  | none => return
  | some node =>
    let values ← ofTask (search ctx g slot node)
    let crashes ← adapt .session (publish ctx slot values sweep)
    adapt .ofPayload (reportCrashes ctx slot crashes)

/-- Execute tasks one after the other. The failure of one does not concern the others. -/
def execute (sweep : Nat) : List Slot → Run σ ε (List (Slot × Except TaskError Unit))
  | [] => pure []
  | slot :: rest => do
    let outcome ← contain (evaluate ctx sweep slot)
    return (slot, outcome) :: (← execute sweep rest)

/-- Put a failed task before the policy and publish its matcher empty, unless the task had
published already. -/
def recover (sweep : Nat) (slot : Slot) (e : TaskError) : Run σ RunError Unit := do
  adapt .crash (consult ctx slot e.explain.root)
  if ((← graph).get? slot).any Node.isReady then
    let crashes ← adapt .session (publish ctx slot [] sweep)
    adapt .crash (reportCrashes ctx slot crashes)

/-- The end of a task after its batch. A session error ends the run. -/
def settle (sweep : Nat) (slot : Slot) : Except TaskError Unit → Run σ RunError Unit
  | .ok () => pure ()
  | .error (.session e) => throw (.session e)
  | .error e => recover ctx sweep slot e

/-! ## Batches and sweeps -/

/-- Take the matchers of one kind that are ready as a batch, which goes on record. -/
def draw (sweep : Nat) (kind : Kind) : Run σ RunError (List Slot) := fun p =>
  let slots := p.graph.ready ctx.config.pruneUnconsumed kind
  (.ok slots, { p with batches := ⟨sweep, kind, slots⟩ :: p.batches })

/-- Execute and settle the tasks of one kind; their number. -/
def batch (sweep : Nat) (kind : Kind) : Run σ RunError Nat := do
  let ready ← draw ctx sweep kind
  let outcomes ← execute ctx sweep (ctx.arrange ready)
  ready.forM fun slot => settle ctx sweep slot ((outcomes.lookup slot).getD (.ok ()))
  return ready.length

/-- The batches of all kinds; the number of their tasks. -/
def sweep (number : Nat) : List Kind → Run σ RunError Nat
  | [] => pure 0
  | kind :: rest => do
    let here ← batch ctx number kind
    return here + (← sweep number rest)

/-- Sweeps from a given number on until one publishes nothing; the number of that one. Each of the
others publishes a matcher, so one more sweep than there are matchers is always enough. -/
def sweeps (number : Nat) : Nat → Run σ RunError Nat
  | 0 => pure number
  | fuel + 1 => do
    if (← sweep ctx number Kind.scheduled) = 0 then return number
    sweeps (number + 1) fuel

end Run

end Metamatch
