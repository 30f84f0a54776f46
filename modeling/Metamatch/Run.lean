import Metamatch.Seed
import Metamatch.Sweep

/-!
# Runs

* `Run.collect`: the reports at the end.
* `Session.execute`, `Session.run`: the name catalog, the values of an earlier result, the sweeps
  and the reports.
-/

namespace Metamatch

variable {σ : Type}

/-- The names of values, or none at all if one of them cannot be named. -/
def Entity.describeAll (resolver : Resolver σ) : List Entity → Effect σ (Option (List EntityName))
  | [] => pure (some [])
  | value :: rest => do
    match ← (value.describe resolver).attempt with
    | .ok (some name) => return (← describeAll resolver rest).map (name :: ·)
    | .ok none | .error _ => return none

namespace Node

/-- What became of a matcher. -/
def outcome (prune : Bool) (node : Node) : Outcome :=
  match node.published with
  | some published => if published.values.isEmpty then .missed else .resolved
  | none => if node.isPruned prune then .pruned else .unresolved

/-- The report of a matcher. Values are named if they have a key. -/
def report (resolver : Resolver σ) (prune : Bool) (slot : Slot) (node : Node) :
    Effect σ Report := do
  let values := node.published.elim [] Published.values
  let names ← match node.key with
    | some _ => Entity.describeAll resolver values
    | none => pure none
  return {
    slot
    kind := node.kind
    key := node.key
    outcome := node.outcome prune
    sweep := node.published.map (·.sweep)
    values
    names := names.getD [] }

/-- The reports of matchers from a slot on. -/
def reports (resolver : Resolver σ) (prune : Bool) : Slot → List Node → Effect σ (List Report)
  | _, [] => pure []
  | slot, node :: rest => do
    let here ← node.report resolver prune slot
    return here :: (← reports resolver prune (slot + 1) rest)

end Node

namespace Run

variable (ctx : RunContext σ)

/-- The result at the end of a run. -/
def collect (sweeps : Nat) : Run σ Payload MatchResult := do
  let reports ← ask <|
    Node.reports ctx.host.resolver ctx.config.pruneUnconsumed 0 (← graph).nodes
  return .ofParts sweeps reports (← get).failures

/-- Take over earlier values, sweep, and collect. -/
def resolve (last : Option MatchResult) : Run σ RunError MatchResult := do
  last.forM (seed ctx)
  let count ← sweeps ctx 1 ((← graph).size + 1)
  adapt .crash (collect ctx count)

end Run

namespace Session

/-- What stays the same during a run of a session. -/
def context (session : Session) (arrange : List Slot → List Slot) (lists : List (List String))
    (host : Host σ) : RunContext σ :=
  { host, catalog := .ofLists lists, config := session.config, arrange }

/-- A run of a session over given names, from its start to the state it ends in. -/
def execute (session : Session) (arrange : List Slot → List Slot) (lists : List (List String))
    (host : Host σ) (world : σ) : Except RunError MatchResult × Progress σ :=
  Id.run <| (Run.resolve (session.context arrange lists host) session.last).run.run
    { world, graph := session.graph }

/-- Resolve every matcher of a session, with the tasks of a batch in a given order. -/
def runArranged (session : Session) (arrange : List Slot → List Slot)
    (names : Except CatalogError (List (List String))) (host : Host σ) (world : σ) :
    Except RunError MatchResult × σ :=
  match names with
  | .error e => (.error (.session (.catalog e)), world)
  | .ok lists =>
    let (result, progress) := session.execute arrange lists host world
    (result, progress.world)

/-- Resolve every matcher of a session. The tasks of a batch are executed in slot order. Only a
missing catalog, a breach of the counters or a crash outside the tasks ends a run early. -/
def run (session : Session) (names : Except CatalogError (List (List String))) (host : Host σ)
    (world : σ) : Except RunError MatchResult × σ :=
  session.runArranged id names host world

end Session

end Metamatch
