import Metamatch.Progress

/-!
# Values of an earlier result

A matcher with a key takes over the values that the key had in an earlier result, if every one of
them is found again by its name. It is published as sweep 0 and never searched for.

* `Report.relocate`: the values of a report, found again.
* `Seed.gather`: the slots to take over, with their values.
* `Run.takeOver`: their publication.
* `Run.seed`: it, with the verdicts on observers that crash.
-/

namespace Metamatch

variable {σ : Type}

/-- Values found again by their names, if all of them are. -/
def EntityName.locateAll (resolver : Resolver σ) :
    List (Entity × EntityName) → Effect σ (Option (List Entity))
  | [] => pure (some [])
  | (value, name) :: rest => do
    match ← (name.locate resolver value).attempt with
    | .ok (some value) => return (← locateAll resolver rest).map (value :: ·)
    | .ok none | .error _ => return none

namespace Report

/-- The values of a report, found again. Each of them has to have a name. -/
def relocate (resolver : Resolver σ) (report : Report) : Effect σ (Option (List Entity)) :=
  if report.names.length = report.values.length then
    EntityName.locateAll resolver (report.values.zip report.names)
  else pure none

/-- The report is about values of this kind. -/
def offers (report : Report) (kind : Kind) : Bool :=
  report.kind == kind && report.outcome == .resolved && !report.values.isEmpty

end Report

/-- What an earlier result offers to a matcher, by its key. -/
def MatchResult.offer? (last : MatchResult) (node : Node) : Option Report := do
  let report ← last.keyed? (← node.key)
  if report.offers node.kind then some report else none

/-- The slots that take values over, in order, with the values. -/
def Seed.gather (resolver : Resolver σ) (last : MatchResult) (g : Graph) :
    List Slot → Effect σ (List (Slot × List Entity))
  | [] => pure []
  | slot :: rest => do
    match (g.get? slot).bind last.offer? with
    | none => gather resolver last g rest
    | some report =>
      match ← report.relocate resolver with
      | none => gather resolver last g rest
      | some values => return (slot, values) :: (← gather resolver last g rest)

namespace Run

variable (ctx : RunContext σ)

/-- Give up all references of a matcher. -/
def detach (slot : Slot) : Run σ Payload Unit :=
  change (.detach slot) fun g =>
    match (g.references slot).find? (g.size ≤ ·) with
    | some missing => .error (.text (g.outOfRangeText missing))
    | none => .ok (g.detach slot)

/-- Publish values taken over; the crashes of observers by slot. -/
def publishSeeds : List (Slot × List Entity) → Run σ SessionError (List (Slot × List Payload))
  | [] => pure []
  | (slot, values) :: rest => do
    let crashes ← publish ctx slot values 0
    return (slot, crashes) :: (← publishSeeds rest)

/-- Take values over from an earlier result; the crashes of observers by slot. All matchers concerned
give up their references before the first of them is published. -/
def takeOver (last : MatchResult) : Run σ RunError (List (Slot × List Payload)) := do
  let g ← graph
  let seeds ← adapt .crash (ask (Seed.gather ctx.host.resolver last g g.slots))
  seeds.forM fun seed => adapt .crash (detach seed.1)
  adapt .session (publishSeeds ctx seeds)

/-- Take values over, then put the crashes before the policy. -/
def seed (last : MatchResult) : Run σ RunError Unit := do
  let crashes ← takeOver ctx last
  crashes.forM fun (slot, payloads) => adapt .crash (reportCrashes ctx slot payloads)

end Run

end Metamatch
