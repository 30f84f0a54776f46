import Metamatch.Json.Parser
import Metamatch.Json.Printer
import Metamatch.Result
import Metamatch.Saved.Entity

/-!
# Saved results

* `MatchResult.save`: a result as JSON, one item a line.
* `MatchResult.load?`: the result that a text holds.
-/

namespace Metamatch

namespace Outcome

def toJson (outcome : Outcome) : Json := .str outcome.label

def ofJson? : Json → Option Outcome := Json.label? ofLabel?

end Outcome

namespace Decision

def toJson (decision : Decision) : Json := .str decision.label

def ofJson? : Json → Option Decision := Json.label? ofLabel?

end Decision

namespace Report

/-- Key and sweep are left out if there are none, and so are names. -/
def toJson (report : Report) : Json :=
  .record <|
    [("slot", .nat report.slot), ("kind", report.kind.toJson)] ++
    (report.key.map fun key => ("key", Json.str key)).toList ++
    [("outcome", report.outcome.toJson)] ++
    (report.sweep.map fun sweep => ("sweep", Json.nat sweep)).toList ++
    [("values", .list (report.values.map Entity.toJson))] ++
    if report.names.isEmpty then [] else [("names", .list (report.names.map EntityName.toJson))]

def ofJson? (value : Json) : Option Report := do
  match ← value.fields? ["slot", "kind", "key", "outcome", "sweep", "values", "names"] with
  | [slot, kind, key, outcome, sweep, values, names] =>
    return {
      slot := ← Json.required Json.nat32? slot
      kind := ← Json.required Kind.ofJson? kind
      key := ← Json.defaulted none (Json.nullable? Json.string?) key
      outcome := ← Json.required Outcome.ofJson? outcome
      sweep := ← Json.defaulted none (Json.nullable? Json.nat64?) sweep
      values := ← Json.defaulted [] (Json.list? Entity.ofJson?) values
      names := ← Json.defaulted [] (Json.list? EntityName.ofJson?) names }
  | _ => none

end Report

namespace Failure

def toJson (failure : Failure) : Json :=
  .record [("slot", .nat failure.slot), ("message", .str failure.message),
    ("decision", failure.decision.toJson)]

def ofJson? (value : Json) : Option Failure := do
  match ← value.fields? ["slot", "message", "decision"] with
  | [slot, message, decision] =>
    return {
      slot := ← Json.required Json.nat32? slot
      message := ← Json.required Json.string? message
      decision := ← Json.required Decision.ofJson? decision }
  | _ => none

end Failure

namespace MatchResult

/-- The index is left out. -/
def toJson (result : MatchResult) : Json :=
  .record [("sweeps", .nat result.sweeps), ("matchers", .list (result.reports.map Report.toJson)),
    ("failures", .list (result.failures.map Failure.toJson))]

/-- The result of parts, with the index rebuilt from the reports. -/
def ofJson? (value : Json) : Option MatchResult := do
  match ← value.fields? ["sweeps", "matchers", "failures"] with
  | [sweeps, reports, failures] =>
    return .ofParts (← Json.required Json.nat64? sweeps)
      (← Json.required (Json.list? Report.ofJson?) reports)
      (← Json.defaulted [] (Json.list? Failure.ofJson?) failures)
  | _ => none

/-- A result as text. -/
def save (result : MatchResult) : String := result.toJson.pretty

/-- The result that a text holds. -/
def load? (text : String) : Option MatchResult := Json.parse? text >>= ofJson?

end MatchResult

end Metamatch
