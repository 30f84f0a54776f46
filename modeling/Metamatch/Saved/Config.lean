import Metamatch.Config
import Metamatch.Json.Decode
import Metamatch.Json.Parser
import Metamatch.Json.Printer
import Metamatch.Toml.Dated

/-!
# Configuration as text

* `Config.toJson`, `Config.ofJson?`: the options as JSON.
* `Config.ofToml?`, `Config.load?`: the options as TOML, in a table `matcher` or by themselves.
-/

namespace Metamatch

namespace Config

/-- The names of the options, in order. -/
def optionNames : List String := ["workers", "miss-policy", "prune-unconsumed"]

/-! ## JSON -/

def toJson (config : Config) : Json :=
  .record [("workers", .nat config.workers), ("miss-policy", .str config.missPolicy.label),
    ("prune-unconsumed", .bool config.pruneUnconsumed)]

/-- Options that are missing have their defaults. -/
def ofJson? (value : Json) : Option Config := do
  match ← value.fields? optionNames with
  | [workers, missPolicy, pruneUnconsumed] =>
    return {
      workers := ← Json.defaulted 0 Json.nat64? workers
      missPolicy := ← Json.defaulted .disableConstraint (Json.label? MissPolicy.ofLabel?) missPolicy
      pruneUnconsumed := ← Json.defaulted true Json.bool? pruneUnconsumed }
  | _ => none

/-- The options as text. -/
def save (config : Config) : String := config.toJson.compact

/-- The options that a text holds as JSON. -/
def loadJson? (text : String) : Option Config := Json.parse? text >>= ofJson?

/-! ## TOML -/

/-- The options of a table by name, or those of a list in order. -/
def tomlFields? : Toml → Option (List (Option Toml))
  | .table _ members => some (optionNames.map fun name => members.lookup name)
  | .list items | .tables items =>
    if items.length ≤ optionNames.length then
      some (items.map some ++ List.replicate (optionNames.length - items.length) none)
    else none
  | _ => none

/-- A number of workers. -/
def workersOfToml? : Toml → Option Nat
  | .integer value => if 0 ≤ value then some value.toNat else none
  | _ => none

/-- A policy by its name, or as the one key of a table with nothing under it. -/
def missPolicyOfToml? : Toml → Option MissPolicy
  | .text label => MissPolicy.ofLabel? label
  | .table _ [(label, .table _ [])] | .table _ [(label, .list [])] => MissPolicy.ofLabel? label
  | _ => none

def boolOfToml? : Toml → Option Bool
  | .bool value => some value
  | _ => none

/-- Options that are missing have their defaults. -/
def ofTomlOptions? (value : Toml) : Option Config := do
  match ← tomlFields? value with
  | [workers, missPolicy, pruneUnconsumed] =>
    return {
      workers := ← workers.elim (some 0) workersOfToml?
      missPolicy := ← missPolicy.elim (some .disableConstraint) missPolicyOfToml?
      pruneUnconsumed := ← pruneUnconsumed.elim (some true) boolOfToml? }
  | _ => none

/-- The options of a document: those under `matcher` if it has that key, or else its own. -/
def ofToml? (document : Toml) : Option Config :=
  match document with
  | .table _ members => ofTomlOptions? ((members.lookup "matcher").getD document)
  | _ => none

/-- The options that a text holds as TOML. -/
def load? (text : String) : Option Config := Toml.load? text >>= ofToml?

end Config

end Metamatch
