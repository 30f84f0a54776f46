/-!
# Configuration

* `MissPolicy`: what an empty slot means to the matchers that refer to it.
* `Config`: the options of a session.
-/

namespace Metamatch

/-- What becomes of a matcher that refers to an empty slot. -/
inductive MissPolicy
  /-- The constraint that holds the reference is dropped. -/
  | disableConstraint
  /-- The matcher is published empty without a search. -/
  | forceEmpty
  deriving DecidableEq, Repr

namespace MissPolicy

def label : MissPolicy → String
  | .disableConstraint => "disable-constraint"
  | .forceEmpty => "force-empty"

/-- Both policies, the default first. -/
def all : List MissPolicy := [.disableConstraint, .forceEmpty]

def ofLabel? (label : String) : Option MissPolicy := all.find? (·.label == label)

end MissPolicy

/-- The options of a session. -/
structure Config where
  /-- Number of workers; 0 stands for one per processor. -/
  workers : Nat := 0
  missPolicy : MissPolicy := .disableConstraint
  /-- Leave out matchers that nothing asks for. -/
  pruneUnconsumed : Bool := true
  deriving DecidableEq, Repr

/-- The number of workers, unless it depends on the machine. -/
def Config.fixedWorkers? (config : Config) : Option Nat :=
  if config.workers = 0 then none else some config.workers

end Metamatch
