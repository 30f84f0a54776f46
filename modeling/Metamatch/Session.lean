import Metamatch.Catalog
import Metamatch.Config
import Metamatch.Graph.Edit
import Metamatch.Result

/-!
# Sessions

* `Session`: matchers to be resolved together, with the options of their run.
* `Handle`: how the client refers to a slot.
-/

namespace Metamatch

/-- Matchers with the options of their run. -/
structure Session where
  graph : Graph := {}
  config : Config := {}
  /-- Number of workers, if it is not the configured one. -/
  workers : Option Nat := none
  /-- An earlier result to take values over from. -/
  last : Option MatchResult := none
  deriving DecidableEq, Repr

namespace Session

/-- The number of workers; 0 stands for one per processor. -/
def workerCount (session : Session) : Nat := session.workers.getD session.config.workers

/-- The tasks of a run go one after the other in slot order. -/
def isInline (session : Session) : Bool := session.workerCount == 1

/-- Change the graph by an edit, whether it succeeds or not. -/
def edit {α : Type} (session : Session) (edit : Edit α) : Except EditError α × Session :=
  let (outcome, graph) := Id.run (edit.run.run session.graph)
  (outcome, { session with graph })

end Session

/-- What a handle stands for. -/
inductive HandleForm
  /-- A matcher under construction. -/
  | matcher
  /-- The one value of a matcher that stops at its first candidate. -/
  | single
  /-- All values of a matcher. -/
  | sequence
  deriving DecidableEq, Repr

/-- A reference to a slot, with the kind that the client expects there. -/
structure Handle where
  form : HandleForm
  kind : Kind
  slot : Slot
  deriving DecidableEq, Repr

namespace Handle

/-- The name of a form. -/
def formText : HandleForm → String
  | .matcher => "MatcherId"
  | .single => "Match"
  | .sequence => "Sequence"

/-- The name of a kind, as a type. -/
def kindText : Kind → String
  | .cls => "Class"
  | .field => "Field"
  | .method => "Method"
  | .constructor => "Constructor"
  | .text => "String"
  | .parameter => "Parameter"

/-- The text of a handle, such as `Match<Class>(#4)`. -/
def text (handle : Handle) : String :=
  s!"{formText handle.form}<{kindText handle.kind}>(#{handle.slot})"

end Handle

end Metamatch
