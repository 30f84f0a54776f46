import Metamatch.Graph.Edit

/-!
# Graphs that calls build

* `ClientCall`: what a client asks of a session while it builds matchers.
* `ClientCall.InRange`: every handle refers to a matcher that is there.
* `ClientCall.AllInRange`, `Graph.afterAll`: calls one after the other.
* `Graph.Built`: the graphs that such calls lead to.
-/

namespace Metamatch

/-- The slots that a setting refers to. -/
def Setting.slots : Setting → List Slot
  | .superclass cls | .declaringClass cls | .valueType cls => [cls]
  | .interfaces test | .parameterTypes test => test.slots
  | .matchFirst _ | .key _ | .require _ _ | .packagePrivate _ | .name _ | .parameterCount _ => []

/-- A call of a client that builds matchers. -/
inductive ClientCall
  | matcher (kind : Kind)
  | edit (slot : Slot) (settings : List Setting)
  | build (slot : Slot)
  | buildFirst (slot : Slot)
  | all (kind : Kind) (settings : List Setting)
  | first (kind : Kind) (settings : List Setting)
  | exactClass (name : String)
  | setKey (slot : Slot) (key : String)
  | observe (slot : Slot) (trigger : Trigger) (number : Nat)
  deriving DecidableEq, Repr

namespace ClientCall

/-- The edit that a call makes. -/
def perform : ClientCall → Edit Unit
  | .matcher kind => discard (Edit.matcher kind)
  | .edit slot settings => Edit.configure slot settings
  | .build slot => Edit.build slot
  | .buildFirst slot => Edit.buildFirst slot
  | .all kind settings => discard (Edit.all kind settings)
  | .first kind settings => discard (Edit.first kind settings)
  | .exactClass name => discard (Edit.exactClass name)
  | .setKey slot key => Edit.setKey slot key
  | .observe slot trigger number => Edit.observe slot trigger number

/-- The graph after a call, whether it succeeds or is refused. -/
def after (call : ClientCall) (g : Graph) : Graph := (Id.run (call.perform.run.run g)).2

/-- Every setting refers to one of the first `size` slots. -/
def SettingsInRange (size : Nat) (settings : List Setting) : Prop :=
  ∀ setting ∈ settings, ∀ slot ∈ setting.slots, slot < size

instance (size : Nat) (settings : List Setting) : Decidable (SettingsInRange size settings) :=
  inferInstanceAs (Decidable (∀ setting ∈ settings, ∀ slot ∈ setting.slots, slot < size))

/-- Every handle refers to one of the `size` matchers that are there, which for a matcher made and
configured at once includes the new one. Matchers are of kinds that a run searches for. -/
def InRange (size : Nat) : ClientCall → Prop
  | .matcher kind => kind ∈ Kind.scheduled
  | .edit slot settings => slot < size ∧ SettingsInRange size settings
  | .build slot | .buildFirst slot | .setKey slot _ | .observe slot _ _ => slot < size
  | .all kind settings | .first kind settings =>
    kind ∈ Kind.scheduled ∧ SettingsInRange (size + 1) settings
  | .exactClass _ => True

instance (size : Nat) : (call : ClientCall) → Decidable (call.InRange size)
  | .matcher kind => inferInstanceAs (Decidable (kind ∈ Kind.scheduled))
  | .edit slot settings => inferInstanceAs (Decidable (slot < size ∧ SettingsInRange size settings))
  | .build slot | .buildFirst slot | .setKey slot _ | .observe slot _ _ =>
    inferInstanceAs (Decidable (slot < size))
  | .all kind settings | .first kind settings =>
    inferInstanceAs (Decidable (kind ∈ Kind.scheduled ∧ SettingsInRange (size + 1) settings))
  | .exactClass _ => inferInstanceAs (Decidable True)

end ClientCall

/-- The graph after calls, one after the other. -/
def Graph.afterAll (g : Graph) (calls : List ClientCall) : Graph :=
  calls.foldl (fun g call => call.after g) g

/-- Every call has its handles in range when it is made. -/
def ClientCall.AllInRange : List ClientCall → Graph → Prop
  | [], _ => True
  | call :: rest, g => call.InRange g.size ∧ AllInRange rest (call.after g)

instance ClientCall.decidableAllInRange :
    (calls : List ClientCall) → (g : Graph) → Decidable (AllInRange calls g)
  | [], _ => .isTrue trivial
  | call :: rest, g =>
    have := decidableAllInRange rest (call.after g)
    inferInstanceAs (Decidable (call.InRange g.size ∧ AllInRange rest (call.after g)))

/-- The graphs that calls with handles in range lead to, whether or not they succeed. -/
inductive Graph.Built : Graph → Prop
  | empty : Graph.Built {}
  | call {g : Graph} (call : ClientCall) :
    Graph.Built g → call.InRange g.size → Graph.Built (call.after g)

theorem Graph.Built.afterAll {g : Graph} {calls : List ClientCall} (hg : g.Built)
    (h : ClientCall.AllInRange calls g) : (g.afterAll calls).Built := by
  induction calls generalizing g with
  | nil => exact hg
  | cons call rest ih => exact ih (hg.call call h.1) h.2

end Metamatch
