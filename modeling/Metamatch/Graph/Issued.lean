import Metamatch.Graph.Built
import Metamatch.Session

/-!
# Handles that a session gives out

* `ClientCall.respond`: a call with the handle that it gives out.
* `ClientCall.Entitled`: a call that uses only handles from a list.
* `ClientCall.AllIssued`: calls one after the other, each with handles that were given out before.
-/

namespace Metamatch

/-- The handles that an expression is made of: single classes at the operands, and sequences. -/
def SetTest.handles : SetTest → List Handle
  | .member operand | .nonMember operand => [⟨.single, .cls, operand.slot⟩]
  | .allOf slot | .anyOf slot => [⟨.sequence, .cls, slot⟩]
  | .and left right | .or left right => left.handles ++ right.handles
  | .not inner => inner.handles

/-- The handles that a setting holds. -/
def Setting.handles : Setting → List Handle
  | .superclass cls | .declaringClass cls | .valueType cls => [⟨.single, .cls, cls⟩]
  | .interfaces test | .parameterTypes test => test.handles
  | .matchFirst _ | .key _ | .require _ _ | .packagePrivate _ | .name _ | .parameterCount _ => []

namespace ClientCall

/-- A call with the handles that it gives out, which is one at most. -/
def respond : ClientCall → Edit (List Handle)
  | .matcher kind => do return [⟨.matcher, kind, ← Edit.matcher kind⟩]
  | .edit slot settings => do
    Edit.configure slot settings
    return []
  | .build slot => do
    let kind := (← Edit.node slot).kind
    Edit.build slot
    return [⟨.sequence, kind, slot⟩]
  | .buildFirst slot => do
    let kind := (← Edit.node slot).kind
    Edit.buildFirst slot
    return [⟨.single, kind, slot⟩]
  | .all kind settings => do return [⟨.sequence, kind, ← Edit.all kind settings⟩]
  | .first kind settings => do return [⟨.single, kind, ← Edit.first kind settings⟩]
  | .exactClass name => do return [⟨.single, .cls, ← Edit.exactClass name⟩]
  | .setKey slot key => do
    Edit.setKey slot key
    return []
  | .observe slot trigger number => do
    Edit.observe slot trigger number
    return []

/-- The handles that a call gives out; none if it is refused. -/
def given (call : ClientCall) (g : Graph) : List Handle :=
  (Id.run (call.respond.run.run g)).1.toOption.getD []

/-- Some of the handles is that of a matcher under construction. -/
def Editable (issued : List Handle) (slot : Slot) : Prop :=
  ∃ handle ∈ issued, handle.form = .matcher ∧ handle.slot = slot

instance (issued : List Handle) (slot : Slot) : Decidable (Editable issued slot) :=
  inferInstanceAs (Decidable (∃ handle ∈ issued, handle.form = .matcher ∧ handle.slot = slot))

/-- Settings that hold none but these handles. -/
def SettingsIssued (issued : List Handle) (settings : List Setting) : Prop :=
  ∀ setting ∈ settings, setting.handles ⊆ issued

instance (issued : List Handle) (settings : List Setting) :
    Decidable (SettingsIssued issued settings) :=
  inferInstanceAs (Decidable (∀ setting ∈ settings, ∀ handle ∈ setting.handles, handle ∈ issued))

/-- A call that uses none but these handles. Matchers are edited and built by the handle that made
them; keys and observers may go to any. A matcher made and configured at once has no handle yet
that its own settings could hold. -/
def Entitled (issued : List Handle) : ClientCall → Prop
  | .matcher kind => kind ∈ Kind.scheduled
  | .edit slot settings => Editable issued slot ∧ SettingsIssued issued settings
  | .build slot | .buildFirst slot => Editable issued slot
  | .all kind settings | .first kind settings =>
    kind ∈ Kind.scheduled ∧ SettingsIssued issued settings
  | .exactClass _ => True
  | .setKey slot _ | .observe slot _ _ => ∃ handle ∈ issued, handle.slot = slot

instance (issued : List Handle) : (call : ClientCall) → Decidable (call.Entitled issued)
  | .matcher kind => inferInstanceAs (Decidable (kind ∈ Kind.scheduled))
  | .edit slot settings =>
    inferInstanceAs (Decidable (Editable issued slot ∧ SettingsIssued issued settings))
  | .build slot | .buildFirst slot => inferInstanceAs (Decidable (Editable issued slot))
  | .all kind settings | .first kind settings =>
    inferInstanceAs (Decidable (kind ∈ Kind.scheduled ∧ SettingsIssued issued settings))
  | .exactClass _ => inferInstanceAs (Decidable True)
  | .setKey slot _ | .observe slot _ _ =>
    inferInstanceAs (Decidable (∃ handle ∈ issued, handle.slot = slot))

/-- Every call uses none but the handles issued so far, and adds those that it gives out. -/
def AllIssued : List Handle → Graph → List ClientCall → Prop
  | _, _, [] => True
  | issued, g, call :: rest =>
    call.Entitled issued ∧ AllIssued (call.given g ++ issued) (call.after g) rest

instance decidableAllIssued : (issued : List Handle) → (g : Graph) → (calls : List ClientCall) →
    Decidable (AllIssued issued g calls)
  | _, _, [] => .isTrue trivial
  | issued, g, call :: rest =>
    have := decidableAllIssued (call.given g ++ issued) (call.after g) rest
    inferInstanceAs (Decidable (call.Entitled issued ∧
      AllIssued (call.given g ++ issued) (call.after g) rest))

end ClientCall

end Metamatch
