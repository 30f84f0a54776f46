import Metamatch.Graph

/-!
# Edits of the graph

Matchers are made, configured and frozen by edits. An edit that fails keeps what was done before
the failure.

* `Edit`: a change of the graph that may be refused or run into a slot that does not exist.
* `Setting`: one constraint, or the key, of a matcher.
* `Edit.matcher`, `Edit.configure`, `Edit.build`, `Edit.buildFirst`: a matcher step by step.
* `Edit.all`, `Edit.first`, `Edit.exactClass`: a matcher at once.
* `Edit.setKey`, `Edit.observe`: consumers of a slot.
-/

namespace Metamatch

/-- Why an edit failed. -/
inductive EditError
  | refused (e : SessionError)
  | outOfRange (slot : Slot)
  deriving DecidableEq, Repr

/-- A change of the graph; the graph outlives a failure. -/
abbrev Edit (α : Type) := ExceptT EditError (StateM Graph) α

/-- One constraint, or the key, of a matcher. -/
inductive Setting
  | matchFirst (on : Bool)
  | key (key : String)
  | require (flags : Modifiers) (set : Bool)
  | packagePrivate (set : Bool)
  | name (filter : NameFilter)
  | superclass (cls : Slot)
  | interfaces (test : SetTest)
  | declaringClass (cls : Slot)
  | valueType (cls : Slot)
  | parameterCount (count : Nat)
  | parameterTypes (test : SetTest)
  deriving DecidableEq, Repr

namespace Edit

/-- The node of a slot that has to exist. -/
def node (slot : Slot) : Edit Node := do
  match (← get).get? slot with
  | some node => return node
  | none => throw (.outOfRange slot)

/-- Change the node of a slot that has to exist. -/
def update (slot : Slot) (f : Node → Node) : Edit Unit := do
  discard (node slot)
  modify (·.modify slot f)

/-- The node of a slot that has to be open to edits. -/
def editable (slot : Slot) : Edit Node := do
  let node ← node slot
  if node.finalized then throw (.refused (.finalized slot))
  return node

/-! ## References -/

/-- One reference more. -/
def subscribe (dependent dependency : Slot) : Edit Unit := do
  discard (node dependency)
  modify (·.subscribe dependent dependency)

/-- One reference less. -/
def unsubscribe (dependent dependency : Slot) : Edit Unit := do
  discard (node dependency)
  modify (·.unsubscribe dependent dependency)

/-- Give up the references `old`, then take up `new`, one after the other. -/
def relink (dependent : Slot) (old new : List Slot) : Edit Unit := do
  old.forM (unsubscribe dependent)
  new.forM (subscribe dependent)

/-- Put new constraints in the place of the old ones, then exchange the references that they hold.
The constraints stay even if a reference turns out not to exist. -/
def replace (slot : Slot) (f : Constraints → Constraints) (old new : List Slot) : Edit Unit := do
  update slot fun node => { node with constraints := f node.constraints }
  relink slot old new

/-! ## Settings -/

/-- Attach a key. The slot is asked for from now on. -/
def setKey (slot : Slot) (key : String) : Edit Unit :=
  update slot fun node => { node with key := some key, pending := false }

/-- Attach an observer. The slot is asked for from now on. -/
def observe (slot : Slot) (trigger : Trigger) (number : Nat) : Edit Unit :=
  update slot (·.addSubscriber (.observer trigger number))

/-- Change constraints that hold no reference. -/
def constrain (slot : Slot) (f : Constraints → Constraints) : Edit Unit :=
  update slot fun node => { node with constraints := f node.constraints }

/-- Change what is asked of the modifiers. -/
def mask (slot : Slot) (f : Mask → Mask) : Edit Unit :=
  constrain slot fun c => { c with modifiers := f c.modifiers }

/-- Apply one setting. A reference replaces the earlier one of the same attribute; flags add to
the mask. -/
def set (slot : Slot) (setting : Setting) : Edit Unit := do
  let c := (← node slot).constraints
  match setting with
  | .matchFirst on => constrain slot ({ · with matchFirst := on })
  | .key key => setKey slot key
  | .require flags set => mask slot (·.require flags set)
  | .packagePrivate set => mask slot (·.requirePackagePrivate set)
  | .name filter => constrain slot ({ · with name := some filter })
  | .superclass cls => replace slot ({ · with superclass := some cls }) c.superclass.toList [cls]
  | .interfaces test =>
    replace slot ({ · with interfaces := some test }) (SetTest.slotsOf c.interfaces) test.slots
  | .declaringClass cls =>
    replace slot ({ · with declaringClass := some cls }) c.declaringClass.toList [cls]
  | .valueType cls => replace slot ({ · with valueType := some cls }) c.valueType.toList [cls]
  | .parameterCount count => constrain slot ({ · with parameterCount := some count })
  | .parameterTypes test =>
    replace slot ({ · with parameterTypes := some test }) (SetTest.slotsOf c.parameterTypes)
      test.slots

/-! ## Matchers -/

/-- A new matcher. -/
def matcher (kind : Kind) : Edit Slot :=
  modifyGet fun g => (g.size, g.insert kind)

/-- Apply settings in order to a matcher that is still open. -/
def configure (slot : Slot) (settings : List Setting) : Edit Unit := do
  discard (editable slot)
  settings.forM (set slot)

/-- Freeze a matcher. -/
def build (slot : Slot) : Edit Unit := do
  discard (editable slot)
  update slot ({ · with finalized := true })

/-- Freeze a matcher as one that stops at its first candidate. -/
def buildFirst (slot : Slot) : Edit Unit := do
  discard (editable slot)
  constrain slot ({ · with matchFirst := true })
  build slot

/-- A matcher made, configured and frozen. -/
def all (kind : Kind) (settings : List Setting) : Edit Slot := do
  let slot ← matcher kind
  settings.forM (set slot)
  update slot ({ · with finalized := true })
  return slot

/-- A matcher made, configured and frozen as one that stops at its first candidate. -/
def first (kind : Kind) (settings : List Setting) : Edit Slot := do
  let slot ← matcher kind
  settings.forM (set slot)
  constrain slot ({ · with matchFirst := true })
  update slot ({ · with finalized := true })
  return slot

/-- The class with exactly this name. -/
def exactClass (name : String) : Edit Slot := first .cls [.name (.named name)]

end Edit

end Metamatch
