import Metamatch.Modifiers.Mask
import Metamatch.NameFilter
import Metamatch.SetTest

/-!
# The dependency graph

A matcher is a node with constraints of its own and references to other matchers. A reference
makes it a subscriber of the other matcher and raises its counter by one, so that a counter of
one says that nothing is awaited any more.

* `Constraints`, `Node`, `Graph`: the matchers of a session by slot.
* `Graph.subscribe`, `Graph.unsubscribe`: one reference more or less.
* `Graph.detach`: no reference left.
-/

namespace Metamatch

/-- What a matcher asks of its candidates. A kind ignores what does not apply to it. -/
structure Constraints where
  /-- Stop at the first candidate that passes. -/
  matchFirst : Bool := false
  modifiers : Mask := .any
  name : Option NameFilter := none
  superclass : Option Slot := none
  interfaces : Option SetTest := none
  declaringClass : Option Slot := none
  /-- The type of a field or the return type of a method. -/
  valueType : Option Slot := none
  parameterCount : Option Nat := none
  parameterTypes : Option SetTest := none
  deriving DecidableEq, Repr

namespace Constraints

/-- The slots of the references to single classes. -/
def singleSlots (c : Constraints) : List Slot :=
  c.superclass.toList ++ c.declaringClass.toList ++ c.valueType.toList

/-- The slots of the tests, each once a test. -/
def testSlots (c : Constraints) : List Slot :=
  SetTest.slotsOf c.interfaces ++ SetTest.slotsOf c.parameterTypes

/-- All references of a matcher, as often as they count. -/
def references (c : Constraints) : List Slot := c.singleSlots ++ c.testSlots

end Constraints

/-- When an observer is called. -/
inductive Trigger
  /-- The slot is published with values. -/
  | onMatch
  /-- The slot is published empty. -/
  | onMiss
  deriving DecidableEq, Repr

/-- An entry on the list of a slot: a dependent matcher, once for each of its references, or an
observer known to the host by its number. -/
inductive Subscriber
  | matcher (slot : Slot)
  | observer (trigger : Trigger) (number : Nat)
  deriving DecidableEq, Repr

/-- The final values of a slot and the sweep that found them; sweep 0 stands for values taken
over from an earlier result. -/
structure Published where
  values : List Entity
  sweep : Nat
  deriving DecidableEq, Repr

/-- A matcher with its slot. -/
structure Node where
  kind : Kind
  constraints : Constraints := {}
  key : Option String := none
  /-- Nothing asks for the values: neither a key nor a subscriber. -/
  pending : Bool := true
  /-- Built, so that the constraints are frozen. -/
  finalized : Bool := false
  /-- One more than the number of awaited references; 0 after publication. -/
  counter : Nat := 1
  /-- References whose slots were published empty. -/
  missed : Nat := 0
  subscribers : List Subscriber := []
  published : Option Published := none
  deriving DecidableEq, Repr

/-- A list without its element at `index`, whose place the last element takes. -/
def swapRemove {α : Type} (items : List α) (index : Nat) : List α :=
  match items.getLast? with
  | some last => (items.set index last).dropLast
  | none => []

namespace Node

/-- Nothing is awaited and nothing is published yet. -/
def isReady (node : Node) : Bool := node.counter == 1

/-- Left out of a run that prunes, because nothing asks for it. -/
def isPruned (prune : Bool) (node : Node) : Bool := prune && node.pending

/-- One subscription more. The slot is asked for from now on. -/
def addSubscriber (subscriber : Subscriber) (node : Node) : Node :=
  { node with subscribers := node.subscribers ++ [subscriber], pending := false }

/-- The subscription at `index` less. The slot is pending again once neither a subscriber nor a
key is left. -/
def dropSubscriber (index : Nat) (node : Node) : Node :=
  let subscribers := swapRemove node.subscribers index
  { node with
    subscribers
    pending := node.pending || (subscribers.isEmpty && node.key.isNone) }

end Node

/-- The matchers of a session by slot. -/
structure Graph where
  nodes : List Node := []
  deriving DecidableEq, Repr

namespace Graph

def size (g : Graph) : Nat := g.nodes.length

/-- The slots in order. -/
def slots (g : Graph) : List Slot := List.range g.size

def get? (g : Graph) (slot : Slot) : Option Node := g.nodes[slot]?

/-- Change the node of a slot, if there is one. -/
def modify (g : Graph) (slot : Slot) (f : Node → Node) : Graph := ⟨g.nodes.modify slot f⟩

/-- A new matcher; its slot is the old size. -/
def insert (g : Graph) (kind : Kind) : Graph := ⟨g.nodes ++ [{ kind := kind }]⟩

/-- The published values of a slot. -/
def valuation (g : Graph) : Valuation := fun slot => do
  let published ← (← g.get? slot).published
  return published.values

/-- The class that a slot resolved to: its first value. -/
def resolvedClass? (g : Graph) (slot : Slot) : Option ClassId := do
  (← (← g.valuation slot).head?).classId?

/-! ## References -/

/-- One reference from `dependent` to `dependency`. -/
def subscribe (g : Graph) (dependent dependency : Slot) : Graph :=
  (g.modify dependency (·.addSubscriber (.matcher dependent))).modify dependent fun node =>
    { node with counter := node.counter + 1 }

/-- One reference from `dependent` to `dependency` less, if there is one. -/
def unsubscribe (g : Graph) (dependent dependency : Slot) : Graph :=
  match g.get? dependency with
  | none => g
  | some node =>
    match node.subscribers.idxOf? (.matcher dependent) with
    | none => g
    | some index =>
      (g.modify dependency (·.dropSubscriber index)).modify dependent fun node =>
        { node with counter := node.counter - 1 }

/-- The slots that a matcher refers to, as often as they count. -/
def references (g : Graph) (slot : Slot) : List Slot :=
  (g.get? slot).elim [] (·.constraints.references)

/-- A matcher without its references, hence ready. -/
def detach (g : Graph) (dependent : Slot) : Graph :=
  (g.references dependent).foldl (·.unsubscribe dependent ·) g

end Graph

end Metamatch
