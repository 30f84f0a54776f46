import Metamatch.Error
import Metamatch.Ordered

/-!
# Tests on sets of entities

A boolean expression over the values of other matchers, tested against a set of entities: the
interfaces of a class, or the parameter types of a method.

* `SetTest`: the expressions.
* `SetTest.collect`: the slots at the leaves of the expressions on a stack.
* `SetTest.slots`: the slots that an expression reads.
* `SetTest.holds`: its truth, given the published values and the set.
-/

namespace Metamatch

/-- The entity that a leaf looks for, by the slot of a matcher with one value. -/
inductive Operand
  | value (slot : Slot)
  /-- The class of the slot as the type of the parameter at `index`. -/
  | parameter (slot : Slot) (index : Nat)
  deriving DecidableEq, Repr

/-- The published values of a slot, if it has been published. -/
abbrev Valuation := Slot → Option (List Entity)

namespace Operand

def slot : Operand → Slot
  | .value slot | .parameter slot _ => slot

/-- The entity an operand stands for: the first value of its slot. -/
def entity? (values : Valuation) (operand : Operand) : Option Entity := do
  let first ← (← values operand.slot).head?
  match operand with
  | .value _ => some first
  | .parameter _ index => (.parameter index ·) <$> first.classId?

/-- The text of an operand: `#2`, or `#2@0` at a parameter position. -/
def text : Operand → String
  | .value slot => s!"#{slot}"
  | .parameter slot index => s!"#{slot}@{index}"

end Operand

/-- Expressions over slots, tested against a set. -/
inductive SetTest
  /-- The operand is in the set. -/
  | member (operand : Operand)
  /-- The operand is not in the set, or stands for nothing. -/
  | nonMember (operand : Operand)
  /-- The slot has values and all are in the set. -/
  | allOf (slot : Slot)
  /-- Some value of the slot is in the set. -/
  | anyOf (slot : Slot)
  | and (left right : SetTest)
  | or (left right : SetTest)
  | not (inner : SetTest)
  deriving DecidableEq, Repr

namespace SetTest

/-- The slots at the leaves, from left to right. -/
def leaves : SetTest → List Slot
  | .member operand | .nonMember operand => [operand.slot]
  | .allOf slot | .anyOf slot => [slot]
  | .and left right | .or left right => left.leaves ++ right.leaves
  | .not inner => inner.leaves

/-- The number of nodes of an expression. -/
def size : SetTest → Nat
  | .member _ | .nonMember _ | .allOf _ | .anyOf _ => 1
  | .and left right | .or left right => left.size + right.size + 1
  | .not inner => inner.size + 1

/-- The number of nodes of the expressions on a stack. -/
def sizeAll : List SetTest → Nat
  | [] => 0
  | test :: stack => test.size + sizeAll stack

/-- The slots at the leaves of the expressions on a stack. The first one is taken off; the parts of
an operation take its place, the left one on top. -/
def collect : List SetTest → List Slot
  | [] => []
  | .member operand :: stack | .nonMember operand :: stack => operand.slot :: collect stack
  | .allOf slot :: stack | .anyOf slot :: stack => slot :: collect stack
  | .and left right :: stack | .or left right :: stack => collect (left :: right :: stack)
  | .not inner :: stack => collect (inner :: stack)
termination_by stack => sizeAll stack
decreasing_by all_goals simp only [sizeAll, size]; omega

/-- The distinct slots that an expression reads, in increasing order. -/
def slots (test : SetTest) : List Slot :=
  Ordered.dedup (Ordered.sort (· < ·) (collect [test]))

/-- The slots of an expression that may be absent. -/
def slotsOf (test : Option SetTest) : List Slot := test.elim [] slots

/-- The operand stands for a member of the set. -/
def contains (values : Valuation) (set : List Entity) (operand : Operand) : Bool :=
  (operand.entity? values).any set.contains

/-- Truth of an expression against a set. -/
def holds (values : Valuation) (set : List Entity) : SetTest → Bool
  | .member operand => contains values set operand
  | .nonMember operand => !contains values set operand
  | .allOf slot => (values slot).any fun items => !items.isEmpty && items.all set.contains
  | .anyOf slot => (values slot).any fun items => items.any set.contains
  | .and left right => left.holds values set && right.holds values set
  | .or left right => left.holds values set || right.holds values set
  | .not inner => !inner.holds values set

/-- The text of an expression, binary operations in parentheses. -/
def text : SetTest → String
  | .member operand => operand.text
  | .nonMember operand => "!" ++ operand.text
  | .allOf slot => s!"all(#{slot})"
  | .anyOf slot => s!"any(#{slot})"
  | .and left right => "(" ++ left.text ++ " & " ++ right.text ++ ")"
  | .or left right => "(" ++ left.text ++ " | " ++ right.text ++ ")"
  | .not inner => "not " ++ inner.text

end SetTest

end Metamatch
