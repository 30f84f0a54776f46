import Metamatch.Graph
import Metamatch.Proofs.SetTests

/-!
# Slots by other names

* `SetTest.rename`, `Constraints.rename`: the same expression and the same constraints, with other
  names for the slots that they refer to.
* `SetTest.holds_rename`: an expression holds by any names if the values go with them.
-/

namespace Metamatch

variable {ρ : Slot → Slot}

def Operand.rename (ρ : Slot → Slot) : Operand → Operand
  | .value slot => .value (ρ slot)
  | .parameter slot index => .parameter (ρ slot) index

@[simp] theorem Operand.rename_id (operand : Operand) : operand.rename id = operand := by
  cases operand <;> rfl

theorem Operand.slot_rename (operand : Operand) : (operand.rename ρ).slot = ρ operand.slot := by
  cases operand <;> rfl

theorem Operand.entity?_rename {values values' : Valuation} {operand : Operand}
    (h : values operand.slot = values' (ρ operand.slot)) :
    (operand.rename ρ).entity? values' = operand.entity? values := by
  rw [entity?, entity?, slot_rename, h]
  cases operand <;> rfl

namespace SetTest

/-- The same expression over slots of other names. -/
def rename (ρ : Slot → Slot) : SetTest → SetTest
  | .member operand => .member (operand.rename ρ)
  | .nonMember operand => .nonMember (operand.rename ρ)
  | .allOf slot => .allOf (ρ slot)
  | .anyOf slot => .anyOf (ρ slot)
  | .and left right => .and (left.rename ρ) (right.rename ρ)
  | .or left right => .or (left.rename ρ) (right.rename ρ)
  | .not inner => .not (inner.rename ρ)

@[simp] theorem rename_id (test : SetTest) : test.rename id = test := by
  induction test <;> simp_all [rename]

theorem leaves_rename (test : SetTest) : (test.rename ρ).leaves = test.leaves.map ρ := by
  induction test with
  | member operand | nonMember operand => simp [rename, leaves, operand.slot_rename]
  | allOf s | anyOf s => rfl
  | and left right ihl ihr | or left right ihl ihr => simp [rename, leaves, ihl, ihr]
  | not inner ih => exact ih

theorem mem_slots_rename {test : SetTest} {d : Slot} :
    d ∈ (test.rename ρ).slots ↔ ∃ s ∈ test.slots, ρ s = d := by
  simp only [mem_slots, leaves_rename, List.mem_map]

theorem mem_slotsOf_rename {test : Option SetTest} {d : Slot} :
    d ∈ slotsOf (test.map (·.rename ρ)) ↔ ∃ s ∈ slotsOf test, ρ s = d := by
  cases test with
  | none => simp [slotsOf]
  | some test => exact mem_slots_rename

variable {values values' : Valuation} {set : List Entity}

theorem contains_rename {operand : Operand}
    (h : values operand.slot = values' (ρ operand.slot)) :
    contains values' set (operand.rename ρ) = contains values set operand := by
  rw [contains, contains, Operand.entity?_rename h]

theorem holds_rename {test : SetTest} (h : ∀ s ∈ test.leaves, values s = values' (ρ s)) :
    (test.rename ρ).holds values' set = test.holds values set := by
  induction test with
  | member operand | nonMember operand =>
    simp only [rename, holds, contains_rename (h operand.slot List.mem_cons_self)]
  | allOf s | anyOf s => simp only [rename, holds, h s List.mem_cons_self]
  | and left right ihl ihr | or left right ihl ihr =>
    simp only [leaves, List.mem_append] at h
    simp only [rename, holds, ihl fun s hs => h s (.inl hs), ihr fun s hs => h s (.inr hs)]
  | not inner ih => simp only [rename, holds, ih h]

end SetTest

namespace Constraints

/-- The same constraints with other names for the slots that they refer to. -/
def rename (ρ : Slot → Slot) (c : Constraints) : Constraints :=
  { c with
    superclass := c.superclass.map ρ
    interfaces := c.interfaces.map (·.rename ρ)
    declaringClass := c.declaringClass.map ρ
    valueType := c.valueType.map ρ
    parameterTypes := c.parameterTypes.map (·.rename ρ) }

@[simp] theorem rename_id (c : Constraints) : c.rename id = c := by
  simp [rename]

theorem mem_references_rename {c : Constraints} {d : Slot} :
    d ∈ (c.rename ρ).references ↔ ∃ s ∈ c.references, ρ s = d := by
  simp only [references, singleSlots, testSlots, rename, List.mem_append,
    SetTest.mem_slotsOf_rename, Option.toList_map, List.mem_map, or_and_right, exists_or]

end Constraints

end Metamatch
