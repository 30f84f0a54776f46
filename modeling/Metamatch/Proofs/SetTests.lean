import Metamatch.Proofs.Ordered
import Metamatch.SetTest

/-!
# What a test reads and says

A test is a tree, and two walks go over it: one evaluates it and stops early, the other collects
with a stack the slots that the test depends on, and comes to every leaf. What a test says of a set
can be said without the walk, by the classes that were found for its slots.

* `SetTest.Reads`: a slot stands at a leaf.
* `SetTest.collect_eq`: the stack comes to the leaves from left to right.
* `SetTest.mem_slots_iff`, `SetTest.pairwise_slots`: the slots of a test are those at its leaves, in
  order and each once.
* `SetTest.Describes`: what a test says of classes and of parameters.
* `SetTest.holds_iff_describes`: it holds of a set of these if and only if that is so.
-/

namespace Metamatch

namespace SetTest

/-- The slot stands at a leaf of the expression. -/
inductive Reads (s : Slot) : SetTest → Prop
  | member {operand : Operand} : operand.slot = s → Reads s (.member operand)
  | nonMember {operand : Operand} : operand.slot = s → Reads s (.nonMember operand)
  | allOf : Reads s (.allOf s)
  | anyOf : Reads s (.anyOf s)
  | andLeft {left right : SetTest} : Reads s left → Reads s (.and left right)
  | andRight {left right : SetTest} : Reads s right → Reads s (.and left right)
  | orLeft {left right : SetTest} : Reads s left → Reads s (.or left right)
  | orRight {left right : SetTest} : Reads s right → Reads s (.or left right)
  | not {inner : SetTest} : Reads s inner → Reads s (.not inner)

variable {s : Slot} {test : SetTest}

theorem mem_leaves : s ∈ test.leaves ↔ test.Reads s := by
  induction test with
  | member operand =>
    rw [leaves, List.mem_singleton]
    refine ⟨fun h => .member h.symm, fun h => ?_⟩
    cases h with
    | member h => exact h.symm
  | nonMember operand =>
    rw [leaves, List.mem_singleton]
    refine ⟨fun h => .nonMember h.symm, fun h => ?_⟩
    cases h with
    | nonMember h => exact h.symm
  | allOf slot =>
    rw [leaves, List.mem_singleton]
    refine ⟨fun h => h ▸ .allOf, fun h => ?_⟩
    cases h
    rfl
  | anyOf slot =>
    rw [leaves, List.mem_singleton]
    refine ⟨fun h => h ▸ .anyOf, fun h => ?_⟩
    cases h
    rfl
  | and left right ihl ihr =>
    rw [leaves, List.mem_append, ihl, ihr]
    refine ⟨fun h => h.elim .andLeft .andRight, fun h => ?_⟩
    cases h with
    | andLeft h => exact .inl h
    | andRight h => exact .inr h
  | or left right ihl ihr =>
    rw [leaves, List.mem_append, ihl, ihr]
    refine ⟨fun h => h.elim .orLeft .orRight, fun h => ?_⟩
    cases h with
    | orLeft h => exact .inl h
    | orRight h => exact .inr h
  | not inner ih =>
    rw [leaves, ih]
    refine ⟨.not, fun h => ?_⟩
    cases h with
    | not h => exact h

/-! ## The stack -/

/-- A stack stands for the leaves of its expressions, from the top on and from left to right. -/
theorem collect_eq (stack : List SetTest) : collect stack = stack.flatMap leaves := by
  fun_induction collect stack with
  | case1 => rfl
  | case2 stack operand ih | case3 stack operand ih | case4 stack slot ih | case5 stack slot ih =>
    rw [ih]
    rfl
  | case6 stack left right ih | case7 stack left right ih =>
    rw [ih]
    simp only [List.flatMap_cons, leaves, List.append_assoc]
  | case8 stack inner ih =>
    rw [ih]
    rfl

theorem slots_eq (test : SetTest) : test.slots = Ordered.ofList test.leaves := by
  rw [slots, Ordered.dedup_sort, collect_eq, List.flatMap_singleton]

theorem mem_slots : s ∈ test.slots ↔ s ∈ test.leaves := by
  rw [slots_eq, Ordered.mem_ofList]

theorem mem_slots_iff : s ∈ test.slots ↔ test.Reads s := mem_slots.trans mem_leaves

theorem pairwise_slots (test : SetTest) : test.slots.Pairwise (· < ·) := by
  rw [slots_eq]
  exact Ordered.pairwise_ofList _

theorem nodup_slots (test : SetTest) : test.slots.Nodup :=
  (pairwise_slots test).imp Nat.ne_of_lt

end SetTest

/-! ## What a test says -/

/-- The class of an operand is there, or that of the parameter at its position if it is about a
position. -/
def Operand.Occurs (found : Slot → List ClassId) (classes parameters : List ClassId) :
    Operand → Prop
  | .value slot => ∃ cls ∈ (found slot).head?, cls ∈ classes
  | .parameter slot index =>
    ∃ cls ∈ (found slot).head?, ∃ h : index < parameters.length, parameters[index] = cls

instance Operand.decidableOccurs (found : Slot → List ClassId) (classes parameters : List ClassId) :
    (operand : Operand) → Decidable (operand.Occurs found classes parameters)
  | .value slot => inferInstanceAs (Decidable (∃ cls ∈ (found slot).head?, cls ∈ classes))
  | .parameter slot index =>
    inferInstanceAs (Decidable
      (∃ cls ∈ (found slot).head?, ∃ h : index < parameters.length, parameters[index] = cls))

namespace SetTest

variable {values : Valuation} {found : Slot → List ClassId} {set : List Entity}
  {classes parameters : List ClassId} {test : SetTest}

/-- What a test says of classes and of the types of parameters, by the classes found for its slots.
Of interfaces it says nothing about positions. -/
def Describes (found : Slot → List ClassId) (classes parameters : List ClassId) : SetTest → Prop
  | .member operand => operand.Occurs found classes parameters
  | .nonMember operand => ¬ operand.Occurs found classes parameters
  | .allOf slot => found slot ≠ [] ∧ ∀ cls ∈ found slot, cls ∈ classes
  | .anyOf slot => ∃ cls ∈ found slot, cls ∈ classes
  | .and left right =>
    left.Describes found classes parameters ∧ right.Describes found classes parameters
  | .or left right =>
    left.Describes found classes parameters ∨ right.Describes found classes parameters
  | .not inner => ¬ inner.Describes found classes parameters

instance decidableDescribes (found : Slot → List ClassId) (classes parameters : List ClassId) :
    (test : SetTest) → Decidable (test.Describes found classes parameters)
  | .member operand => inferInstanceAs (Decidable (operand.Occurs found classes parameters))
  | .nonMember operand => inferInstanceAs (Decidable (¬ operand.Occurs found classes parameters))
  | .allOf slot =>
    inferInstanceAs (Decidable (found slot ≠ [] ∧ ∀ cls ∈ found slot, cls ∈ classes))
  | .anyOf slot => inferInstanceAs (Decidable (∃ cls ∈ found slot, cls ∈ classes))
  | .and left right =>
    have := decidableDescribes found classes parameters left
    have := decidableDescribes found classes parameters right
    inferInstanceAs (Decidable (left.Describes found classes parameters ∧
      right.Describes found classes parameters))
  | .or left right =>
    have := decidableDescribes found classes parameters left
    have := decidableDescribes found classes parameters right
    inferInstanceAs (Decidable (left.Describes found classes parameters ∨
      right.Describes found classes parameters))
  | .not inner =>
    have := decidableDescribes found classes parameters inner
    inferInstanceAs (Decidable (¬ inner.Describes found classes parameters))

/-- A set of classes, and of the types of parameters at their positions. -/
structure Comprises (set : List Entity) (classes parameters : List ClassId) : Prop where
  cls : ∀ {id : ClassId}, .cls id ∈ set ↔ id ∈ classes
  parameter : ∀ {index : Nat} {type : ClassId}, .parameter index type ∈ set ↔
    ∃ h : index < parameters.length, parameters[index] = type

theorem comprises_classes (ids : List ClassId) : Comprises (ids.map .cls) ids [] where
  cls := by simp
  parameter := by simp

theorem contains_iff_occurs (hset : Comprises set classes parameters) {operand : Operand}
    (h : values operand.slot = some ((found operand.slot).map .cls)) :
    contains values set operand = true ↔ operand.Occurs found classes parameters := by
  cases operand with
  | value slot =>
    have hslot : values slot = some ((found slot).map .cls) := h
    cases hfound : found slot with
    | nil => simp [contains, Operand.entity?, Operand.slot, Operand.Occurs, hslot, hfound]
    | cons cls rest =>
      simp [contains, Operand.entity?, Operand.slot, Operand.Occurs, hslot, hfound, hset.cls]
  | parameter slot index =>
    have hslot : values slot = some ((found slot).map .cls) := h
    cases hfound : found slot with
    | nil => simp [contains, Operand.entity?, Operand.slot, Operand.Occurs, hslot, hfound]
    | cons cls rest =>
      simp [contains, Operand.entity?, Operand.slot, Operand.Occurs, hslot, hfound, Entity.classId?,
        hset.parameter, eq_comm]

/-- **A test holds of a set if and only if it describes what the set comprises.** -/
theorem holds_iff_describes (hset : Comprises set classes parameters)
    (h : ∀ s ∈ test.leaves, values s = some ((found s).map .cls)) :
    test.holds values set = true ↔ test.Describes found classes parameters := by
  induction test with
  | member operand => exact contains_iff_occurs hset (h _ (by simp [leaves]))
  | nonMember operand =>
    have hoperand := contains_iff_occurs hset (h operand.slot (by simp [leaves]))
    rw [holds, Describes, Bool.not_eq_true', ← hoperand, Bool.not_eq_true]
  | allOf slot =>
    rw [holds, Describes, h slot (by simp [leaves])]
    simp [hset.cls]
  | anyOf slot =>
    rw [holds, Describes, h slot (by simp [leaves])]
    simp [hset.cls]
  | and left right ihleft ihright =>
    obtain ⟨hleft, hright⟩ := List.forall_mem_append.1 h
    rw [holds, Describes, Bool.and_eq_true, ihleft hleft, ihright hright]
  | or left right ihleft ihright =>
    obtain ⟨hleft, hright⟩ := List.forall_mem_append.1 h
    rw [holds, Describes, Bool.or_eq_true, ihleft hleft, ihright hright]
  | not inner ih => rw [holds, Describes, Bool.not_eq_true', ← ih h, Bool.not_eq_true]

end SetTest

end Metamatch
