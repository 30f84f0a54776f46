import Mathlib.Data.List.Induction
import Metamatch.Modifiers.Mask

/-!
# Demands on modifiers

A mask comes about by demands that are made one after the other, and on every flag it is the last
one that counts. Package privacy is a demand on all access flags at once. To drop it takes back that
these have to be clear, whichever demand said so, but not that they have to be set.

* `Modifiers.has`: the flags of a modifier word one by one.
* `Demand`, `Mask.ofDemands`: demands, and the mask that they lead to.
* `Mask.has_needed_ofDemands`, `Mask.has_forbidden_ofDemands`: what a mask says of a flag is what
  the last demand that decides it does.
* `Mask.exists_accepts_ofDemands`: demands cannot contradict each other.
-/

namespace Metamatch

/-! ## Flag by flag -/

namespace Modifiers

variable {m m' : Modifiers} {i : Nat}

/-- The flag at place `i` is set. -/
def has (m : Modifiers) (i : Nat) : Bool := m.bits.getLsbD i

theorem eq_of_has (h : ∀ i, m.has i = m'.has i) : m = m' := by
  cases m
  cases m'
  exact congrArg mk (BitVec.eq_of_getLsbD_eq fun i _ => h i)

@[simp] theorem has_empty : empty.has i = false := BitVec.getLsbD_zero

@[simp] theorem has_union : (m.union m').has i = (m.has i || m'.has i) := BitVec.getLsbD_or

@[simp] theorem has_inter : (m.inter m').has i = (m.has i && m'.has i) := BitVec.getLsbD_and

@[simp] theorem has_diff : (m.diff m').has i = (m.has i && !m'.has i) := by
  rw [has, diff, BitVec.getLsbD_and, BitVec.getLsbD_not]
  by_cases hi : i < 32
  · simp [has, hi]
  · simp [has, BitVec.getLsbD_of_ge _ _ (Nat.not_lt.1 hi)]

theorem contains_iff : m.contains m' = true ↔ ∀ i, m'.has i → m.has i := by
  have hinter : m.contains m' = true ↔ m.inter m' = m' := by
    cases m'
    simp [contains, inter]
  rw [hinter]
  refine ⟨fun h i hi => ?_, fun h => eq_of_has fun i => ?_⟩
  · rw [← h, has_inter, Bool.and_eq_true] at hi
    exact hi.1
  · cases hi : m'.has i
    · simp [hi]
    · simp [hi, h i hi]

theorem intersects_iff : m.intersects m' = true ↔ m.inter m' ≠ empty := by
  simp [intersects, inter, empty]

theorem inter_eq_empty : m.inter m' = empty ↔ ∀ i, m.has i → m'.has i = false := by
  refine ⟨fun h i hi => ?_, fun h => eq_of_has fun i => ?_⟩
  · have hboth := congrArg (has · i) h
    simpa [hi] using hboth
  · cases hi : m.has i
    · simp [hi]
    · simp [hi, h i hi]

end Modifiers

theorem Mask.accepts_iff {mask : Mask} {word : Modifiers} : mask.accepts word = true ↔
    ∀ i, (mask.needed.has i → word.has i) ∧ (mask.forbidden.has i → word.has i = false) := by
  have hclear : word.intersects mask.forbidden = false ↔
      ∀ i, mask.forbidden.has i → word.has i = false := by
    rw [← Bool.not_eq_true, Modifiers.intersects_iff, not_not, Modifiers.inter_eq_empty]
    exact forall_congr' fun i => by cases word.has i <;> simp
  rw [accepts, Bool.and_eq_true, Bool.not_eq_true', Modifiers.contains_iff, hclear, forall_and]

/-! ## Demands -/

/-- A demand on modifiers: that flags be set or clear, or that there be no access flag, which can
be dropped again. -/
inductive Demand
  | require (flags : Modifiers) (set : Bool)
  | packagePrivate (set : Bool)
  deriving DecidableEq, Repr

namespace Demand

/-- A mask with one demand more. -/
def impose (mask : Mask) : Demand → Mask
  | .require flags set => mask.require flags set
  | .packagePrivate set => mask.requirePackagePrivate set

/-- The demand names the flag at place `i`. -/
def touches (i : Nat) : Demand → Bool
  | .require flags _ => flags.has i
  | .packagePrivate _ => Modifiers.access.has i

/-- The demand says whether the flag at place `i` has to be set. To drop package privacy does not
say so. -/
def decides (i : Nat) : Demand → Bool
  | .require flags _ => flags.has i
  | .packagePrivate set => set && Modifiers.access.has i

/-- The flags that the demand names have to be set. -/
def asks : Demand → Bool
  | .require _ set => set
  | .packagePrivate _ => false

/-- The flags that the demand names have to be clear. -/
def bars : Demand → Bool
  | .require _ set => !set
  | .packagePrivate set => set

variable {mask : Mask} {demand : Demand} {i : Nat}

theorem has_needed_impose : (demand.impose mask).needed.has i =
    if demand.decides i then demand.asks else mask.needed.has i := by
  cases demand with
  | require flags set =>
    cases set <;> cases h : flags.has i <;> simp [impose, Mask.require, decides, asks, h]
  | packagePrivate set =>
    cases set <;> cases h : Modifiers.access.has i <;>
      simp [impose, Mask.requirePackagePrivate, Mask.require, decides, asks, h]

theorem has_forbidden_impose : (demand.impose mask).forbidden.has i =
    if demand.touches i then demand.bars else mask.forbidden.has i := by
  cases demand with
  | require flags set =>
    cases set <;> cases h : flags.has i <;> simp [impose, Mask.require, touches, bars, h]
  | packagePrivate set =>
    cases set <;> cases h : Modifiers.access.has i <;>
      simp [impose, Mask.requirePackagePrivate, Mask.require, touches, bars, h]

theorem touches_of_decides (h : demand.decides i = true) : demand.touches i = true := by
  cases demand with
  | require flags set => exact h
  | packagePrivate set => exact (Bool.and_eq_true _ _ ▸ h).2

theorem decides_of_bars (h : demand.bars = true) :
    demand.decides i = demand.touches i ∧ demand.asks = false := by
  cases demand with
  | require flags set => exact ⟨rfl, by simpa [bars, asks] using h⟩
  | packagePrivate set =>
    cases h
    exact ⟨rfl, rfl⟩

/-- The last of some demands that has a property. -/
def last? (p : Demand → Bool) (demands : List Demand) : Option Demand := (demands.filter p).getLast?

theorem last?_concat (p : Demand → Bool) (demands : List Demand) :
    last? p (demands ++ [demand]) = if p demand then some demand else last? p demands := by
  cases h : p demand <;> simp [last?, List.filter_append, h]

end Demand

/-! ## Masks -/

namespace Mask

open Demand (last?)

/-- The mask that demands lead to, one after the other. -/
def ofDemands (demands : List Demand) : Mask := demands.foldl Demand.impose any

theorem ofDemands_concat (demands : List Demand) (demand : Demand) :
    ofDemands (demands ++ [demand]) = demand.impose (ofDemands demands) := by
  rw [ofDemands, List.foldl_append]
  rfl

variable (demands : List Demand)

/-- **A flag has to be set** if the last demand that decides this asks for it. -/
theorem has_needed_ofDemands (i : Nat) :
    (ofDemands demands).needed.has i = (last? (·.decides i) demands).any (·.asks) := by
  induction demands using List.reverseRecOn with
  | nil => exact Modifiers.has_empty
  | append_singleton demands demand ih =>
    rw [ofDemands_concat, Demand.has_needed_impose, Demand.last?_concat, ih]
    split <;> rfl

/-- **A flag has to be clear** if the last demand on it bars it. -/
theorem has_forbidden_ofDemands (i : Nat) :
    (ofDemands demands).forbidden.has i = (last? (·.touches i) demands).any (·.bars) := by
  induction demands using List.reverseRecOn with
  | nil => exact Modifiers.has_empty
  | append_singleton demands demand ih =>
    rw [ofDemands_concat, Demand.has_forbidden_impose, Demand.last?_concat, ih]
    split <;> rfl

theorem inter_ofDemands :
    (ofDemands demands).needed.inter (ofDemands demands).forbidden = .empty := by
  rw [Modifiers.inter_eq_empty]
  induction demands using List.reverseRecOn with
  | nil => exact fun i _ => Modifiers.has_empty
  | append_singleton demands demand ih =>
    intro i hneeded
    rw [ofDemands_concat, Demand.has_needed_impose] at hneeded
    rw [ofDemands_concat, Demand.has_forbidden_impose]
    by_cases htouches : demand.touches i = true
    · rw [if_pos htouches, ← Bool.not_eq_true]
      intro hbars
      obtain ⟨hdecides, hasks⟩ := Demand.decides_of_bars (i := i) hbars
      rw [hdecides, if_pos htouches, hasks] at hneeded
      cases hneeded
    · rw [if_neg (mt Demand.touches_of_decides htouches)] at hneeded
      rw [if_neg htouches]
      exact ih i hneeded

/-- **Demands cannot contradict each other**: the flags that have to be set are a word that the mask
accepts. -/
theorem exists_accepts_ofDemands : ∃ word, (ofDemands demands).accepts word = true := by
  refine ⟨(ofDemands demands).needed, accepts_iff.2 fun i => ⟨id, fun hforbidden => ?_⟩⟩
  rw [← Bool.not_eq_true]
  intro hneeded
  have hclear := Modifiers.inter_eq_empty.1 (inter_ofDemands demands) i hneeded
  cases hclear.symm.trans hforbidden

end Mask

end Metamatch
