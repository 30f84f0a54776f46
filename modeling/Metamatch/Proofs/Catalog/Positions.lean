import Mathlib.Order.Bounds.Defs
import Metamatch.Proofs.Bytes
import Metamatch.Proofs.Catalog

/-!
# Positions in the name catalog

What the searches of a catalog come to, position by position. Names are compared by their bytes, and
one begins with another if its bytes do.

* `Catalog.lowerBound_eq_countP`, `Catalog.isLeast_lowerBound`: a lower bound as a number of names,
  and as a least position.
* `Catalog.mem_startRange`: the positions of the range of a beginning.
* `searches_of_lists`: all of this for the catalog of any lists.
-/

namespace Metamatch

/-- The positions of a range. -/
instance : Membership Nat Range := ⟨fun range index => range.start ≤ index ∧ index < range.stop⟩

namespace Catalog

variable {catalog : Catalog} {index : Nat} {key name : String}

/-- **A lower bound is the number of smaller names.** -/
theorem lowerBound_eq_countP (h : catalog.names.Pairwise (· < ·)) (key : String) :
    catalog.lowerBound key = catalog.names.countP (· < key) := by
  obtain ⟨hsize, hindex⟩ := lowerBound_spec h key
  have hbelow : (catalog.names.take (catalog.lowerBound key)).countP (· < key) =
      catalog.lowerBound key := by
    have hall : ∀ name ∈ catalog.names.take (catalog.lowerBound key),
        decide (name < key) = true := by
      intro name hname
      obtain ⟨index, hlt, rfl⟩ := List.mem_take_iff_getElem.1 hname
      have hlt' := lt_min_iff.1 hlt
      exact decide_eq_true ((hindex index _ (List.getElem?_eq_getElem hlt'.2)).1 hlt'.1)
    rw [List.countP_eq_length.2 hall, List.length_take]
    exact min_eq_left hsize
  have habove : (catalog.names.drop (catalog.lowerBound key)).countP (· < key) = 0 := by
    refine List.countP_eq_zero.2 fun name hname => ?_
    obtain ⟨offset, hoffset⟩ := List.mem_iff_getElem?.1 hname
    rw [List.getElem?_drop] at hoffset
    have hnot := (hindex _ name hoffset).not.1 (by omega)
    simpa using hnot
  conv_rhs => rw [← List.take_append_drop (catalog.lowerBound key) catalog.names]
  rw [List.countP_append, hbelow, habove, Nat.add_zero]

/-- **A lower bound is the first position of a name that is not smaller**, or the size. -/
theorem isLeast_lowerBound (h : catalog.names.Pairwise (· < ·)) (key : String) :
    IsLeast {index | ∃ name, catalog.get? index = some name ∧ key ≤ name}
        (catalog.lowerBound key) ∨
      catalog.lowerBound key = catalog.size ∧ ∀ name ∈ catalog.names, name < key := by
  obtain ⟨hsize, hindex⟩ := lowerBound_spec h key
  rcases hsize.lt_or_eq with hlt | heq
  · left
    have hget := List.getElem?_eq_getElem hlt
    refine ⟨⟨_, hget, not_lt.1 ((hindex _ _ hget).not.1 (Nat.lt_irrefl _))⟩, ?_⟩
    rintro index ⟨name, hname, hle⟩
    exact Nat.le_of_not_lt ((hindex index name hname).not.2 hle.not_gt)
  · right
    refine ⟨heq, fun name hname => ?_⟩
    obtain ⟨index, hget⟩ := List.mem_iff_getElem?.1 hname
    have hlt : index < catalog.lowerBound key := heq ▸ (List.getElem?_eq_some_iff.1 hget).1
    exact (hindex index name hget).1 hlt

theorem lowerBound_mono (h : catalog.names.Pairwise (· < ·)) {low high : String}
    (hle : low ≤ high) : catalog.lowerBound low ≤ catalog.lowerBound high := by
  rw [lowerBound_eq_countP h, lowerBound_eq_countP h]
  refine List.countP_mono_left fun name _ hname => ?_
  exact decide_eq_true ((of_decide_eq_true hname).trans_le hle)

/-- **A search for a beginning comes to the positions of the names that begin so**, and do not go on
with the last character. -/
theorem mem_startRange (h : catalog.names.Pairwise (· < ·)) (start : String) :
    index ∈ catalog.startRange start ↔ ∃ name, catalog.get? index = some name ∧
      NameFilter.begins start name = true ∧
        ¬ NameFilter.begins (start.push lastChar) name = true := by
  obtain ⟨-, hlow⟩ := lowerBound_spec h start
  obtain ⟨hsize, hhigh⟩ := lowerBound_spec h (start.push lastChar)
  change catalog.lowerBound start ≤ index ∧ index < catalog.lowerBound (start.push lastChar) ↔ _
  simp only [← between_iff_begins]
  constructor
  · rintro ⟨hle, hlt⟩
    have hget : catalog.get? index = some _ := List.getElem?_eq_getElem (hlt.trans_le hsize)
    exact ⟨_, hget, (hlow index _ hget).not.1 hle.not_gt, (hhigh index _ hget).1 hlt⟩
  · rintro ⟨name, hget, hle, hlt⟩
    exact ⟨Nat.le_of_not_lt ((hlow index name hget).not.2 hle), (hhigh index name hget).2 hlt⟩

end Catalog

/-- **What the searches of a catalog come to**: the lower bound, the range of a name, and that of a
beginning, which lacks the names that go on with the last character. -/
theorem searches_of_lists (lists : List (List String)) (key : String) :
    let catalog : Catalog := .ofLists lists
    catalog.lowerBound key =
        catalog.names.countP (fun name => Text.bytes name < Text.bytes key) ∧
      (IsLeast {index | ∃ name, catalog.get? index = some name ∧ Text.bytes key ≤ Text.bytes name}
          (catalog.lowerBound key) ∨
        catalog.lowerBound key = catalog.size ∧
          ∀ name ∈ catalog.names, Text.bytes name < Text.bytes key) ∧
      catalog.exactRange key =
        (if key ∈ catalog.names then ⟨catalog.names.idxOf key, catalog.names.idxOf key + 1⟩
          else ⟨catalog.lowerBound key, catalog.lowerBound key⟩) ∧
      (catalog.startRange key).start ≤ (catalog.startRange key).stop ∧
      (catalog.startRange key).stop ≤ catalog.size ∧
      ∀ index, index ∈ catalog.startRange key ↔ ∃ name, catalog.get? index = some name ∧
        Text.bytes key <+: Text.bytes name ∧
          ¬ Text.bytes (key.push Catalog.lastChar) <+: Text.bytes name := by
  have h := Catalog.pairwise_ofLists lists
  refine ⟨?_, ?_, Catalog.exactRange_eq h key, ?_, ?_, fun index => ?_⟩
  · simp only [Text.bytes_lt_bytes_iff]
    exact Catalog.lowerBound_eq_countP h key
  · simp only [Text.bytes_le_bytes_iff, Text.bytes_lt_bytes_iff]
    exact Catalog.isLeast_lowerBound h key
  · exact Catalog.lowerBound_mono h (Catalog.lt_push_lastChar key).le
  · exact (Catalog.lowerBound_spec h _).1
  · rw [Catalog.mem_startRange h]
    simp only [NameFilter.begins_iff, Text.bytes_prefix_bytes_iff]

namespace Sample

/-- Names that begin alike, one of which goes on with the last character. -/
def alike : List (List String) := [["b", "ab"], ["a", "ab", "a".push Catalog.lastChar]]

end Sample

/-- The search for `a` stops before the name that goes on with the last character, and every name is
below `c`. -/
theorem searches_of_alike :
    let catalog : Catalog := .ofLists Sample.alike
    catalog.names = ["a", "ab", "a".push Catalog.lastChar, "b"] ∧
      catalog.exactRange "ab" = ⟨1, 2⟩ ∧ catalog.startRange "a" = ⟨0, 2⟩ ∧
      (∃ name, catalog.get? 1 = some name ∧ Text.bytes "a" <+: Text.bytes name) ∧
      ∀ name ∈ catalog.names, Text.bytes name < Text.bytes "c" := by
  obtain ⟨-, -, -, -, -, hstart⟩ := searches_of_lists Sample.alike "a"
  obtain ⟨-, hbound, -⟩ := searches_of_lists Sample.alike "c"
  have hrange : (Catalog.ofLists Sample.alike).startRange "a" = ⟨0, 2⟩ := by decide +kernel
  have hsize : (Catalog.ofLists Sample.alike).lowerBound "c" = 4 := by decide +kernel
  have hnone : (Catalog.ofLists Sample.alike).get? 4 = none := by decide +kernel
  refine ⟨by decide +kernel, by decide +kernel, hrange, ?_, ?_⟩
  · have hmem : 1 ∈ (Catalog.ofLists Sample.alike).startRange "a" := by
      rw [hrange]
      exact ⟨Nat.zero_le 1, Nat.one_lt_two⟩
    obtain ⟨name, hname, hbegins, -⟩ := (hstart 1).1 hmem
    exact ⟨name, hname, hbegins⟩
  · rcases hbound with ⟨⟨name, hname, -⟩, -⟩ | ⟨-, hbelow⟩
    · rw [hsize, hnone] at hname
      cases hname
    · exact hbelow

end Metamatch
