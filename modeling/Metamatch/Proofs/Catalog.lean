import Mathlib.Data.String.Basic
import Metamatch.Proofs.Catalog.Merge

/-!
# Ranges of the name catalog

The names of a catalog increase, so those between two keys stand side by side. A search for a
beginning takes the key itself and the key followed by the last character, and so leaves out the
names that go on with that very character.

* `Catalog.lowerBound_spec`, `Catalog.lowerBound_eq_findIdx`: halving comes to the first name that is
  not below a key.
* `Catalog.slice_lowerBound`: the names between two keys.
* `Catalog.exactRange_eq`: the range of a name.
* `Catalog.slice_exactRange`, `Catalog.slice_startRange`: the names of the two searches.
* `candidates_of_lists`: what a scan gets to see of the names that a filter accepts.
-/

namespace Metamatch

/-! ## Beginnings and order -/

theorem between_iff_prefix {α : Type} [LinearOrder α] {top : α} (htop : ∀ a, a ≤ top)
    (start items : List α) :
    ¬ items < start ∧ items < start ++ [top] ↔ start <+: items ∧ ¬ start ++ [top] <+: items := by
  induction start generalizing items with
  | nil =>
    cases items with
    | nil => simp
    | cons a rest =>
      have hlt : a < top ↔ a ≠ top := lt_iff_le_and_ne.trans (and_iff_right (htop a))
      simp [List.cons_lt_cons_iff, List.cons_prefix_cons, hlt, eq_comm]
  | cons first start ih =>
    cases items with
    | nil => simp
    | cons a rest =>
      rw [List.cons_append, List.cons_prefix_cons, List.cons_prefix_cons, List.cons_lt_cons_iff,
        List.cons_lt_cons_iff]
      rcases lt_trichotomy a first with hlt | rfl | hgt
      · simp [hlt, hlt.ne']
      · simpa using ih rest
      · simp [hgt.ne, hgt.ne', hgt.not_gt]

namespace NameFilter

variable {start name : String}

theorem begins_iff : begins start name = true ↔ start.toList <+: name.toList :=
  List.isPrefixOf_iff_prefix

/-- A filter by nothing but a beginning does not come to see the names in which the last character
follows it. -/
def overlooks (filter : NameFilter) (name : String) : Bool :=
  filter.whole.isNone && filter.start.any fun start => begins (start.push Catalog.lastChar) name

end NameFilter

namespace Catalog

theorem le_lastChar (c : Char) : c ≤ lastChar := by
  have hvalid : c.val.toNat < 0x110000 := by
    rcases c.valid with h | ⟨-, h⟩
    · exact h.trans (by decide)
    · exact h
  exact UInt32.le_iff_toNat_le.2 (Nat.le_of_lt_succ hvalid)

theorem between_iff_begins (start name : String) :
    ¬ name < start ∧ name < start.push lastChar ↔
      NameFilter.begins start name = true ∧
        ¬ NameFilter.begins (start.push lastChar) name = true := by
  rw [String.lt_iff_toList_lt, String.lt_iff_toList_lt, NameFilter.begins_iff,
    NameFilter.begins_iff, String.toList_push]
  exact between_iff_prefix le_lastChar start.toList name.toList

theorem lt_push_lastChar (start : String) : start < start.push lastChar := by
  rw [String.lt_iff_toList_lt, String.toList_push]
  nth_rewrite 1 [← List.append_nil start.toList]
  exact List.append_left_lt (List.nil_lt_cons _ _)

/-! ## Halving -/

/-- Between two positions, halving comes to the end of those at which a test holds, if it holds up
to some position and from then on no more. -/
theorem bisect_spec {before : Nat → Bool} {low high : Nat} (hle : low ≤ high)
    (hbefore : ∀ i j, i ≤ j → before j = true → before i = true) :
    low ≤ bisect before low high ∧ bisect before low high ≤ high ∧
      (∀ i, low ≤ i → i < bisect before low high → before i = true) ∧
      ∀ i, bisect before low high ≤ i → i < high → before i = false := by
  fun_induction bisect before low high with
  | case1 low high hlt middle hmiddle ih =>
    obtain ⟨hlow, hhigh, hholds, hfails⟩ := ih (by omega)
    refine ⟨by omega, hhigh, fun i hi hlt' => ?_, hfails⟩
    by_cases hi' : i ≤ middle
    · exact hbefore i middle hi' hmiddle
    · exact hholds i (by omega) hlt'
  | case2 low high hlt middle hmiddle ih =>
    obtain ⟨hlow, hhigh, hholds, hfails⟩ := ih (by omega)
    refine ⟨hlow, by omega, hholds, fun i hi hlt' => ?_⟩
    by_cases hi' : i < middle
    · exact hfails i hi hi'
    · exact Bool.eq_false_iff.2 fun hi => hmiddle (hbefore middle i (by omega) hi)
  | case3 low high hge =>
    refine ⟨le_rfl, hle, fun i _ _ => ?_, fun i _ _ => ?_⟩
    · omega
    · omega

/-- **A lower bound tells the names below a key from the others.** -/
theorem lowerBound_spec {catalog : Catalog} (h : catalog.names.Pairwise (· < ·)) (key : String) :
    catalog.lowerBound key ≤ catalog.size ∧ ∀ index name, catalog.get? index = some name →
      (index < catalog.lowerBound key ↔ name < key) := by
  have hbefore : ∀ i j, i ≤ j → (catalog.get? j).any (· < key) = true →
      (catalog.get? i).any (· < key) = true := by
    intro i j hij hj
    obtain ⟨name, hname, hlt⟩ := (Option.any_eq_true _ _).1 hj
    obtain ⟨hlength, rfl⟩ := List.getElem?_eq_some_iff.1 hname
    have hi := List.getElem?_eq_getElem (hij.trans_lt hlength)
    refine (Option.any_eq_true _ _).2 ⟨_, hi, decide_eq_true ?_⟩
    rcases hij.lt_or_eq with hlt' | rfl
    · exact (List.pairwise_iff_getElem.1 h i j _ hlength hlt').trans (of_decide_eq_true hlt)
    · exact of_decide_eq_true hlt
  obtain ⟨-, hsize, hholds, hfails⟩ := bisect_spec (Nat.zero_le catalog.size) hbefore
  refine ⟨hsize, fun index name hname => ⟨fun hlt => ?_, fun hlt => ?_⟩⟩
  · have hbelow := hholds index (Nat.zero_le _) hlt
    rw [hname] at hbelow
    exact of_decide_eq_true hbelow
  · by_contra hge
    have hindex : index < catalog.size := (List.getElem?_eq_some_iff.1 hname).1
    have habove := hfails index (Nat.le_of_not_lt hge) hindex
    rw [hname] at habove
    exact of_decide_eq_false habove hlt

theorem lowerBound_eq_findIdx {catalog : Catalog} (h : catalog.names.Pairwise (· < ·))
    (key : String) :
    catalog.lowerBound key = catalog.names.findIdx fun name => !decide (name < key) := by
  obtain ⟨hsize, hindex⟩ := lowerBound_spec h key
  symm
  rcases hsize.lt_or_eq with hlt | heq
  · rw [List.findIdx_eq hlt]
    refine ⟨?_, fun j hj => ?_⟩
    · have hname := hindex _ _ (List.getElem?_eq_getElem hlt)
      simpa using hname.not.1 (Nat.lt_irrefl _)
    · have hname := hindex j _ (List.getElem?_eq_getElem (hj.trans hlt))
      simpa using hname.1 hj
  · rw [heq, size, List.findIdx_eq_length]
    intro name hname
    obtain ⟨j, hj⟩ := List.mem_iff_getElem?.1 hname
    have hlt : j < catalog.lowerBound key := heq ▸ (List.getElem?_eq_some_iff.1 hj).1
    simpa using (hindex j name hj).1 hlt

theorem lowerBound_of_get? {catalog : Catalog} (h : catalog.names.Pairwise (· < ·)) {index : Nat}
    {name : String} (hname : catalog.get? index = some name) : catalog.lowerBound name = index := by
  obtain ⟨-, hindex⟩ := lowerBound_spec h name
  have hle := Nat.le_of_not_lt ((hindex index name hname).not.2 (lt_irrefl name))
  refine hle.antisymm (Nat.le_of_not_lt fun hlt => ?_)
  -- a name before this one would be smaller, and so below the lower bound
  obtain ⟨hlength, heq⟩ := List.getElem?_eq_some_iff.1 hname
  have hsmaller := List.pairwise_iff_getElem.1 h _ index (hlt.trans hlength) hlength hlt
  have hget : catalog.get? (catalog.lowerBound name) = some _ :=
    List.getElem?_eq_getElem (hlt.trans hlength)
  rw [heq] at hsmaller
  exact Nat.lt_irrefl _ ((hindex _ _ hget).2 hsmaller)

/-! ## Ranges of positions -/

theorem drop_take_findIdx {α : Type} {p q : α → Bool} {items : List α} (hpq : ∀ a, p a → q a)
    (hp : items.Pairwise fun a b => p b → p a) (hq : items.Pairwise fun a b => q b → q a) :
    (items.take (items.findIdx (!q ·))).drop (items.findIdx (!p ·)) =
      items.filter fun a => !p a && q a := by
  induction items with
  | nil => rfl
  | cons first rest ih =>
    obtain ⟨hpfirst, hprest⟩ := List.pairwise_cons.1 hp
    obtain ⟨hqfirst, hqrest⟩ := List.pairwise_cons.1 hq
    have ih := ih hprest hqrest
    -- a segment that the first is not in has nothing of the rest
    have hnone : ∀ {r : α → Bool}, (∀ a ∈ rest, r a → r first) → r first = false →
        ∀ a ∈ rest, r a = false := by
      intro r hr hfirst a ha
      by_contra hra
      rw [hr a ha (by simpa using hra)] at hfirst
      cases hfirst
    cases hpf : p first with
    | true => simpa [List.findIdx_cons, hpf, hpq first hpf] using ih
    | false =>
      cases hqf : q first with
      | true =>
        have hstart : rest.findIdx (!p ·) = 0 := by
          cases rest with
          | nil => rfl
          | cons b others => simp [List.findIdx_cons, hnone hpfirst hpf b List.mem_cons_self]
        rw [hstart, List.drop_zero] at ih
        simp [List.findIdx_cons, hpf, hqf, ih]
      | false =>
        simpa [List.findIdx_cons, hpf, hqf] using fun a ha _ => hnone hqfirst hqf a ha

variable {catalog : Catalog} {low high name : String}

/-- **The names between two keys** stand between their positions. -/
theorem slice_lowerBound (h : catalog.names.Pairwise (· < ·)) (hle : ¬ high < low) :
    catalog.slice ⟨catalog.lowerBound low, catalog.lowerBound high⟩ =
      catalog.names.filter fun name => !decide (name < low) && decide (name < high) := by
  have hsegment : ∀ key : String, catalog.names.Pairwise fun a b =>
      decide (b < key) = true → decide (a < key) = true := by
    intro key
    refine h.imp fun {a b} hab hb => decide_eq_true ?_
    exact hab.trans (of_decide_eq_true hb)
  rw [lowerBound_eq_findIdx h, lowerBound_eq_findIdx h]
  exact drop_take_findIdx (p := fun name => decide (name < low))
    (fun name hname => decide_eq_true ((of_decide_eq_true hname).trans_le (not_lt.1 hle)))
    (hsegment low) (hsegment high)

theorem slice_startRange (h : catalog.names.Pairwise (· < ·)) (start : String) :
    catalog.slice (catalog.startRange start) = catalog.names.filter fun name =>
      NameFilter.begins start name && !NameFilter.begins (start.push lastChar) name := by
  rw [startRange, slice_lowerBound h (lt_push_lastChar start).not_gt]
  refine List.filter_congr fun name _ => ?_
  have hiff := between_iff_begins start name
  rw [Bool.eq_iff_iff]
  simpa using hiff

/-- **A search for a name comes to its position**, or to nothing. -/
theorem exactRange_eq (h : catalog.names.Pairwise (· < ·)) (name : String) :
    catalog.exactRange name =
      if name ∈ catalog.names then
        ⟨catalog.names.idxOf name, catalog.names.idxOf name + 1⟩
      else ⟨catalog.lowerBound name, catalog.lowerBound name⟩ := by
  unfold exactRange
  dsimp only
  by_cases hmem : name ∈ catalog.names
  · have hget : catalog.get? (catalog.names.idxOf name) = some name := List.getElem?_idxOf hmem
    rw [if_pos hmem, lowerBound_of_get? h hget, if_pos hget]
  · rw [if_neg hmem, if_neg]
    exact fun hget => hmem (List.mem_of_getElem? hget)

theorem slice_exactRange (h : catalog.names.Pairwise (· < ·)) (name : String) :
    catalog.slice (catalog.exactRange name) = catalog.names.filter (· == name) := by
  have hnodup : catalog.names.Nodup := h.imp ne_of_lt
  rw [exactRange_eq h, List.filter_beq]
  split
  · next hmem =>
    have hlt := List.idxOf_lt_length_iff.2 hmem
    rw [List.count_eq_one_of_mem hnodup hmem, slice, List.take_succ_eq_append_getElem hlt,
      List.drop_append_of_le_length (by simp; omega)]
    simp
  · next hmem =>
    rw [List.count_eq_zero_of_not_mem hmem, slice]
    simp

theorem filter_candidates (h : catalog.names.Pairwise (· < ·)) (filter : NameFilter) :
    (catalog.slice (catalog.candidates filter)).filter filter.accepts =
      catalog.names.filter fun name => filter.accepts name && !filter.overlooks name := by
  obtain ⟨whole, start⟩ := filter
  unfold candidates
  cases whole with
  | some name =>
    rw [slice_exactRange h, List.filter_filter]
    refine List.filter_congr fun other _ => ?_
    by_cases heq : name = other
    · simp [NameFilter.accepts, NameFilter.overlooks, heq]
    · simp [NameFilter.accepts, NameFilter.overlooks, heq]
  | none =>
    cases start with
    | some start =>
      rw [slice_startRange h, List.filter_filter]
      refine List.filter_congr fun name _ => ?_
      simp [NameFilter.accepts, NameFilter.overlooks]
    | none =>
      simp [NameFilter.accepts, NameFilter.overlooks, slice, size]

end Catalog

/-- **What a scan gets to see of the names that a filter accepts**: all of them in order, unless the
filter asks for nothing but a beginning; then names in which the last character follows it are
missing. -/
theorem candidates_of_lists (lists : List (List String)) (filter : NameFilter) :
    let catalog := Catalog.ofLists lists
    let seen := (catalog.slice (catalog.candidates filter)).filter filter.accepts
    seen = catalog.names.filter (fun name => filter.accepts name && !filter.overlooks name) ∧
    (seen = catalog.names.filter filter.accepts ↔
      ∀ name ∈ catalog.names, filter.accepts name → ¬ filter.overlooks name) ∧
    ∀ start, catalog.slice (catalog.startRange start) = catalog.names.filter fun name =>
      NameFilter.begins start name && !NameFilter.begins (start.push Catalog.lastChar) name := by
  have hsorted := Catalog.pairwise_ofLists lists
  have hseen := Catalog.filter_candidates hsorted filter
  refine ⟨hseen, ⟨fun hall name hname haccepts hoverlooks => ?_, fun h => ?_⟩,
    Catalog.slice_startRange hsorted⟩
  · have hmem := List.mem_filter.2 ⟨hname, haccepts⟩
    rw [← hall, hseen] at hmem
    simp [hoverlooks] at hmem
  · refine hseen.trans (List.filter_congr fun name hname => ?_)
    by_cases haccepts : filter.accepts name
    · simp [haccepts, h name hname haccepts]
    · simp [haccepts]

namespace Sample

/-- Two names, of which the second goes on with the last character. -/
def extended : List (List String) := [["a", "a".push Catalog.lastChar]]

end Sample

/-- A search for names that begin with `a` does not come to the second name, although the filter
accepts it. -/
theorem candidates_of_lastChar :
    let catalog := Catalog.ofLists Sample.extended
    let filter : NameFilter := { start := some "a" }
    (catalog.slice (catalog.candidates filter)).filter filter.accepts = ["a"] ∧
      catalog.names.filter filter.accepts = ["a", "a".push Catalog.lastChar] := by
  decide +kernel

end Metamatch
