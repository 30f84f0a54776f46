import Mathlib.Data.List.Sort
import Metamatch.Ordered

/-!
# Increasing lists of distinct elements

* `Ordered.pairwise_ofList`: `Ordered.ofList` is strictly increasing, so that no element is there
  twice.
* `Ordered.ofList_congr`: it depends on nothing but which elements there are.
* `Ordered.pairwise_place`, `Ordered.pairwise_sort`: lists in order with repetitions.
* `Ordered.dedup_sort`: dropping these makes a list strictly increasing.
-/

namespace Metamatch.Ordered

variable {α : Type} [LT α] [DecidableLT α] [DecidableEq α]
  [IsStrictTotalOrder α (· < · : α → α → Prop)] {a : α} {items : List α}

theorem pairwise_insert (h : items.Pairwise (· < ·)) : (insert a items).Pairwise (· < ·) := by
  induction items with
  | nil => simp [insert]
  | cons b rest ih =>
    rw [List.pairwise_cons] at h
    unfold insert
    split_ifs with hab heq
    · refine List.pairwise_cons.2 ⟨fun x hx => ?_, List.pairwise_cons.2 h⟩
      rcases List.mem_cons.1 hx with rfl | hx
      · exact hab
      · exact IsTrans.trans _ _ _ hab (h.1 x hx)
    · exact List.pairwise_cons.2 h
    · refine List.pairwise_cons.2 ⟨fun x hx => ?_, ih h.2⟩
      rcases mem_insert.1 hx with rfl | hx
      · exact ((trichotomous_of (· < ·) x b).resolve_left hab).resolve_left heq
      · exact h.1 x hx

theorem pairwise_ofList (items : List α) : (ofList items).Pairwise (· < ·) := by
  induction items with
  | nil => exact .nil
  | cons a rest ih => exact pairwise_insert ih

theorem nodup_ofList (items : List α) : (ofList items).Nodup :=
  (pairwise_ofList items).imp fun h => ne_of_irrefl h

theorem ofList_congr {items items' : List α} (h : ∀ a, a ∈ items ↔ a ∈ items') :
    ofList items = ofList items' := by
  have hperm : (ofList items).Perm (ofList items') := by
    refine (List.perm_ext_iff_of_nodup (nodup_ofList items) (nodup_ofList items')).2 fun a => ?_
    rw [mem_ofList, mem_ofList, h a]
  refine hperm.eq_of_pairwise (fun a b _ _ hab hba => ?_) (pairwise_ofList items)
    (pairwise_ofList items')
  exact absurd (IsTrans.trans _ _ _ hab hba) (irrefl a)

theorem eq_ofList {items items' : List α} (h : items.Pairwise (· < ·))
    (hmem : ∀ a, a ∈ items ↔ a ∈ items') : items = ofList items' := by
  have hnodup : items.Nodup := h.imp fun h => ne_of_irrefl h
  have hperm : items.Perm (ofList items') := by
    refine (List.perm_ext_iff_of_nodup hnodup (nodup_ofList items')).2 fun a => ?_
    rw [hmem a, mem_ofList]
  refine hperm.eq_of_pairwise (fun a b _ _ hab hba => ?_) h (pairwise_ofList items')
  exact absurd (IsTrans.trans _ _ _ hab hba) (irrefl a)

/-! ## Repetitions kept -/

section Place

variable {β : Type} {before : β → β → Bool} {r : β → β → Prop} {b x : β} {items : List β}

theorem mem_place : x ∈ place before b items ↔ x = b ∨ x ∈ items := by
  induction items with
  | nil => simp [place]
  | cons first rest ih =>
    unfold place
    split
    · simp only [List.mem_cons, ih]
      exact or_left_comm
    · exact List.mem_cons

theorem mem_sort : x ∈ sort before items ↔ x ∈ items := by
  induction items with
  | nil => exact Iff.rfl
  | cons b rest ih =>
    change x ∈ place before b (sort before rest) ↔ _
    rw [mem_place, ih, List.mem_cons]

theorem pairwise_place (htrans : ∀ a b c, r a b → r b c → r a c)
    (hbefore : ∀ a b, before a b = true → r a b) (hnot : ∀ a b, before a b = false → r b a)
    (h : items.Pairwise r) : (place before b items).Pairwise r := by
  induction items with
  | nil => exact List.pairwise_singleton _ _
  | cons first rest ih =>
    obtain ⟨hfirst, hrest⟩ := List.pairwise_cons.1 h
    unfold place
    split
    · next hlt =>
      refine List.pairwise_cons.2 ⟨fun x hx => ?_, ih hrest⟩
      rcases mem_place.1 hx with rfl | hx
      · exact hbefore first x hlt
      · exact hfirst x hx
    · next hge =>
      have hle : r b first := hnot first b (by simpa using hge)
      refine List.pairwise_cons.2 ⟨fun x hx => ?_, h⟩
      rcases List.mem_cons.1 hx with rfl | hx
      · exact hle
      · exact htrans b first x hle (hfirst x hx)

theorem pairwise_sort (htrans : ∀ a b c, r a b → r b c → r a c)
    (hbefore : ∀ a b, before a b = true → r a b) (hnot : ∀ a b, before a b = false → r b a)
    (items : List β) : (sort before items).Pairwise r := by
  induction items with
  | nil => exact .nil
  | cons b rest ih => exact pairwise_place htrans hbefore hnot ih

theorem pairwise_of_isSorted (htrans : ∀ a b c, r a b → r b c → r a c)
    (hnot : ∀ a b, before a b = false → r b a) (h : isSorted before items = true) :
    items.Pairwise r := by
  induction items with
  | nil => exact .nil
  | cons first rest ih =>
    cases rest with
    | nil => exact List.pairwise_singleton _ _
    | cons second others =>
      simp only [isSorted, List.tail_cons, List.zip_cons_cons, List.all_cons, Bool.and_eq_true,
        Bool.not_eq_true'] at h ih
      obtain ⟨hfirst, hothers⟩ := h
      have hrest := ih hothers
      have hle : r first second := hnot second first hfirst
      refine List.pairwise_cons.2 ⟨fun x hx => ?_, hrest⟩
      rcases List.mem_cons.1 hx with rfl | hx
      · exact hle
      · exact htrans first second x hle ((List.pairwise_cons.1 hrest).1 x hx)

end Place

/-! ## Repetitions dropped -/

theorem mem_dedup {β : Type} [DecidableEq β] {b : β} {items : List β} :
    b ∈ dedup items ↔ b ∈ items := by
  fun_induction dedup items with
  | case1 c rest ih =>
    rw [ih]
    simp
  | case2 c d rest hne ih => simp only [List.mem_cons, ih]
  | case3 items hshort => exact Iff.rfl

omit [DecidableLT α] in
theorem pairwise_dedup (h : items.Pairwise fun a b => ¬ b < a) :
    (dedup items).Pairwise (· < ·) := by
  fun_induction dedup items with
  | case1 b rest ih => exact ih (List.pairwise_cons.1 h).2
  | case2 b c rest hne ih =>
    obtain ⟨hfirst, hrest⟩ := List.pairwise_cons.1 h
    have hlt : b < c := by
      refine ((trichotomous_of (· < ·) b c).resolve_right ?_)
      rintro (heq | hgt)
      · exact hne heq
      · exact hfirst c List.mem_cons_self hgt
    refine List.pairwise_cons.2 ⟨fun x hx => ?_, ih hrest⟩
    rcases List.mem_cons.1 (mem_dedup.1 hx) with rfl | hx
    · exact hlt
    · rcases trichotomous_of (· < ·) c x with hcx | rfl | hxc
      · exact IsTrans.trans _ _ _ hlt hcx
      · exact hlt
      · exact absurd hxc ((List.pairwise_cons.1 hrest).1 x hx)
  | case3 items hshort =>
    match items, hshort with
    | [], _ => exact .nil
    | [b], _ => exact List.pairwise_singleton _ _
    | b :: c :: rest, hshort => exact absurd rfl (hshort b c rest)

/-- **Sorting and dropping repetitions** leaves the distinct elements in order. -/
theorem dedup_sort (items : List α) :
    dedup (sort (fun a b => decide (a < b)) items) = ofList items := by
  have hsorted : (sort (fun a b => decide (a < b)) items).Pairwise fun a b => ¬ b < a := by
    refine pairwise_sort (fun a b c hab hbc hca => ?_) (fun a b h hba => ?_)
      (fun a b h => of_decide_eq_false h) items
    · rcases trichotomous_of (· < ·) a b with hlt | rfl | hgt
      · exact hbc (IsTrans.trans _ _ _ hca hlt)
      · exact hbc hca
      · exact hab hgt
    · exact asymm (of_decide_eq_true h) hba
  refine eq_ofList (pairwise_dedup hsorted) fun a => ?_
  rw [mem_dedup, mem_sort]

end Metamatch.Ordered
