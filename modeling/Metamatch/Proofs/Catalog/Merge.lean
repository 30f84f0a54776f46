import Mathlib.Data.String.Basic
import Metamatch.Catalog
import Metamatch.Proofs.Bytes
import Metamatch.Proofs.Ordered

/-!
# Names merged

While lists are merged, the head that is taken next is the least of all names that wait, because
each list stands in order behind its head. So the names come out in order, and one that comes again
comes next to itself.

* `Merge.Waits`: the names that are still to be taken.
* `Merge.Sound`, `Merge.Sound.take`: what holds of heads, tails and names, and goes on to hold.
* `Catalog.names_ofLists`: the names of a catalog are the distinct names of its lists in order.
* `names_of_lists`: in which order they stand, and that nothing else about the lists matters.
-/

namespace Metamatch

namespace Merge

/-! ## Names added -/

theorem mem_add {names : Array String} {name other : String} :
    other ∈ (add names name).toList ↔ other ∈ names.toList ∨ other = name := by
  unfold add
  split
  · next hback =>
    refine ⟨Or.inl, ?_⟩
    rintro (h | rfl)
    · exact h
    · exact Array.mem_toList_iff.2 (Array.mem_of_back? hback)
  · rw [Array.toList_push, List.mem_append, List.mem_singleton]

theorem pairwise_add {names : Array String} {name : String} (h : names.toList.Pairwise (· < ·))
    (hle : ∀ other ∈ names.toList, other ≤ name) : (add names name).toList.Pairwise (· < ·) := by
  unfold add
  split
  · exact h
  · next hback =>
    rw [Array.toList_push]
    refine List.pairwise_append.2 ⟨h, List.pairwise_singleton _ _, fun other hother _ hname => ?_⟩
    rw [List.mem_singleton.1 hname]
    refine lt_of_le_of_ne (hle other hother) ?_
    rintro rfl
    -- the name is there, so it is below the last one or is itself the last one
    obtain ⟨front, back, hsplit⟩ := List.append_of_mem hother
    rw [hsplit] at h
    cases back with
    | nil =>
      refine hback ?_
      rw [← Array.getLast?_toList, hsplit, List.getLast?_concat]
    | cons next rest =>
      have hlt := (List.pairwise_cons.1 (List.pairwise_append.1 h).2.1).1 next List.mem_cons_self
      have hmem : next ∈ names.toList := by
        rw [hsplit]
        simp
      exact absurd (hle next hmem) hlt.not_ge

/-! ## What holds on the way -/

/-- A name that is still to be taken. -/
def Waits (merge : Merge) (name : String) : Prop :=
  (∃ head ∈ merge.heads, head.name = name) ∨ ∃ tail ∈ merge.tails, name ∈ tail

/-- What holds while lists are merged. -/
structure Sound (merge : Merge) : Prop where
  names : merge.names.toList.Pairwise (· < ·)
  heads : merge.heads.Pairwise fun a b => a.name ≤ b.name
  tails : ∀ tail ∈ merge.tails, tail.Pairwise (· ≤ ·)
  /-- A list stands behind its head. -/
  behind : ∀ head ∈ merge.heads, ∀ tail, merge.tails[head.list]? = some tail →
    ∀ name ∈ tail, head.name ≤ name
  /-- A list that is not exhausted has a head. -/
  covered : ∀ index tail, merge.tails[index]? = some tail → tail ≠ [] →
    ∃ head ∈ merge.heads, head.list = index
  /-- What was taken is not above what waits. -/
  ahead : ∀ name ∈ merge.names.toList, ∀ other, merge.Waits other → name ≤ other

variable {merge : Merge} {head : Head} {others : List Head} {name : String}

theorem Head.le_of_before {a b : Head} (h : a.before b = true) : a.name ≤ b.name := by
  simp only [Head.before, Bool.or_eq_true, Bool.and_eq_true, decide_eq_true_eq] at h
  rcases h with h | ⟨h, -⟩
  · exact h.le
  · exact h.le

theorem Head.le_of_not_before {a b : Head} (h : a.before b = false) : b.name ≤ a.name := by
  simp only [Head.before, Bool.or_eq_false_iff, decide_eq_false_iff_not] at h
  exact not_lt.1 h.1

/-- **The head that is taken is the least of the names that wait.** -/
theorem Sound.head_le (h : merge.Sound) (hheads : merge.heads = head :: others)
    (hname : merge.Waits name) : head.name ≤ name := by
  have hordered := h.heads
  rw [hheads] at hordered
  have hfirst : ∀ other ∈ merge.heads, head.name ≤ other.name := by
    intro other hother
    rw [hheads] at hother
    rcases List.mem_cons.1 hother with rfl | hother
    · exact le_rfl
    · exact (List.pairwise_cons.1 hordered).1 other hother
  rcases hname with ⟨other, hother, rfl⟩ | ⟨tail, htail, hmem⟩
  · exact hfirst other hother
  · obtain ⟨index, hindex⟩ := List.mem_iff_getElem?.1 htail
    obtain ⟨other, hother, rfl⟩ := h.covered index tail hindex (List.ne_nil_of_mem hmem)
    exact (hfirst other hother).trans (h.behind other hother tail hindex name hmem)

/-- What can become of a merge when its first head is taken: the list goes on, or it does not. -/
theorem take_cases (merge : Merge) (head : Head) (others : List Head) :
    (∃ next rest, merge.tails[head.list]? = some (next :: rest) ∧ merge.take head others =
      { heads := Ordered.place Head.before ⟨next, head.list⟩ others
        tails := merge.tails.set head.list rest
        names := add merge.names head.name }) ∨
    (∀ tail, merge.tails[head.list]? = some tail → tail = []) ∧ merge.take head others =
      { heads := others, tails := merge.tails, names := add merge.names head.name } := by
  unfold take
  split
  · next next rest htail => exact .inl ⟨next, rest, htail, rfl⟩
  · next hnone =>
    refine .inr ⟨fun tail htail => ?_, rfl⟩
    cases tail with
    | nil => rfl
    | cons next rest => exact absurd htail (hnone next rest)

theorem waits_take (hheads : merge.heads = head :: others) :
    merge.Waits name ↔ name = head.name ∨ (merge.take head others).Waits name := by
  unfold Waits
  rw [hheads]
  obtain ⟨next, rest, htail, htake⟩ | ⟨hnone, htake⟩ := take_cases merge head others
  · rw [htake]
    dsimp only
    have hmem : next :: rest ∈ merge.tails := List.mem_of_getElem? htail
    obtain ⟨hlt, -⟩ := List.getElem?_eq_some_iff.1 htail
    constructor
    · rintro (⟨other, hother, rfl⟩ | ⟨tail, htail', hname⟩)
      · rcases List.mem_cons.1 hother with rfl | hother
        · exact .inl rfl
        · exact .inr (.inl ⟨other, Ordered.mem_place.2 (.inr hother), rfl⟩)
      · obtain ⟨index, hindex⟩ := List.mem_iff_getElem?.1 htail'
        by_cases hsame : head.list = index
        · subst hsame
          cases htail.symm.trans hindex
          rcases List.mem_cons.1 hname with rfl | hname
          · exact .inr (.inl ⟨⟨name, head.list⟩, Ordered.mem_place.2 (.inl rfl), rfl⟩)
          · exact .inr (.inr ⟨rest, List.mem_set hlt rest, hname⟩)
        · refine .inr (.inr ⟨tail, List.mem_of_getElem? (i := index) ?_, hname⟩)
          rw [List.getElem?_set_ne hsame, hindex]
    · rintro (rfl | ⟨other, hother, rfl⟩ | ⟨tail, htail', hname⟩)
      · exact .inl ⟨head, List.mem_cons_self, rfl⟩
      · rcases Ordered.mem_place.1 hother with rfl | hother
        · exact .inr ⟨_, hmem, List.mem_cons_self⟩
        · exact .inl ⟨other, List.mem_cons_of_mem _ hother, rfl⟩
      · rcases List.mem_or_eq_of_mem_set htail' with htail' | rfl
        · exact .inr ⟨tail, htail', hname⟩
        · exact .inr ⟨_, hmem, List.mem_cons_of_mem _ hname⟩
  · rw [htake]
    simp only [List.mem_cons, exists_eq_or_imp, eq_comm (a := name), or_assoc]

theorem Sound.ahead_take (h : merge.Sound) (hheads : merge.heads = head :: others) :
    ∀ name ∈ (add merge.names head.name).toList, ∀ other,
      (merge.take head others).Waits other → name ≤ other := by
  intro name hname other hother
  have hstill : merge.Waits other := (waits_take hheads).2 (.inr hother)
  rcases mem_add.1 hname with hname | rfl
  · exact h.ahead name hname other hstill
  · exact h.head_le hheads hstill

theorem Sound.covered_others (h : merge.Sound) (hheads : merge.heads = head :: others) {index : Nat}
    {tail : List String} (htail : merge.tails[index]? = some tail) (hne : tail ≠ [])
    (hindex : head.list ≠ index) : ∃ other ∈ others, other.list = index := by
  obtain ⟨other, hother, rfl⟩ := h.covered index tail htail hne
  rw [hheads] at hother
  rcases List.mem_cons.1 hother with rfl | hother
  · exact absurd rfl hindex
  · exact ⟨other, hother, rfl⟩

theorem Sound.behind_take (h : merge.Sound) (hheads : merge.heads = head :: others) {next : String}
    {rest : List String} (htail : merge.tails[head.list]? = some (next :: rest)) :
    ∀ other ∈ Ordered.place Head.before ⟨next, head.list⟩ others, ∀ tail,
      (merge.tails.set head.list rest)[other.list]? = some tail →
        ∀ name ∈ tail, other.name ≤ name := by
  intro other hplace tail hget name hname
  have hmem : ∀ other ∈ others, other ∈ merge.heads := fun other hother =>
    hheads ▸ List.mem_cons_of_mem head hother
  by_cases hsame : head.list = other.list
  · obtain rfl : rest = tail := by
      rw [← hsame, List.getElem?_set_self (List.getElem?_eq_some_iff.1 htail).1] at hget
      exact Option.some.inj hget
    rcases Ordered.mem_place.1 hplace with rfl | hplace
    · exact (List.pairwise_cons.1 (h.tails _ (List.mem_of_getElem? htail))).1 name hname
    · exact h.behind other (hmem other hplace) _ (hsame ▸ htail) name
        (List.mem_cons_of_mem next hname)
  · rw [List.getElem?_set_ne hsame] at hget
    rcases Ordered.mem_place.1 hplace with rfl | hplace
    · exact absurd rfl hsame
    · exact h.behind other (hmem other hplace) tail hget name hname

/-- **Taking a head keeps what holds while lists are merged.** -/
theorem Sound.take (h : merge.Sound) (hheads : merge.heads = head :: others) :
    (merge.take head others).Sound := by
  have hordered := h.heads
  rw [hheads] at hordered
  obtain ⟨-, hothers⟩ := List.pairwise_cons.1 hordered
  have hnames : (add merge.names head.name).toList.Pairwise (· < ·) :=
    pairwise_add h.names fun name hname => h.ahead name hname _ ((waits_take hheads).2 (.inl rfl))
  have hahead := h.ahead_take hheads
  obtain ⟨next, rest, htail, htake⟩ | ⟨hnone, htake⟩ := take_cases merge head others
  · rw [htake] at hahead ⊢
    refine ⟨hnames, ?_, fun tail htail' => ?_, h.behind_take hheads htail,
      fun index tail hget hne => ?_, hahead⟩
    · exact Ordered.pairwise_place (fun _ _ _ => le_trans) (fun _ _ => Head.le_of_before)
        (fun _ _ => Head.le_of_not_before) hothers
    · rcases List.mem_or_eq_of_mem_set htail' with htail' | rfl
      · exact h.tails tail htail'
      · exact (List.pairwise_cons.1 (h.tails _ (List.mem_of_getElem? htail))).2
    · by_cases hsame : head.list = index
      · exact ⟨_, Ordered.mem_place.2 (.inl rfl), hsame⟩
      · rw [List.getElem?_set_ne hsame] at hget
        obtain ⟨other, hother, hlist⟩ := h.covered_others hheads hget hne hsame
        exact ⟨other, Ordered.mem_place.2 (.inr hother), hlist⟩
  · rw [htake] at hahead ⊢
    refine ⟨hnames, hothers, h.tails, fun other hother => h.behind other ?_,
      fun index tail hget hne => h.covered_others hheads hget hne ?_, hahead⟩
    · rw [hheads]
      exact List.mem_cons_of_mem head hother
    · rintro rfl
      exact hne (hnone tail hget)

/-! ## All names -/

/-- **Merging to the end** puts the names that wait behind those that were taken, in order. -/
theorem drain_spec (h : merge.Sound) : merge.drain.toList.Pairwise (· < ·) ∧
    ∀ name, name ∈ merge.drain.toList ↔ name ∈ merge.names.toList ∨ merge.Waits name := by
  -- on the number of names that wait, with the invariant for the rest
  fun_induction drain merge with
  | case1 merge hheads =>
    refine ⟨h.names, fun name => ⟨Or.inl, Or.rec id ?_⟩⟩
    rintro (⟨head, hhead, -⟩ | ⟨tail, htail, hname⟩)
    · rw [hheads] at hhead
      cases hhead
    · obtain ⟨index, hindex⟩ := List.mem_iff_getElem?.1 htail
      obtain ⟨head, hhead, -⟩ := h.covered index tail hindex (List.ne_nil_of_mem hname)
      rw [hheads] at hhead
      cases hhead
  | case2 merge head others hheads hleft ih =>
    obtain ⟨hpairwise, hmem⟩ := ih (h.take hheads)
    refine ⟨hpairwise, fun name => ?_⟩
    have hnames : (merge.take head others).names = add merge.names head.name := by
      obtain ⟨next, rest, -, htake⟩ | ⟨-, htake⟩ := take_cases merge head others <;> rw [htake]
    rw [hmem, hnames, mem_add, waits_take hheads, or_assoc]

theorem mem_heads_start {lists : List (List String)} :
    head ∈ (start lists).heads ↔ ∃ rest, lists[head.list]? = some (head.name :: rest) := by
  obtain ⟨name, index⟩ := head
  change _ ∈ Ordered.sort _ _ ↔ _
  rw [Ordered.mem_sort, List.mem_filterMap]
  constructor
  · rintro ⟨⟨list, index'⟩, hentry, hhead⟩
    obtain ⟨first, hfirst, heq⟩ := Option.map_eq_some_iff.1 hhead
    cases heq
    obtain ⟨rest, rfl⟩ := List.head?_eq_some_iff.1 hfirst
    exact ⟨rest, by simpa using List.mem_zipIdx_iff_getElem?.1 hentry⟩
  · rintro ⟨rest, hlist⟩
    exact ⟨(name :: rest, index), List.mem_zipIdx_iff_getElem?.2 (by simpa using hlist), rfl⟩

theorem waits_start {lists : List (List String)} :
    (start lists).Waits name ↔ ∃ list ∈ lists, name ∈ list := by
  constructor
  · rintro (⟨head, hhead, rfl⟩ | ⟨tail, htail, hname⟩)
    · obtain ⟨rest, hlist⟩ := mem_heads_start.1 hhead
      exact ⟨_, List.mem_of_getElem? hlist, List.mem_cons_self⟩
    · obtain ⟨list, hlist, rfl⟩ := List.mem_map.1 htail
      exact ⟨list, hlist, List.mem_of_mem_tail hname⟩
  · rintro ⟨list, hlist, hname⟩
    cases list with
    | nil => cases hname
    | cons first rest =>
      rcases List.mem_cons.1 hname with rfl | hname
      · obtain ⟨index, hindex⟩ := List.mem_iff_getElem?.1 hlist
        exact .inl ⟨⟨name, index⟩, mem_heads_start.2 ⟨rest, hindex⟩, rfl⟩
      · exact .inr ⟨rest, List.mem_map.2 ⟨_, hlist, rfl⟩, hname⟩

theorem sound_start {lists : List (List String)} (h : ∀ list ∈ lists, list.Pairwise (· ≤ ·)) :
    (start lists).Sound where
  names := .nil
  heads := Ordered.pairwise_sort (r := fun a b : Head => a.name ≤ b.name) (fun _ _ _ => le_trans)
    (fun _ _ => Head.le_of_before) (fun _ _ => Head.le_of_not_before) _
  tails := by
    intro tail htail
    obtain ⟨list, hlist, rfl⟩ := List.mem_map.1 htail
    exact (h list hlist).tail
  behind := by
    intro head hhead tail htail name hname
    obtain ⟨rest, hlist⟩ := mem_heads_start.1 hhead
    have hmap : (start lists).tails[head.list]? = lists[head.list]?.map List.tail :=
      List.getElem?_map
    rw [hmap, hlist] at htail
    cases htail
    exact (List.pairwise_cons.1 (h _ (List.mem_of_getElem? hlist))).1 name hname
  covered := by
    intro index tail htail hne
    have hmap : (start lists).tails[index]? = lists[index]?.map List.tail := List.getElem?_map
    obtain ⟨list, hlist, rfl⟩ := Option.map_eq_some_iff.1 (hmap.symm.trans htail)
    cases list with
    | nil => exact absurd rfl hne
    | cons first rest => exact ⟨⟨first, index⟩, mem_heads_start.2 ⟨rest, hlist⟩, rfl⟩
  ahead := fun name hname => by cases hname

end Merge

namespace Catalog

theorem mem_repair {list : List String} {name : String} : name ∈ repair list ↔ name ∈ list := by
  unfold repair
  split
  · exact Iff.rfl
  · exact Ordered.mem_sort

theorem pairwise_repair (list : List String) : (repair list).Pairwise (· ≤ ·) := by
  have hbefore : ∀ a b : String, decide (a < b) = true → a ≤ b := fun a b h =>
    le_of_lt (of_decide_eq_true h)
  have hnot : ∀ a b : String, decide (a < b) = false → b ≤ a := fun a b h =>
    not_lt.1 (of_decide_eq_false h)
  unfold repair
  split
  · next h => exact Ordered.pairwise_of_isSorted (r := (· ≤ ·)) (fun _ _ _ => le_trans) hnot h
  · exact Ordered.pairwise_sort (r := (· ≤ ·)) (fun _ _ _ => le_trans) hbefore hnot list

/-- **The names of a catalog are the distinct names of its lists in order.** -/
theorem names_ofLists (lists : List (List String)) :
    (ofLists lists).names = Ordered.ofList lists.flatten := by
  have hsound : (Merge.start (lists.map repair)).Sound := by
    refine Merge.sound_start fun list hlist => ?_
    obtain ⟨list, -, rfl⟩ := List.mem_map.1 hlist
    exact pairwise_repair list
  obtain ⟨hpairwise, hmem⟩ := Merge.drain_spec hsound
  refine Ordered.eq_ofList hpairwise fun name => ?_
  change name ∈ (Merge.start (lists.map repair)).drain.toList ↔ _
  rw [hmem, Merge.waits_start, List.mem_flatten]
  change name ∈ ([] : List String) ∨ _ ↔ _
  simp [mem_repair]

theorem ofLists_eq (lists : List (List String)) : ofLists lists = ⟨Ordered.ofList lists.flatten⟩ :=
  congrArg mk (names_ofLists lists)

theorem mem_ofLists {lists : List (List String)} {name : String} :
    name ∈ (ofLists lists).names ↔ ∃ list ∈ lists, name ∈ list := by
  rw [names_ofLists, Ordered.mem_ofList, List.mem_flatten]

theorem pairwise_ofLists (lists : List (List String)) :
    (ofLists lists).names.Pairwise (· < ·) := by
  rw [names_ofLists]
  exact Ordered.pairwise_ofList _

end Catalog

/-- **A catalog holds the names of its lists, each once and in strictly increasing order of their
bytes.** It is the same for all lists in which the same names occur. -/
theorem names_of_lists (lists : List (List String)) :
    ((Catalog.ofLists lists).names.Pairwise fun a b => Text.bytes a < Text.bytes b) ∧
    (∀ name, name ∈ (Catalog.ofLists lists).names ↔ ∃ list ∈ lists, name ∈ list) ∧
    ∀ lists' : List (List String),
      (∀ name, (∃ list ∈ lists', name ∈ list) ↔ ∃ list ∈ lists, name ∈ list) →
        Catalog.ofLists lists' = Catalog.ofLists lists := by
  refine ⟨?_, fun name => Catalog.mem_ofLists, fun lists' h => ?_⟩
  · exact (Catalog.pairwise_ofLists lists).imp Text.bytes_lt_bytes_iff.2
  · rw [Catalog.ofLists_eq, Catalog.ofLists_eq]
    refine congrArg Catalog.mk (Ordered.ofList_congr fun name => ?_)
    rw [List.mem_flatten, List.mem_flatten, h]

namespace Sample

/-- Lists in no order, one of them empty. -/
def scattered : List (List String) := [["b.B", "a.A", "b.B"], [], ["b.B", "c.C"]]

/-- The same names in one list. -/
def gathered : List (List String) := [["a.A", "b.B", "c.C"]]

end Sample

/-- Lists with the same three names come to the same catalog. -/
theorem names_of_scattered :
    (∀ name, (∃ list ∈ Sample.scattered, name ∈ list) ↔ ∃ list ∈ Sample.gathered, name ∈ list) ∧
      Catalog.ofLists Sample.scattered = Catalog.ofLists Sample.gathered ∧
      (Catalog.ofLists Sample.gathered).names = ["a.A", "b.B", "c.C"] := by
  have hsame : ∀ name, (∃ list ∈ Sample.scattered, name ∈ list) ↔
      ∃ list ∈ Sample.gathered, name ∈ list := by
    intro name
    simp only [Sample.scattered, Sample.gathered, List.mem_cons, List.not_mem_nil, or_false,
      exists_eq_or_imp, exists_eq_left, false_or]
    tauto
  exact ⟨hsame, (names_of_lists Sample.gathered).2.2 Sample.scattered hsame, by decide +kernel⟩

end Metamatch
