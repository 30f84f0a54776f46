import Mathlib.Algebra.BigOperators.Group.Finset.Piecewise
import Mathlib.Data.List.Count
import Mathlib.Data.List.Perm.Basic
import Mathlib.Logic.Function.Basic
import Metamatch.Graph.Edit

/-!
# References and subscriptions

Every reference of a matcher stands on the list of its slot. Which references there are is a
function `refs` of the matcher, so that the law can be told while constraints are being replaced.

* `Graph.subscriptions`: how often a matcher is on the list of a slot.
* `Node.Fresh`, `Graph.Fresh`: the law of construction, while nothing is published.
* `Fresh.subscribe`, `Fresh.unsubscribe`: one reference more or less.
* `Fresh.modify`, `Fresh.insert`: changes of a node that do not concern its links, and a new one.
-/

namespace Metamatch

/-- An observer is on the list of the slot. -/
def Node.Observed (node : Node) : Prop :=
  ∃ trigger number, Subscriber.observer trigger number ∈ node.subscribers

/-! ## Removal by place -/

theorem swapRemove_perm {α : Type} {items : List α} {index : Nat} (h : index < items.length) :
    (swapRemove items index).Perm (items.eraseIdx index) := by
  rcases items.eq_nil_or_concat' with rfl | ⟨front, last, rfl⟩
  · simp at h
  simp only [swapRemove, List.getLast?_concat]
  rw [List.length_append, List.length_singleton] at h
  rcases Nat.lt_succ_iff_lt_or_eq.1 h with h | rfl
  · rw [List.set_append_left _ _ h, List.dropLast_concat, List.eraseIdx_append_of_lt_length h]
    exact (List.set_perm_cons_eraseIdx h last).trans (List.perm_append_singleton _ _).symm
  · rw [List.set_append_right _ _ (Nat.le_refl _),
      List.eraseIdx_append_of_length_le (Nat.le_refl _)]
    simp

theorem swapRemove_perm_erase {α : Type} [DecidableEq α] {items : List α} {a : α} {index : Nat}
    (h : items.idxOf? a = some index) : (swapRemove items index).Perm (items.erase a) := by
  have hi := (List.idxOf?_eq_some_iff.1 h).1
  rw [List.erase_eq_eraseIdx, h]
  exact swapRemove_perm hi

theorem diff_self {α : Type} [DecidableEq α] (items : List α) : items.diff items = [] := by
  induction items with
  | nil => rfl
  | cons a rest ih => rw [List.diff_cons, List.erase_cons_head, ih]

namespace Graph

variable {g : Graph} {m d s : Slot} {refs : Slot → List Slot}

/-! ## Slots -/

theorem lt_size_iff : s < g.size ↔ ∃ node, g.get? s = some node := by
  simp [get?, size, List.getElem?_eq_some_iff]

theorem lt_size {node : Node} (h : g.get? s = some node) : s < g.size := lt_size_iff.2 ⟨node, h⟩

theorem get?_eq_none (h : g.size ≤ s) : g.get? s = none := List.getElem?_eq_none h

theorem size_insert (kind : Kind) : (g.insert kind).size = g.size + 1 := by
  simp [size, insert]

theorem get?_insert (kind : Kind) :
    (g.insert kind).get? s = if s = g.size then some { kind := kind } else g.get? s := by
  rcases Nat.lt_trichotomy s g.size with hs | rfl | hs
  · rw [if_neg (Nat.ne_of_lt hs)]
    exact List.getElem?_append_left hs
  · simp [get?, insert, size]
  · rw [if_neg (Nat.ne_of_gt hs), get?_eq_none (Nat.le_of_lt hs)]
    exact get?_eq_none (by rw [size_insert]; exact hs)

theorem get?_modify (f : Node → Node) :
    (g.modify d f).get? s = (g.get? s).map fun node => if d = s then f node else node := by
  simp [get?, modify, List.getElem?_modify]

theorem size_modify (f : Node → Node) : (g.modify d f).size = g.size := by
  simp [size, modify]

theorem get?_subscribe : (g.subscribe m d).get? s = (g.get? s).map fun node =>
    { node with
      subscribers := if d = s then node.subscribers ++ [.matcher m] else node.subscribers
      pending := if d = s then false else node.pending
      counter := if m = s then node.counter + 1 else node.counter } := by
  simp only [subscribe, get?_modify, Option.map_map]
  congr 1
  funext node
  simp only [Function.comp_apply, Node.addSubscriber]
  split_ifs <;> rfl

/-- The graph without a subscription whose place is known. -/
def drop (g : Graph) (m d : Slot) (index : Nat) : Graph :=
  (g.modify d (·.dropSubscriber index)).modify m fun node =>
    { node with counter := node.counter - 1 }

theorem get?_drop {index : Nat} : (g.drop m d index).get? s = (g.get? s).map fun node =>
    { node with
      subscribers := if d = s then swapRemove node.subscribers index else node.subscribers
      pending := if d = s then
        node.pending || ((swapRemove node.subscribers index).isEmpty && node.key.isNone)
        else node.pending
      counter := if m = s then node.counter - 1 else node.counter } := by
  simp only [drop, get?_modify, Option.map_map]
  congr 1
  funext node
  simp only [Function.comp_apply, Node.dropSubscriber]
  split_ifs <;> rfl

theorem unsubscribe_eq_drop {node : Node} {index : Nat} (hd : g.get? d = some node)
    (hi : node.subscribers.idxOf? (.matcher m) = some index) :
    g.unsubscribe m d = g.drop m d index := by
  simp only [unsubscribe, hd, hi, drop]

/-! ## What links leave alone -/

theorem references_of_get? {node : Node} (h : g.get? s = some node) :
    g.references s = node.constraints.references := by
  simp [references, h]

theorem references_modify {f : Node → Node}
    (h : ∀ node, (f node).constraints.references = node.constraints.references) :
    (g.modify d f).references = g.references := by
  funext s
  rw [references, get?_modify, references]
  cases g.get? s with
  | none => rfl
  | some node =>
    rw [Option.map_some, Option.elim_some, Option.elim_some]
    split_ifs
    · exact h node
    · rfl

theorem size_subscribe : (g.subscribe m d).size = g.size := by
  simp only [subscribe, size_modify]

theorem references_subscribe : (g.subscribe m d).references = g.references := by
  rw [subscribe, references_modify, references_modify] <;> exact fun _ => rfl

theorem foldl_eq {γ δ : Type} {step : Graph → γ → Graph} (view : Graph → δ)
    (h : ∀ g c, view (step g c) = view g) (items : List γ) (g : Graph) :
    view (items.foldl step g) = view g := by
  induction items generalizing g with
  | nil => rfl
  | cons c rest ih => rw [List.foldl_cons, ih, h]

theorem unsubscribe_eq_or (g : Graph) (m d : Slot) :
    g.unsubscribe m d = g ∨ ∃ index, g.unsubscribe m d = g.drop m d index := by
  unfold unsubscribe
  split
  · exact .inl rfl
  · split
    · exact .inl rfl
    · exact .inr ⟨_, rfl⟩

theorem size_unsubscribe : (g.unsubscribe m d).size = g.size := by
  rcases g.unsubscribe_eq_or m d with h | ⟨index, h⟩ <;> rw [h]
  rw [drop, size_modify, size_modify]

theorem references_unsubscribe : (g.unsubscribe m d).references = g.references := by
  rcases g.unsubscribe_eq_or m d with h | ⟨index, h⟩ <;> rw [h]
  rw [drop, references_modify, references_modify] <;> exact fun _ => rfl

theorem map_get?_unsubscribe {β : Type} {view : Node → β}
    (h : ∀ node subscribers pending counter,
      view { node with subscribers, pending, counter } = view node) :
    ((g.unsubscribe m d).get? s).map view = (g.get? s).map view := by
  rcases g.unsubscribe_eq_or m d with hg | ⟨index, hg⟩ <;> rw [hg]
  rw [get?_drop, Option.map_map]
  exact congrArg (fun f => (g.get? s).map f) (funext fun node => h node _ _ _)

theorem map_get?_unsubscribe_observed :
    ((g.unsubscribe m d).get? s).map Node.Observed = (g.get? s).map Node.Observed := by
  unfold unsubscribe
  split
  · rfl
  · next node hnode =>
    split
    · rfl
    · next index hindex =>
      rw [← drop, get?_drop, Option.map_map]
      by_cases hs : d = s
      · subst hs
        have hmem : ∀ trigger number, .observer trigger number ∈ swapRemove node.subscribers index ↔
            .observer trigger number ∈ node.subscribers := by
          intro trigger number
          rw [(swapRemove_perm_erase hindex).mem_iff, List.mem_erase_of_ne (by simp)]
        simp [hnode, Node.Observed, hmem]
      · exact congrArg (fun f => (g.get? s).map f) (funext fun other => by simp [hs, Node.Observed])

theorem size_subscribeAll (items : List Slot) :
    (items.foldl (·.subscribe m ·) g).size = g.size :=
  foldl_eq size (fun _ _ => size_subscribe) items g

theorem references_subscribeAll (items : List Slot) :
    (items.foldl (·.subscribe m ·) g).references = g.references :=
  foldl_eq references (fun _ _ => references_subscribe) items g

theorem size_unsubscribeAll (items : List Slot) :
    (items.foldl (·.unsubscribe m ·) g).size = g.size :=
  foldl_eq size (fun _ _ => size_unsubscribe) items g

theorem references_unsubscribeAll (items : List Slot) :
    (items.foldl (·.unsubscribe m ·) g).references = g.references :=
  foldl_eq references (fun _ _ => references_unsubscribe) items g

/-! ## A matcher without references -/

theorem references_detach (g : Graph) (m : Slot) : (g.detach m).references = g.references :=
  references_unsubscribeAll _

theorem size_detach (g : Graph) (m : Slot) : (g.detach m).size = g.size := size_unsubscribeAll _

theorem map_get?_detach {β : Type} {view : Node → β}
    (h : ∀ node subscribers pending counter,
      view { node with subscribers, pending, counter } = view node) (g : Graph) (m s : Slot) :
    ((g.detach m).get? s).map view = (g.get? s).map view :=
  foldl_eq (fun g => (g.get? s).map view) (fun _ _ => map_get?_unsubscribe h) _ g

theorem map_get?_detach_observed (g : Graph) (m s : Slot) :
    ((g.detach m).get? s).map Node.Observed = (g.get? s).map Node.Observed :=
  foldl_eq (fun g => (g.get? s).map Node.Observed) (fun _ _ => map_get?_unsubscribe_observed) _ g

end Graph

theorem sum_count_eq_countP {items : List Slot} {n : Nat} (h : ∀ s ∈ items, s < n)
    (p : Slot → Prop) [DecidablePred p] :
    ∑ s ∈ Finset.range n with p s, items.count s = items.countP p := by
  induction items with
  | nil => simp
  | cons a rest ih =>
    have ha := h a List.mem_cons_self
    simp only [List.count_cons, List.countP_cons, Finset.sum_add_distrib,
      ih fun s hs => h s (List.mem_cons_of_mem _ hs), beq_iff_eq, Finset.sum_ite_eq,
      Finset.mem_filter, Finset.mem_range, ha, true_and, decide_eq_true_eq]

/-! ## The law of construction -/

/-- How often a matcher is on the list of a slot. -/
def Graph.subscriptions (g : Graph) (dependent dependency : Slot) : Nat :=
  (g.get? dependency).elim 0 (·.subscribers.count (.matcher dependent))

/-- A matcher with references `refs` that a run has not touched yet: it awaits each of them, and
it is pending as long as nothing asks for it. -/
structure Node.Fresh (node : Node) (refs : List Slot) : Prop where
  kind : node.kind ∈ Kind.scheduled
  counter : node.counter = 1 + refs.length
  missed : node.missed = 0
  published : node.published = none
  pending : node.pending = true ↔ node.subscribers = [] ∧ node.key = none

/-- A graph in which `refs m` are the references of `m`, each on the list of its slot, and nothing
is published. -/
structure Graph.Fresh (g : Graph) (refs : Slot → List Slot) : Prop where
  inRange : ∀ m, ∀ s ∈ refs m, s < g.size
  subscriptions : ∀ m s, g.subscriptions m s = (refs m).count s
  node : ∀ m node, g.get? m = some node → node.Fresh (refs m)

namespace Graph.Fresh

variable {g : Graph} {m d s : Slot} {refs refs' : Slot → List Slot} {node : Node}

theorem count_subscribers (h : g.Fresh refs) (hd : g.get? d = some node) (m : Slot) :
    node.subscribers.count (.matcher m) = (refs m).count d := by
  rw [← h.subscriptions m d, Graph.subscriptions, hd, Option.elim_some]

/-- A matcher is pending as long as there is no reference to it, no observer and no key. -/
theorem pending_iff (h : g.Fresh refs) (hd : g.get? d = some node) :
    node.pending = true ↔ (∀ m, d ∉ refs m) ∧ ¬ node.Observed ∧ node.key = none := by
  rw [(h.node d node hd).pending, ← and_assoc]
  refine and_congr_left fun _ => ?_
  have hmem : ∀ m, .matcher m ∈ node.subscribers ↔ d ∈ refs m := fun m => by
    rw [← List.count_pos_iff, h.count_subscribers hd, List.count_pos_iff]
  rw [List.eq_nil_iff_forall_not_mem]
  constructor
  · exact fun hnil => ⟨fun m hm => hnil _ ((hmem m).2 hm), fun ⟨_, _, ho⟩ => hnil _ ho⟩
  · rintro ⟨hrefs, hobserved⟩ (m | ⟨trigger, number⟩) hs
    · exact hrefs m ((hmem m).1 hs)
    · exact hobserved ⟨trigger, number, hs⟩

theorem congr (h : g.Fresh refs) (hr : ∀ m, (refs m).Perm (refs' m)) : g.Fresh refs' where
  inRange m s hs := h.inRange m s ((hr m).mem_iff.2 hs)
  subscriptions m s := by rw [h.subscriptions, (hr m).count_eq]
  node m node hm :=
    { h.node m node hm with counter := by rw [(h.node m node hm).counter, (hr m).length_eq] }

theorem modify {f : Node → Node} (h : g.Fresh refs)
    (hf : ∀ node refs, node.Fresh refs → (f node).Fresh refs)
    (hc : ∀ node m, (f node).subscribers.count (.matcher m) = node.subscribers.count (.matcher m)) :
    (g.modify d f).Fresh refs where
  inRange m s hs := by
    rw [size_modify]
    exact h.inRange m s hs
  subscriptions m s := by
    rw [← h.subscriptions m s, Graph.subscriptions, get?_modify, Graph.subscriptions]
    cases g.get? s with
    | none => rfl
    | some node =>
      rw [Option.map_some, Option.elim_some, Option.elim_some]
      split_ifs
      · exact hc node m
      · rfl
  node m node hm := by
    rw [get?_modify, Option.map_eq_some_iff] at hm
    obtain ⟨old, hold, rfl⟩ := hm
    split_ifs
    · exact hf old _ (h.node m old hold)
    · exact h.node m old hold

theorem insert (h : g.Fresh refs) {kind : Kind} (hk : kind ∈ Kind.scheduled)
    (hr : refs g.size = []) : (g.insert kind).Fresh refs where
  inRange m s hs := by
    rw [size_insert]
    exact Nat.lt_succ_of_lt (h.inRange m s hs)
  subscriptions m s := by
    rw [Graph.subscriptions, get?_insert, ← h.subscriptions m s, Graph.subscriptions]
    split_ifs with hs
    · rw [hs, get?_eq_none (Nat.le_refl _)]
      rfl
    · rfl
  node m node hm := by
    rw [get?_insert] at hm
    split_ifs at hm with hs
    · cases hm
      rw [hs, hr]
      exact ⟨hk, rfl, rfl, rfl, by simp⟩
    · exact h.node m node hm

theorem inRange_update (h : g.Fresh refs) {items : List Slot} (hi : ∀ s ∈ items, s < g.size) :
    ∀ k, ∀ s ∈ Function.update refs m items k, s < g.size := by
  intro k s hs
  by_cases hk : k = m
  · subst hk
    rw [Function.update_self] at hs
    exact hi s hs
  · rw [Function.update_of_ne hk] at hs
    exact h.inRange k s hs

/-! ## One reference more -/

theorem subscribe (h : g.Fresh refs) (hd : d < g.size) :
    (g.subscribe m d).Fresh (Function.update refs m (d :: refs m)) where
  inRange := by
    rw [size_subscribe]
    exact h.inRange_update fun s hs => (List.mem_cons.1 hs).elim (· ▸ hd) (h.inRange m s)
  subscriptions k s := by
    rw [Graph.subscriptions, get?_subscribe]
    by_cases hs : d = s
    · subst hs
      obtain ⟨node, hnode⟩ := lt_size_iff.1 hd
      have hc := h.count_subscribers hnode k
      by_cases hk : k = m
      · subst hk
        simp [hnode, hc]
      · simp [hnode, hc, hk, Ne.symm hk]
    · have hc := h.subscriptions k s
      rw [Graph.subscriptions] at hc
      by_cases hk : k = m
      · subst hk
        cases hnode : g.get? s <;> simp [hs, ← hc, hnode]
      · cases hnode : g.get? s <;> simp [hs, ← hc, hk, hnode]
  node k node hk := by
    rw [get?_subscribe, Option.map_eq_some_iff] at hk
    obtain ⟨old, hold, rfl⟩ := hk
    obtain ⟨hkind, hcounter, hmissed, hpublished, hpending⟩ := h.node k old hold
    refine ⟨hkind, ?_, hmissed, hpublished, ?_⟩
    · by_cases hk : m = k
      · subst hk
        simp only [if_true, Function.update_self, List.length_cons]
        omega
      · simpa [hk, Function.update_of_ne (Ne.symm hk)] using hcounter
    · by_cases hs : d = k
      · simp [hs]
      · simpa [hs] using hpending

theorem subscribeAll (h : g.Fresh refs) {items : List Slot} (hi : ∀ d ∈ items, d < g.size) :
    (items.foldl (·.subscribe m ·) g).Fresh (Function.update refs m (items.reverse ++ refs m)) := by
  induction items generalizing g refs with
  | nil => simpa using h
  | cons d rest ih =>
    have := ih (h.subscribe (m := m) (hi d List.mem_cons_self)) fun e he => by
      rw [size_subscribe]
      exact hi e (List.mem_cons_of_mem _ he)
    simpa using this

/-! ## One reference less -/

theorem unsubscribe_of_not_mem (h : g.Fresh refs) (hd : d ∉ refs m) : g.unsubscribe m d = g := by
  unfold Graph.unsubscribe
  cases hnode : g.get? d with
  | none => rfl
  | some node =>
    have hc := h.count_subscribers hnode m
    rw [List.count_eq_zero_of_not_mem hd, List.count_eq_zero] at hc
    simp only [List.idxOf?_eq_none_iff.2 hc]

theorem exists_index (h : g.Fresh refs) (hd : d ∈ refs m) :
    ∃ node index, g.get? d = some node ∧ node.subscribers.idxOf? (.matcher m) = some index := by
  obtain ⟨node, hnode⟩ := lt_size_iff.1 (h.inRange m d hd)
  have hmem : Subscriber.matcher m ∈ node.subscribers := by
    rw [← List.count_pos_iff, h.count_subscribers hnode, List.count_pos_iff]
    exact hd
  obtain ⟨index, hindex⟩ := Option.isSome_iff_exists.1 (List.isSome_idxOf?.2 hmem)
  exact ⟨node, index, hnode, hindex⟩

theorem drop (h : g.Fresh refs) (hd : d ∈ refs m) {index : Nat} (hnode : g.get? d = some node)
    (hindex : node.subscribers.idxOf? (.matcher m) = some index) :
    (g.drop m d index).Fresh (Function.update refs m ((refs m).erase d)) where
  inRange := by
    rw [Graph.drop, size_modify, size_modify]
    exact h.inRange_update fun s hs => h.inRange m s (List.mem_of_mem_erase hs)
  subscriptions k s := by
    rw [Graph.subscriptions, get?_drop]
    by_cases hs : d = s
    · subst hs
      have hc := h.count_subscribers hnode k
      have hperm := (swapRemove_perm_erase hindex).count_eq (.matcher k)
      rw [hnode]
      simp only [Option.map_some, Option.elim_some, if_true]
      rw [hperm, List.count_erase, hc]
      by_cases hk : k = m
      · subst hk
        simp
      · simp [hk, Ne.symm hk]
    · have hc := h.subscriptions k s
      rw [Graph.subscriptions] at hc
      by_cases hk : k = m
      · subst hk
        rw [Function.update_self, List.count_erase_of_ne (Ne.symm hs), ← hc]
        cases g.get? s <;> simp [hs]
      · rw [Function.update_of_ne hk, ← hc]
        cases g.get? s <;> simp [hs]
  node k node' hk := by
    rw [get?_drop, Option.map_eq_some_iff] at hk
    obtain ⟨old, hold, rfl⟩ := hk
    obtain ⟨hkind, hcounter, hmissed, hpublished, hpending⟩ := h.node k old hold
    refine ⟨hkind, ?_, hmissed, hpublished, ?_⟩
    · by_cases hk : m = k
      · subst hk
        have := List.length_pos_of_mem hd
        simp only [if_true, Function.update_self, List.length_erase_of_mem hd]
        omega
      · simpa [hk, Function.update_of_ne (Ne.symm hk)] using hcounter
    · by_cases hs : d = k
      · subst hs
        rw [hnode, Option.some.injEq] at hold
        subst hold
        -- the list was not empty, so the slot was not pending before
        have hne : node.subscribers ≠ [] := fun he => by simp [he] at hindex
        have : node.pending = false := by
          rw [← Bool.not_eq_true, hpending]
          exact fun h => hne h.1
        simp [this]
      · simpa [hs] using hpending

theorem unsubscribe (h : g.Fresh refs) :
    (g.unsubscribe m d).Fresh (Function.update refs m ((refs m).erase d)) := by
  by_cases hd : d ∈ refs m
  · obtain ⟨node, index, hnode, hindex⟩ := h.exists_index hd
    rw [unsubscribe_eq_drop hnode hindex]
    exact h.drop hd hnode hindex
  · rw [h.unsubscribe_of_not_mem hd, List.erase_of_not_mem hd, Function.update_eq_self]
    exact h

theorem unsubscribeAll (h : g.Fresh refs) (items : List Slot) :
    (items.foldl (·.unsubscribe m ·) g).Fresh (Function.update refs m ((refs m).diff items)) := by
  induction items generalizing g refs with
  | nil => simpa using h
  | cons d rest ih => simpa [List.diff_cons] using ih (h.unsubscribe (m := m) (d := d))

end Graph.Fresh

end Metamatch
