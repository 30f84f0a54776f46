import Metamatch.Proofs.Run.Ground

/-!
# Schedules

What batches, sweeps and whole runs do to the publications, apart from the values that are found.

* `Publications.Extends`: what is published stays.
* `Ground.Batch`, `Ground.Sweep`, `Ground.Sweeps`: one batch, the batches of some kinds, and sweeps
  until one of them publishes nothing.
* `Ground.Silent`: no slot is left to a sweep.
* `Ground.Sweeps.grows`, `Ground.Sweeps.silent_last`: what sweeps keep, and how they end.
-/

namespace Metamatch

/-- What is published stays as it is. -/
def Publications.Extends (pub pub' : Publications) : Prop := ∀ s, pub s ≠ none → pub' s = pub s

namespace Publications.Extends

variable {pub pub' pub'' : Publications} {s : Slot}

theorem refl (pub : Publications) : pub.Extends pub := fun _ _ => rfl

theorem trans (h : pub.Extends pub') (h' : pub'.Extends pub'') : pub.Extends pub'' := by
  intro s hs
  have hs' := h s hs
  rw [h' s (hs' ▸ hs), hs']

theorem ne_none (h : pub.Extends pub') (hs : pub s ≠ none) : pub' s ≠ none := by
  rwa [h s hs]

theorem eq_none (h : pub.Extends pub') (hs : pub' s = none) : pub s = none := by
  by_contra hne
  exact h.ne_none hne hs

theorem antisymm (h : pub.Extends pub') (h' : pub'.Extends pub) : pub' = pub := by
  funext s
  by_cases hs : pub s = none
  · rw [hs, h'.eq_none hs]
  · exact h s hs

theorem exists_new (h : pub.Extends pub') (hne : pub' ≠ pub) :
    ∃ s, pub s = none ∧ pub' s ≠ none := by
  by_contra hall
  push Not at hall
  refine hne (h.antisymm fun s hs => (h s fun hn => hs (hall s hn)).symm)

end Publications.Extends

/-- A matcher that a run leaves out, because it prunes and nothing asks for the values. -/
def Graph.Pruned (g : Graph) (prune : Bool) (s : Slot) : Prop :=
  (g.get? s).any (·.isPruned prune) = true

instance (g : Graph) (prune : Bool) (s : Slot) : Decidable (g.Pruned prune s) :=
  inferInstanceAs (Decidable (_ = true))

namespace Ground

variable (ground : Ground) (prune : Bool)

/-- One batch: the slots of a kind that are ready and not left out are published. -/
structure Batch (number : Nat) (kind : Kind) (pub pub' : Publications) : Prop where
  taken : ∀ s ∈ (ground.after pub).ready prune kind, ∃ values, pub' s = some ⟨values, number⟩
  kept : ∀ s ∉ (ground.after pub).ready prune kind, pub' s = pub s

/-- The batches of some kinds, one after the other. -/
inductive Sweep (number : Nat) : List Kind → Publications → Publications → Prop
  | done {pub : Publications} : Sweep number [] pub pub
  | batch {kind : Kind} {rest : List Kind} {pub pub₁ pub' : Publications} :
    ground.Batch prune number kind pub pub₁ → Sweep number rest pub₁ pub' →
      Sweep number (kind :: rest) pub pub'

/-- Sweeps from a given number on until one publishes nothing, and the number of that one. -/
inductive Sweeps : Nat → Publications → Nat → Publications → Prop
  | silent {number : Nat} {pub : Publications} :
    ground.Sweep prune number Kind.scheduled pub pub → Sweeps number pub number pub
  | next {number last : Nat} {pub pub₁ pub' : Publications} :
    ground.Sweep prune number Kind.scheduled pub pub₁ → pub₁ ≠ pub →
      Sweeps (number + 1) pub₁ last pub' → Sweeps number pub last pub'

/-- No slot is left to a sweep. -/
def Silent (pub : Publications) : Prop :=
  ∀ kind ∈ Kind.scheduled, (ground.after pub).ready prune kind = []

variable {ground prune} {number last : Nat} {kind : Kind} {kinds : List Kind}
  {pub pub₁ pub' : Publications} {s : Slot}

theorem isReady_after {node : Node} :
    (node.after (ground.refs s) pub (pub s)).isReady = true ↔
      pub s = none ∧ ∀ d ∈ ground.refs s, pub d ≠ none :=
  Graph.isReady_after

theorem mem_ready : s ∈ (ground.after pub).ready prune kind ↔
    ground.Ready pub s ∧ ∃ node, ground.graph.get? s = some node ∧ node.kind = kind ∧
      node.isPruned prune = false := by
  rw [Graph.ready, Graph.slots, List.mem_filter, List.mem_range, get?_after, size_after]
  cases hnode : ground.graph.get? s with
  | none =>
    simp
  | some node =>
    have hsize := Graph.lt_size hnode
    simp only [Option.map_some, Option.any_some, Bool.and_eq_true, isReady_after, beq_iff_eq]
    constructor
    · rintro ⟨hs, ⟨hkind, hpub, hrefs⟩, hpruned⟩
      exact ⟨⟨hs, hpub, hrefs⟩, node, rfl, hkind, (Bool.not_eq_true' _).mp hpruned⟩
    · rintro ⟨⟨hs, hpub, hrefs⟩, other, hother, hkind, hpruned⟩
      cases hother
      exact ⟨hs, ⟨hkind, hpub, hrefs⟩, (Bool.not_eq_true' _).mpr hpruned⟩

theorem nodup_ready : ((ground.after pub).ready prune kind).Nodup :=
  List.nodup_range.filter _

/-! ## What is kept -/

theorem Batch.grows (h : ground.Batch prune number kind pub pub') : pub.Extends pub' :=
  fun s hs => h.kept s fun hr => hs (mem_ready.1 hr).1.unpublished

theorem Batch.new (h : ground.Batch prune number kind pub pub') (hs : pub s = none)
    (hs' : pub' s ≠ none) :
    s ∈ (ground.after pub).ready prune kind ∧ ∃ values, pub' s = some ⟨values, number⟩ := by
  have hr : s ∈ (ground.after pub).ready prune kind := by
    by_contra hr
    exact hs' (hs ▸ h.kept s hr)
  exact ⟨hr, h.taken s hr⟩

theorem Sweep.grows (h : ground.Sweep prune number kinds pub pub') : pub.Extends pub' := by
  induction h with
  | done => exact .refl _
  | batch hb _ ih => exact hb.grows.trans ih

theorem Sweep.new (h : ground.Sweep prune number kinds pub pub') (hs : pub s = none)
    (hs' : pub' s ≠ none) :
    ¬ ground.graph.Pruned prune s ∧ ∃ values, pub' s = some ⟨values, number⟩ := by
  induction h with
  | done => exact absurd hs hs'
  | @batch kind rest pub pub₁ pub' hb hrest ih =>
    by_cases h₁ : pub₁ s = none
    · exact ih h₁ hs'
    · obtain ⟨hr, values, hv⟩ := hb.new hs h₁
      obtain ⟨-, node, hnode, -, hpruned⟩ := mem_ready.1 hr
      refine ⟨by simp [Graph.Pruned, hnode, hpruned], values, ?_⟩
      rw [hrest.grows s h₁, hv]

theorem Sweeps.grows (h : ground.Sweeps prune number pub last pub') : pub.Extends pub' := by
  induction h with
  | silent => exact .refl _
  | next hs _ _ ih => exact hs.grows.trans ih

theorem Sweeps.not_pruned (h : ground.Sweeps prune number pub last pub') (hs : pub s = none)
    (hs' : pub' s ≠ none) : ¬ ground.graph.Pruned prune s := by
  induction h with
  | silent => exact absurd hs hs'
  | @next number last pub pub₁ pub' hsweep _ _ ih =>
    by_cases h₁ : pub₁ s = none
    · exact ih h₁ hs'
    · exact (hsweep.new hs h₁).1

/-! ## The end -/

theorem Batch.eq_iff (h : ground.Batch prune number kind pub pub') :
    pub' = pub ↔ (ground.after pub).ready prune kind = [] := by
  constructor
  · rintro rfl
    refine List.eq_nil_iff_forall_not_mem.2 fun s hs => ?_
    obtain ⟨values, hv⟩ := h.taken s hs
    have := (mem_ready.1 hs).1.unpublished
    rw [hv] at this
    cases this
  · intro hr
    funext s
    exact h.kept s (by rw [hr]; exact List.not_mem_nil)

theorem Sweep.silent (h : ground.Sweep prune number kinds pub pub') (hpub : pub' = pub) :
    ∀ kind ∈ kinds, (ground.after pub).ready prune kind = [] := by
  induction h with
  | done => simp
  | @batch kind rest pub pub₁ pub' hb hrest ih =>
    have h₁ : pub₁ = pub := hb.grows.antisymm (hpub ▸ hrest.grows)
    have hkind := hb.eq_iff.1 h₁
    subst h₁
    exact List.forall_mem_cons.2 ⟨hkind, ih hpub⟩

theorem Sweeps.silent_last (h : ground.Sweeps prune number pub last pub') :
    ground.Silent prune pub' := by
  induction h with
  | silent hs => exact hs.silent rfl
  | next _ _ _ ih => exact ih

/-! ## The number of slots left -/

/-- The number of slots that are not published. -/
def remaining (ground : Ground) (pub : Publications) : Nat :=
  ((Finset.range ground.graph.size).filter (pub · = none)).card

theorem remaining_le : ground.remaining pub ≤ ground.graph.size :=
  (Finset.card_filter_le _ _).trans (Finset.card_range _).le

theorem remaining_lt (h : pub.Extends pub') (hne : pub' ≠ pub)
    (hsize : ∀ s, pub' s ≠ none → s < ground.graph.size) :
    ground.remaining pub' < ground.remaining pub := by
  obtain ⟨s, hs, hs'⟩ := h.exists_new hne
  refine Finset.card_lt_card (Finset.ssubset_iff_of_subset ?_ |>.2 ⟨s, ?_, ?_⟩)
  · exact Finset.monotone_filter_right _ fun t _ ht => h.eq_none ht
  · exact Finset.mem_filter.2 ⟨Finset.mem_range.2 (hsize s hs'), hs⟩
  · exact fun hmem => hs' (Finset.mem_filter.1 hmem).2

end Ground

end Metamatch
