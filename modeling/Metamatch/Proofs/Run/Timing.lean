import Metamatch.Proofs.Run.Schedule

/-!
# The timing of a schedule

A sweep visits the kinds in order, so that a matcher can be published in the sweep of a dependency
only if its kind comes later; else it takes one sweep more.

* `dueSweep`: the first sweep that comes after all dependencies of a matcher.
* `Ground.Timely`: every matcher is published when it is due, none before and none after.
* `Ground.Timely.batch`: one batch keeps to the times.
* `Ground.Timely.exists_chain`: a matcher published late has a long chain of dependencies.
-/

namespace Metamatch

/-! ## Sweeps that are due -/

/-- The place of a matcher's kind in the order of a sweep. -/
def Graph.rank (g : Graph) (s : Slot) : Nat :=
  (g.get? s).elim 0 fun node => Kind.scheduled.idxOf node.kind

/-- The first sweep that comes after all dependencies of a matcher, which is the sweep of a
dependency if its kind comes before that of the matcher, else the next one. -/
def dueSweep (rank sweep : Slot → Nat) (dependencies : List Slot) (m : Slot) : Nat :=
  (dependencies.map fun d => sweep d + if rank d < rank m then 0 else 1).foldr max 1

theorem foldr_max_le_iff {items : List Nat} {b k : Nat} :
    items.foldr max b ≤ k ↔ b ≤ k ∧ ∀ a ∈ items, a ≤ k := by
  induction items with
  | nil => simp
  | cons a rest ih =>
    rw [List.foldr_cons, Nat.max_le, ih, List.forall_mem_cons]
    exact and_left_comm

theorem le_foldr_max {items : List Nat} {a b : Nat} (ha : a ∈ items) : a ≤ items.foldr max b :=
  (foldr_max_le_iff.1 (Nat.le_refl (items.foldr max b))).2 a ha

theorem foldr_max_mem {items : List Nat} {b : Nat} :
    items.foldr max b = b ∨ items.foldr max b ∈ items := by
  induction items with
  | nil => exact .inl rfl
  | cons a rest ih =>
    rw [List.foldr_cons]
    rcases Nat.le_total a (rest.foldr max b) with h | h
    · rw [Nat.max_eq_right h]
      exact ih.imp id (List.mem_cons_of_mem a)
    · rw [Nat.max_eq_left h]
      exact .inr List.mem_cons_self

section DueSweep

variable {rank sweep sweep' : Slot → Nat} {dependencies : List Slot} {m d : Slot} {k : Nat}

theorem dueSweep_le_iff : dueSweep rank sweep dependencies m ≤ k ↔
    1 ≤ k ∧ ∀ d ∈ dependencies, (sweep d + if rank d < rank m then 0 else 1) ≤ k := by
  rw [dueSweep, foldr_max_le_iff, List.forall_mem_map]

theorem one_le_dueSweep : 1 ≤ dueSweep rank sweep dependencies m :=
  (dueSweep_le_iff.1 (Nat.le_refl _)).1

theorem le_dueSweep (hd : d ∈ dependencies) :
    (sweep d + if rank d < rank m then 0 else 1) ≤ dueSweep rank sweep dependencies m :=
  (dueSweep_le_iff.1 (Nat.le_refl _)).2 d hd

theorem dueSweep_mem : dueSweep rank sweep dependencies m = 1 ∨ ∃ d ∈ dependencies,
    dueSweep rank sweep dependencies m = sweep d + if rank d < rank m then 0 else 1 := by
  refine foldr_max_mem.imp id fun h => ?_
  obtain ⟨d, hd, h⟩ := List.mem_map.1 h
  exact ⟨d, hd, h.symm⟩

theorem dueSweep_congr (h : ∀ d ∈ dependencies, sweep d = sweep' d) :
    dueSweep rank sweep dependencies m = dueSweep rank sweep' dependencies m := by
  rw [dueSweep, dueSweep, List.map_congr_left fun d hd => by rw [h d hd]]

end DueSweep

/-- The sweep that published a slot. -/
def Publications.sweep (pub : Publications) (s : Slot) : Nat := (pub s).elim 0 (·.sweep)

namespace Ground

variable (ground : Ground) (prune : Bool)

/-- The sweep in which a matcher is due. -/
def due (pub : Publications) (m : Slot) : Nat :=
  dueSweep ground.graph.rank pub.sweep (ground.refs m) m

/-- The state of a schedule before the batch at time `t`, which is four times the number of the
sweep and the place of the kind: all searches that were due earlier are over, and no other. -/
structure Timely (t : Nat) (pub : Publications) : Prop where
  closed : ∀ m, pub m ≠ none → ∀ d ∈ ground.refs m, pub d ≠ none
  detached : ∀ m ∈ ground.detached, pub m ≠ none ∧ pub.sweep m = 0
  past : ∀ m, pub m ≠ none → m ∉ ground.detached →
    pub.sweep m = ground.due pub m ∧ 4 * pub.sweep m + ground.graph.rank m < t
  future : ∀ m, ground.Ready pub m → ¬ ground.graph.Pruned prune m →
    t ≤ 4 * ground.due pub m + ground.graph.rank m

variable {ground prune} {pub pub' : Publications} {m d : Slot} {k i t : Nat} {kind : Kind}

theorem rank_lt (hm : m < ground.graph.size) : ground.graph.rank m < 4 := by
  obtain ⟨node, hnode⟩ := Graph.lt_size_iff.1 hm
  rw [Graph.rank, hnode, Option.elim_some]
  exact List.idxOf_lt_length_of_mem (ground.fresh_refs.node m node hnode).kind

theorem rank_of_mem_ready (hi : Kind.scheduled[i]? = some kind)
    (hm : m ∈ (ground.after pub).ready prune kind) : ground.graph.rank m = i := by
  obtain ⟨-, node, hnode, rfl, -⟩ := mem_ready.1 hm
  obtain ⟨hlt, hget⟩ := List.getElem?_eq_some_iff.1 hi
  rw [Graph.rank, hnode, Option.elim_some, ← hget]
  exact List.Nodup.idxOf_getElem (by decide) i hlt

theorem due_of_grows (hgrows : pub.Extends pub') (hr : ∀ d ∈ ground.refs m, pub d ≠ none) :
    ground.due pub' m = ground.due pub m :=
  dueSweep_congr fun d hd => by rw [Publications.sweep, Publications.sweep, hgrows d (hr d hd)]

/-- What a batch publishes was ready, is not left out, and is of its kind. -/
theorem Batch.new_rank (hb : ground.Batch prune k kind pub pub')
    (hi : Kind.scheduled[i]? = some kind) (hm : pub m = none) (hm' : pub' m ≠ none) :
    ground.Ready pub m ∧ ¬ ground.graph.Pruned prune m ∧ ground.graph.rank m = i ∧
      pub'.sweep m = k := by
  obtain ⟨hready, values, hv⟩ := hb.new hm hm'
  obtain ⟨hr, node, hnode, -, hpruned⟩ := mem_ready.1 hready
  exact ⟨hr, by simp [Graph.Pruned, hnode, hpruned], rank_of_mem_ready hi hready,
    by rw [Publications.sweep, hv]; rfl⟩

theorem Batch.publishes (hb : ground.Batch prune k kind pub pub')
    (hi : Kind.scheduled[i]? = some kind) (hm : ground.Ready pub m)
    (hpruned : ¬ ground.graph.Pruned prune m) (hrank : ground.graph.rank m = i) :
    pub' m ≠ none := by
  obtain ⟨node, hnode⟩ := Graph.lt_size_iff.1 hm.inRange
  have hkind : node.kind = kind := by
    have hget := List.getElem?_idxOf (ground.fresh_refs.node m node hnode).kind
    rw [Graph.rank, hnode, Option.elim_some] at hrank
    rw [hrank, hi, Option.some.injEq] at hget
    exact hget.symm
  obtain ⟨values, hv⟩ := hb.taken m (mem_ready.2 ⟨hm, node, hnode, hkind,
    by simpa [Graph.Pruned, hnode] using hpruned⟩)
  rw [hv]
  exact Option.some_ne_none _

namespace Timely

theorem due_le (h : ground.Timely prune (4 * k + i) pub) (hk : 1 ≤ k) (hi : i < 4)
    (hr : ∀ d ∈ ground.refs m, pub d ≠ none) (hm : ground.graph.rank m = i) :
    ground.due pub m ≤ k := by
  refine dueSweep_le_iff.2 ⟨hk, fun d hd => ?_⟩
  by_cases hdd : d ∈ ground.detached
  · rw [(h.detached d hdd).2]
    split_ifs <;> omega
  · have hpast := (h.past d (hr d hd) hdd).2
    split_ifs <;> omega

theorem batch_future (h : ground.Timely prune (4 * k + i) pub)
    (hi : Kind.scheduled[i]? = some kind) (hb : ground.Batch prune k kind pub pub')
    (hm : ground.Ready pub' m) (hpruned : ¬ ground.graph.Pruned prune m) :
    4 * k + i + 1 ≤ 4 * ground.due pub' m + ground.graph.rank m := by
  have hi4 : i < 4 := (List.getElem?_eq_some_iff.1 hi).1
  have hgrows := hb.grows
  have hrank := rank_lt hm.inRange
  by_cases hr : ∀ d ∈ ground.refs m, pub d ≠ none
  · -- it was ready before, but is of another kind
    have hready : ground.Ready pub m := ⟨hm.inRange, hgrows.eq_none hm.unpublished, hr⟩
    have hge := h.future m hready hpruned
    have hne : ground.graph.rank m ≠ i := fun hmi =>
      (hb.publishes hi hready hpruned hmi) hm.unpublished
    rw [due_of_grows hgrows hr]
    omega
  · -- the last of its references has just been published
    push Not at hr
    obtain ⟨d, hd, hd₀⟩ := hr
    obtain ⟨-, -, hdrank, hdsweep⟩ := hb.new_rank hi hd₀ (hm.references d hd)
    have hle : _ ≤ ground.due pub' m := le_dueSweep hd
    rw [hdsweep, hdrank] at hle
    split_ifs at hle <;> omega

/-- **A batch publishes what is due in it** and leaves what is due later. -/
theorem batch (h : ground.Timely prune (4 * k + i) pub) (hk : 1 ≤ k)
    (hi : Kind.scheduled[i]? = some kind) (hb : ground.Batch prune k kind pub pub') :
    ground.Timely prune (4 * k + i + 1) pub' := by
  have hi4 : i < 4 := (List.getElem?_eq_some_iff.1 hi).1
  have hgrows := hb.grows
  refine ⟨fun m hm d hd => ?_, fun m hm => ?_, fun m hm hmd => ?_,
    fun m hm hpruned => h.batch_future hi hb hm hpruned⟩
  · by_cases hm₀ : pub m = none
    · exact hgrows.ne_none ((hb.new_rank hi hm₀ hm).1.references d hd)
    · exact hgrows.ne_none (h.closed m hm₀ d hd)
  · obtain ⟨hpub, hsweep⟩ := h.detached m hm
    exact ⟨hgrows.ne_none hpub, by rwa [Publications.sweep, hgrows m hpub]⟩
  · by_cases hm₀ : pub m = none
    · obtain ⟨hr, hpruned, hrank, hsweep⟩ := hb.new_rank hi hm₀ hm
      have hle := h.due_le hk hi4 hr.references hrank
      have hge := h.future m hr hpruned
      rw [due_of_grows hgrows hr.references, hsweep, hrank]
      omega
    · obtain ⟨hsweep, hlt⟩ := h.past m hm₀ hmd
      rw [due_of_grows hgrows (h.closed m hm₀), Publications.sweep, hgrows m hm₀]
      exact ⟨hsweep, Nat.lt_succ_of_lt hlt⟩

theorem sweep (h : ground.Timely prune (4 * k) pub) (hk : 1 ≤ k)
    (hs : ground.Sweep prune k Kind.scheduled pub pub') :
    ground.Timely prune (4 * (k + 1)) pub' := by
  have hkinds : Kind.scheduled = [.cls, .field, .method, .constructor] := rfl
  rw [hkinds] at hs
  cases hs with
  | batch hcls hs => cases hs with
    | batch hfield hs => cases hs with
      | batch hmethod hs => cases hs with
        | batch hconstructor hs =>
          cases hs
          have h := Timely.batch (i := 0) h hk rfl hcls
          have h := Timely.batch (i := 1) h hk rfl hfield
          have h := Timely.batch (i := 2) h hk rfl hmethod
          exact Timely.batch (i := 3) h hk rfl hconstructor

theorem sweeps {last : Nat} (h : ground.Timely prune (4 * k) pub) (hk : 1 ≤ k)
    (hs : ground.Sweeps prune k pub last pub') :
    ground.Timely prune (4 * last) pub' ∧ 1 ≤ last := by
  induction hs with
  | silent => exact ⟨h, hk⟩
  | next hsweep _ _ ih => exact ih (h.sweep hk hsweep) (Nat.le_succ_of_le hk)

/-! ## Chains of dependencies -/

/-- A dependency is published before what depends on it. -/
theorem time_lt (h : ground.Timely prune t pub)
    (hrange : ∀ m, pub m ≠ none → m < ground.graph.size) (hm : pub m ≠ none)
    (hmd : m ∉ ground.detached) (hd : d ∈ ground.refs m) :
    4 * pub.sweep d + ground.graph.rank d < 4 * pub.sweep m + ground.graph.rank m := by
  have hle : _ ≤ ground.due pub m := le_dueSweep hd
  have hsweep := (h.past m hm hmd).1
  have hrank := rank_lt (hrange d (h.closed m hm d hd))
  split_ifs at hle <;> omega

/-- Every published matcher that was searched for starts a chain of such matchers, each of which
depends on the next, and the chain is at least as long as its sweep is late. -/
theorem exists_chain (h : ground.Timely prune t pub)
    (hrange : ∀ m, pub m ≠ none → m < ground.graph.size) (hm : pub m ≠ none)
    (hmd : m ∉ ground.detached) :
    ∃ rest : List Slot, (m :: rest).IsChain (fun m d => d ∈ ground.refs m) ∧
      (∀ d ∈ m :: rest, pub d ≠ none ∧ d ∉ ground.detached) ∧ pub.sweep m ≤ (m :: rest).length := by
  -- on the time of the publication, which is earlier for dependencies
  induction htime : 4 * pub.sweep m + ground.graph.rank m using Nat.strong_induction_on
    generalizing m with
  | _ time ih =>
    subst htime
    have hsweep := (h.past m hm hmd).1
    by_cases hfirst : pub.sweep m ≤ 1
    · refine ⟨[], .singleton m, fun d hd => ?_, hfirst⟩
      rw [List.mem_singleton.1 hd]
      exact ⟨hm, hmd⟩
    · have hlast : ground.due pub m = 1 ∨ ∃ d ∈ ground.refs m, ground.due pub m =
          pub.sweep d + if ground.graph.rank d < ground.graph.rank m then 0 else 1 := dueSweep_mem
      rcases hlast with hone | ⟨d, hd, hdue⟩
      · exact absurd (hsweep.trans hone).le hfirst
      · rw [← hsweep] at hdue
        have hdd : d ∉ ground.detached := by
          intro hdd
          rw [(h.detached d hdd).2] at hdue
          split_ifs at hdue <;> omega
        obtain ⟨rest, hchain, hall, hlen⟩ :=
          ih _ (h.time_lt hrange hm hmd hd) (h.closed m hm d hd) hdd rfl
        refine ⟨d :: rest, .cons_cons hd hchain, List.forall_mem_cons.2 ⟨⟨hm, hmd⟩, hall⟩, ?_⟩
        rw [List.length_cons]
        split_ifs at hdue <;> omega

theorem chain_length_le (h : ground.Timely prune t pub)
    (hrange : ∀ m, pub m ≠ none → m < ground.graph.size) {chain : List Slot}
    (hchain : chain.IsChain fun m d => d ∈ ground.refs m)
    (hall : ∀ m ∈ chain, pub m ≠ none ∧ m ∉ ground.detached) :
    chain.length ≤ ground.graph.size := by
  let before (m d : Slot) : Prop :=
    4 * pub.sweep d + ground.graph.rank d < 4 * pub.sweep m + ground.graph.rank m
  have : Trans before before before := ⟨fun h h' => Nat.lt_trans h' h⟩
  have htimes : chain.Pairwise before := by
    refine List.IsChain.pairwise (hchain.imp_of_mem_imp fun m d hm _ hd => ?_)
    exact h.time_lt hrange (hall m hm).1 (hall m hm).2 hd
  have hnodup : chain.Nodup := htimes.imp fun {m d} (hlt : before m d) heq => by
    subst heq
    exact absurd hlt (Nat.lt_irrefl _)
  have hsub : chain ⊆ List.range ground.graph.size := fun m hm =>
    List.mem_range.2 (hrange m (hall m hm).1)
  simpa using (hnodup.subperm hsub).length_le

end Timely

/-! ## The last sweep -/

theorem Sweeps.exists_last {last : Nat} (hs : ground.Sweeps prune k pub last pub')
    (h : k = 1 ∨ ∃ m, pub m ≠ none ∧ pub.sweep m + 1 = k) :
    last = 1 ∨ ∃ m, pub' m ≠ none ∧ pub'.sweep m + 1 = last := by
  induction hs with
  | silent => exact h
  | next hsweep hne _ ih =>
    refine ih (.inr ?_)
    obtain ⟨m, hm, hm'⟩ := hsweep.grows.exists_new hne
    obtain ⟨-, values, hv⟩ := hsweep.new hm hm'
    exact ⟨m, hm', by rw [Publications.sweep, hv]; rfl⟩

end Ground

end Metamatch
