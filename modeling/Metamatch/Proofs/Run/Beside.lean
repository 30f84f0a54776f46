import Mathlib.Data.List.Perm.Basic
import Metamatch.Proofs.Run.Configs

/-!
# A run beside one that leaves out more

Each batch of a run holds what the same batch holds in a run that leaves out more, and matchers that
nothing asks for. These have failures of their own, but no observers.

* `Ground.Covers`: publications that agree on what is not left out.
* `Progress.Trails`: a run beside one that leaves out more.
* `Run.batch_beside`, `Run.sweeps_beside`: a batch and all sweeps of both.
-/

namespace Metamatch

variable {σ α β : Type}

theorem flatMap_of_filter {P : α → Prop} [DecidablePred P] {items kept : List α} {f g : α → List β}
    (hkept : kept = items.filter fun a => P a) (hsame : ∀ a ∈ kept, g a = f a)
    (hnone : ∀ a, ¬ P a → g a = []) : kept.flatMap f = items.flatMap g := by
  subst hkept
  rw [← List.flatMap_congr hsame]
  clear hsame
  induction items with
  | nil => rfl
  | cons a rest ih =>
    by_cases ha : P a
    · rw [List.filter_cons_of_pos (by simpa using ha), List.flatMap_cons, List.flatMap_cons, ih]
    · rw [List.filter_cons_of_neg (by simpa using ha), ih, List.flatMap_cons, hnone a ha]
      rfl

theorem Graph.observers_eq_nil {g : Graph} {s : Slot} {node : Node} (hnode : g.get? s = some node)
    (h : ¬ node.Observed) (empty : Bool) : g.observers s empty = [] := by
  rw [observers_eq, hnode, Option.map_some, Option.elim_some, List.filterMap_eq_nil_iff]
  intro subscriber hmem
  cases subscriber with
  | matcher dependent => rfl
  | observer trigger number => exact absurd ⟨trigger, number, hmem⟩ h

/-- The same run under another configuration, with the tasks of a batch in another order. -/
def RunContext.under (ctx : RunContext σ) (config : Config) (arrange : List Slot → List Slot) :
    RunContext σ :=
  { ctx with config, arrange }

/-! ## Publications -/

namespace Ground

variable {ground : Ground} {ctx : RunContext σ} {prune prune' : Bool} {kind : Kind}
  {pub pub' : Publications} {s d : Slot}

theorem not_pruned_of_ref (hd : d ∈ ground.refs s) : ¬ ground.graph.Pruned prune d := by
  intro hpruned
  obtain ⟨node, hnode⟩ := Graph.lt_size_iff.1 (ground.fresh_refs.inRange s d hd)
  rw [Graph.Pruned, hnode, Option.any_some, Node.isPruned, Bool.and_eq_true] at hpruned
  exact ((ground.fresh_refs.pending_iff hnode).1 hpruned.2).1 s hd

theorem callsOf_eq_nil (hs : ground.graph.Pruned prune s) (values : List Entity) :
    ground.graph.callsOf (s, values) = [] := by
  cases hnode : ground.graph.get? s with
  | none => rw [Graph.callsOf, Graph.observers, hnode]; rfl
  | some node =>
    rw [Graph.Pruned, hnode, Option.any_some, Node.isPruned, Bool.and_eq_true] at hs
    have hobserved := ((ground.fresh_refs.pending_iff hnode).1 hs.2).2.1
    rw [Graph.callsOf, Graph.observers_eq_nil hnode hobserved]
    rfl

theorem not_pruned_of_spares (hprune : prune' = true → prune = true)
    (hs : ¬ ground.graph.Pruned prune s) : ¬ ground.graph.Pruned prune' s := by
  intro hpruned
  unfold Graph.Pruned at *
  cases hnode : ground.graph.get? s with
  | none => simp [hnode] at hpruned
  | some node =>
    simp only [hnode, Option.any_some, Node.isPruned, Bool.and_eq_true] at hs hpruned
    exact hs ⟨hprune hpruned.1, hpruned.2⟩

theorem mem_ready_iff : s ∈ (ground.after pub).ready prune kind ↔
    ground.Ready pub s ∧ (∃ node, ground.graph.get? s = some node ∧ node.kind = kind) ∧
      ¬ ground.graph.Pruned prune s := by
  rw [mem_ready]
  refine and_congr_right fun _ => ?_
  cases hnode : ground.graph.get? s with
  | none => simp
  | some node => simp [Graph.Pruned, hnode]

theorem called_eq_nil (hs : ground.graph.Pruned prune s) (searched : Searched) :
    searched.called ground.graph s = [] ∧ searched.recalled ground.graph s = [] := by
  unfold Searched.called Searched.recalled
  cases searched.outcome with
  | ok values => exact ⟨callsOf_eq_nil hs values, rfl⟩
  | error e => exact ⟨rfl, callsOf_eq_nil hs []⟩

/-- Publications of which the second agree with the first on what is not left out, and both hold
earlier values. -/
structure Covers (ground : Ground) (prune : Bool) (pub pub' : Publications) : Prop where
  same : ∀ s, ¬ ground.graph.Pruned prune s → pub' s = pub s
  detached : ∀ s ∈ ground.detached, pub s ≠ none ∧ pub' s ≠ none

namespace Covers

variable (h : ground.Covers prune pub pub')

include h

theorem same_ref (hd : d ∈ ground.refs s) : pub' d = pub d := h.same d (not_pruned_of_ref hd)

theorem ready_iff (hs : ¬ ground.graph.Pruned prune s) :
    ground.Ready pub' s ↔ ground.Ready pub s := by
  have hrefs : (∀ d ∈ ground.refs s, pub' d ≠ none) ↔ ∀ d ∈ ground.refs s, pub d ≠ none :=
    forall₂_congr fun d hd => by rw [h.same_ref hd]
  exact ⟨fun hr => ⟨hr.inRange, h.same s hs ▸ hr.unpublished, hrefs.1 hr.references⟩,
    fun hr => ⟨hr.inRange, (h.same s hs).symm ▸ hr.unpublished, hrefs.2 hr.references⟩⟩

/-- **Of a batch, the run that leaves out more has the rest.** -/
theorem ready_eq (hprune : prune' = true → prune = true) (kind : Kind) :
    (ground.after pub).ready prune kind =
      ((ground.after pub').ready prune' kind).filter fun s => ¬ ground.graph.Pruned prune s := by
  have hmem : ∀ s, s ∈ (ground.after pub).ready prune kind ↔
      s ∈ (ground.after pub').ready prune' kind ∧ ¬ ground.graph.Pruned prune s := by
    intro s
    rw [mem_ready_iff, mem_ready_iff]
    constructor
    · rintro ⟨hready, hkind, hs⟩
      exact ⟨⟨(h.ready_iff hs).2 hready, hkind, not_pruned_of_spares hprune hs⟩, hs⟩
    · rintro ⟨⟨hready, hkind, -⟩, hs⟩
      exact ⟨(h.ready_iff hs).1 hready, hkind, hs⟩
  unfold Graph.ready Graph.slots at *
  rw [size_after, size_after] at *
  rw [List.filter_filter]
  refine List.filter_congr fun s hs => ?_
  have hs := hmem s
  rw [List.mem_filter, List.mem_filter] at hs
  rw [Bool.eq_iff_iff, Bool.and_eq_true, decide_eq_true_eq]
  tauto

theorem not_detached (hs : s ∈ (ground.after pub).ready prune kind) : s ∉ ground.detached :=
  fun hmem => (h.detached s hmem).1 (mem_ready_iff.1 hs).1.unpublished

theorem searched_eq {config : Config} (hpolicy : config.missPolicy = ctx.config.missPolicy)
    (arrange : List Slot → List Slot) (world : σ)
    (hs : s ∈ (ground.after pub).ready prune kind) :
    ground.searched (ctx.under config arrange) world pub' s = ground.searched ctx world pub s := by
  have hsearch : ground.search (ctx.under config arrange) pub' s = ground.search ctx pub' s := by
    unfold search
    cases (ground.after pub').get? s with
    | none => rfl
    | some node =>
      change (if node.missed > 0 ∧ config.missPolicy = .forceEmpty then _ else _) =
        if node.missed > 0 ∧ ctx.config.missPolicy = .forceEmpty then _ else _
      simp only [hpolicy]
      rfl
  rw [searched, searched, hsearch, search_congr (h.not_detached hs)
    (mem_ready_iff.1 hs).1.references fun d hd => h.same_ref hd]

theorem put (hprune : prune' = true → prune = true) {f f' : Slot → Option Published}
    (hf : ∀ s ∈ (ground.after pub).ready prune kind, f' s = f s) :
    ground.Covers prune (pub.put ((ground.after pub).ready prune kind) f)
      (pub'.put ((ground.after pub').ready prune' kind) f') where
  same s hs := by
    have hmem : s ∈ (ground.after pub).ready prune kind ↔
        s ∈ (ground.after pub').ready prune' kind := by
      rw [h.ready_eq hprune kind, List.mem_filter, decide_eq_true_eq]
      exact and_iff_left hs
    by_cases hready : s ∈ (ground.after pub).ready prune kind
    · rw [Publications.put, Publications.put, if_pos hready, if_pos (hmem.1 hready), hf s hready]
    · rw [Publications.put, Publications.put, if_neg hready, if_neg (mt hmem.2 hready),
        h.same s hs]
  detached s hs := ⟨(put_ready rfl).ne_none (h.detached s hs).1,
    (put_ready rfl).ne_none (h.detached s hs).2⟩

end Covers

end Ground

/-! ## Batches and sweeps -/

section Batches

open Progress (At Stands)

variable {ctx : RunContext σ} {config : Config} {arrange : List Slot → List Slot} {start : Graph}
  {ground : Ground} {base : Progress σ} {verdict : String → Decision} {pub : Publications}
  {own : List Failure} {calls : List (Slot × Nat × List Entity)} {p : Progress σ}

/-- An order of tasks in which what is left out of a batch changes nothing for the rest. -/
def Consistent (arrange : List Slot → List Slot) : Prop :=
  ∀ (p : Slot → Bool) (items : List Slot), arrange (items.filter p) = (arrange items).filter p

/-- A run beside one that leaves out more and stands at `pub`, with the failures `own` and the
calls `calls`: its failures are these and more, crashes of observers apart, and in the same order
of tasks its calls are these. -/
def Progress.Trails (ctx : RunContext σ) (config : Config) (arrange : List Slot → List Slot)
    (start : Graph) (ground : Ground) (base : Progress σ) (verdict : String → Decision)
    (pub : Publications) (own : List Failure) (calls : List (Slot × Nat × List Entity))
    (p : Progress σ) : Prop :=
  ∃ pub' own' calls',
    Stands (ctx.under config arrange) start ground base verdict pub' own' calls' p ∧
    ground.Covers ctx.config.pruneUnconsumed pub pub' ∧ own.Subperm own' ∧
    (ctx.arrange = arrange → Consistent arrange → calls = calls')

namespace Run

open Progress (Trails)

/-- **A batch beside one from which more is left out.** -/
theorem batch_beside (hspares : config.Spares ctx.config)
    (hpolicy : config.missPolicy = ctx.config.missPolicy)
    (hctx : ∀ items, (ctx.arrange items).Perm items)
    (harrange : ∀ items, (arrange items).Perm items) (hsteady : ctx.host.Steady)
    (hverdict : ctx.host.Judges verdict) (number : Nat) (kind : Kind) (world : σ)
    {items : List Slot} (hitems : items = (ground.after pub).ready ctx.config.pruneUnconsumed kind) :
    Leads (Trails ctx config arrange start ground base verdict pub own calls)
      (batch (ctx.under config arrange) number kind)
      (fun count => fun p => items.length ≤ count ∧
        Trails ctx config arrange start ground base verdict
          (pub.put items fun s => (ground.searched ctx world pub s).published number)
          (own ++ (ctx.arrange items).flatMap
              (fun s => (ground.searched ctx world pub s).failures) ++
            items.flatMap fun s => (ground.searched ctx world pub s).refusal verdict s)
          (calls ++ (ctx.arrange items).flatMap
              (fun s => (ground.searched ctx world pub s).called ground.graph s) ++
            items.flatMap fun s => (ground.searched ctx world pub s).recalled ground.graph s) p)
      fun _ _ => False := by
  rintro p ⟨pub', own', calls', hp, hcovers, hown, hcalls⟩
  obtain ⟨items', hitems'⟩ : ∃ items', items' =
      (ground.after pub').ready config.pruneUnconsumed kind := ⟨_, rfl⟩
  have hfilter : items =
      items'.filter fun s => ¬ ground.graph.Pruned ctx.config.pruneUnconsumed s := by
    rw [hitems, hitems']
    exact hcovers.ready_eq hspares kind
  have hsub : items.Sublist items' := hfilter ▸ List.filter_sublist
  have hfound : ∀ s ∈ items, ground.searched (ctx.under config arrange) world pub' s =
      ground.searched ctx world pub s :=
    fun s hs => hcovers.searched_eq hpolicy arrange world (hitems ▸ hs)
  refine (@batch_steady _ (ctx.under config arrange) start ground pub' base number own' calls'
    verdict items' harrange hsteady hverdict kind hitems' (fun s hs => (hcovers.detached s hs).2)
    world).weaken (fun _ => id) ?_ (fun _ _ => id) p hp
  rintro count q ⟨rfl, hq⟩
  refine ⟨hsub.length_le, _, _, _, hq, ?_, ?_, fun hsame hconsistent => ?_⟩
  · subst hitems hitems'
    exact hcovers.put hspares fun s hs => by rw [hfound s hs]
  · have hflat : ∀ {f f' : Slot → List Failure}, (∀ s ∈ items, f' s = f s) →
        (items.flatMap f).Subperm (items'.flatMap f') := fun hf =>
      List.flatMap_congr hf ▸ (hsub.flatMap _).subperm
    refine (hown.append ?_).append (hflat fun s hs => by rw [hfound s hs])
    refine ((hctx items).flatMap_right _).subperm.trans (.trans ?_
      ((harrange items').symm.flatMap_right _).subperm)
    exact hflat fun s hs => by rw [hfound s hs]
  · have hordered : ctx.arrange items =
        (arrange items').filter fun s => ¬ ground.graph.Pruned ctx.config.pruneUnconsumed s := by
      rw [hsame, hfilter, hconsistent]
    have htasks : (ctx.arrange items).flatMap
          (fun s => (ground.searched ctx world pub s).called ground.graph s) =
        (arrange items').flatMap fun s =>
          (ground.searched (ctx.under config arrange) world pub' s).called ground.graph s :=
      flatMap_of_filter hordered (fun s hs => by rw [hfound s ((hctx items).mem_iff.1 hs)])
        fun s hs => (Ground.called_eq_nil (not_not.1 hs) _).1
    have hsettled : items.flatMap
          (fun s => (ground.searched ctx world pub s).recalled ground.graph s) =
        items'.flatMap fun s =>
          (ground.searched (ctx.under config arrange) world pub' s).recalled ground.graph s :=
      flatMap_of_filter hfilter (fun s hs => by rw [hfound s hs])
        fun s hs => (Ground.called_eq_nil (not_not.1 hs) _).2
    rw [hcalls hsame hconsistent, htasks, hsettled]
    rfl

section Sweeps

variable (hspares : config.Spares ctx.config) (hpolicy : config.missPolicy = ctx.config.missPolicy)
  (hctx : ∀ items, (ctx.arrange items).Perm items) (harrange : ∀ items, (arrange items).Perm items)
  (hsteady : ctx.host.Steady) (hverdict : ctx.host.Judges verdict)

include hspares hpolicy hctx harrange hsteady hverdict

/-- Where nothing is ready that is not left out, a batch changes nothing for the rest. -/
theorem batch_idle (number : Nat) {kind : Kind}
    (hidle : (ground.after pub).ready ctx.config.pruneUnconsumed kind = []) :
    Leads (Trails ctx config arrange start ground base verdict pub own calls)
      (batch (ctx.under config arrange) number kind)
      (fun _ => Trails ctx config arrange start ground base verdict pub own calls)
      fun _ _ => False := by
  intro p hp
  refine ((batch_beside hspares hpolicy hctx harrange hsteady hverdict number kind p.world
    hidle.symm).weaken (fun _ => id) ?_ fun _ _ => id) p hp
  rintro _ q ⟨-, hq⟩
  simpa [List.perm_nil.1 (hctx []), Publications.put_nil] using hq

theorem sweep_idle (number : Nat) {kinds : List Kind}
    (hidle : ∀ kind ∈ kinds, (ground.after pub).ready ctx.config.pruneUnconsumed kind = []) :
    Leads (Trails ctx config arrange start ground base verdict pub own calls)
      (sweep (ctx.under config arrange) number kinds)
      (fun _ => Trails ctx config arrange start ground base verdict pub own calls)
      fun _ _ => False := by
  induction kinds with
  | nil => exact .pure fun _ => id
  | cons kind rest ih =>
    rw [List.forall_mem_cons] at hidle
    unfold sweep
    refine (batch_idle hspares hpolicy hctx harrange hsteady hverdict number hidle.1).bind
      fun here => ?_
    exact (ih hidle.2).bind fun _ => .pure fun _ => id

theorem sweeps_idle (number fuel : Nat) (hidle : ground.Silent ctx.config.pruneUnconsumed pub) :
    Leads (Trails ctx config arrange start ground base verdict pub own calls)
      (sweeps (ctx.under config arrange) number fuel)
      (fun _ => Trails ctx config arrange start ground base verdict pub own calls)
      fun _ _ => False := by
  induction fuel generalizing number with
  | zero => exact .pure fun _ => id
  | succ fuel ih =>
    unfold sweeps
    refine (sweep_idle hspares hpolicy hctx harrange hsteady hverdict number hidle).bind
      fun count => ?_
    split
    · exact .pure fun _ => id
    · exact ih (number + 1)

/-- **A sweep beside one from which more is left out**, which may be silent. -/
theorem sweep_beside (number : Nat) (kinds : List Kind)
    (hp : Stands ctx start ground base verdict pub own calls p)
    (hd : ∀ s ∈ ground.detached, pub s ≠ none) :
    ∃ count q pub₁ own₁ calls₁, sweep ctx number kinds p = (.ok count, q) ∧
      Stands ctx start ground base verdict pub₁ own₁ calls₁ q ∧
      (∀ s ∈ ground.detached, pub₁ s ≠ none) ∧
      Leads (Trails ctx config arrange start ground base verdict pub own calls)
        (sweep (ctx.under config arrange) number kinds)
        (fun count' p' => count ≤ count' ∧
          Trails ctx config arrange start ground base verdict pub₁ own₁ calls₁ p')
        (fun _ _ => False) ∧
      (count = 0 → pub₁ = pub ∧
        ∀ kind ∈ kinds, (ground.after pub).ready ctx.config.pruneUnconsumed kind = []) := by
  induction kinds generalizing pub own calls p with
  | nil =>
    exact ⟨0, p, pub, own, calls, rfl, hp, hd, .pure fun _ hp => ⟨le_rfl, hp⟩,
      fun _ => ⟨rfl, List.forall_mem_nil _⟩⟩
  | cons kind rest ih =>
    obtain ⟨items, hitems⟩ : ∃ items, items =
        (ground.after pub).ready ctx.config.pruneUnconsumed kind := ⟨_, rfl⟩
    obtain ⟨here, q, hx, rfl, hq⟩ :=
      (batch_steady hctx hsteady hverdict hitems hd p.world).returns hp
    obtain ⟨others, r, pub₁, own₁, calls₁, hy, hr, hd₁, hbeside, hsilent⟩ :=
      ih hq fun s hs => (Ground.put_ready hitems).ne_none (hd s hs)
    refine ⟨items.length + others, r, pub₁, own₁, calls₁, ?_, hr, hd₁, ?_, fun hcount => ?_⟩
    · unfold sweep
      rw [bind_apply, hx]
      dsimp only
      rw [bind_apply, hy]
      rfl
    · unfold sweep
      refine (batch_beside hspares hpolicy hctx harrange hsteady hverdict number kind p.world
        hitems).bind fun here => ?_
      rintro p' ⟨hhere, hp'⟩
      refine (hbeside.bind fun others => .pure ?_) p' hp'
      rintro r' ⟨hothers, hr'⟩
      exact ⟨Nat.add_le_add hhere hothers, hr'⟩
    · obtain ⟨hnil, hothers⟩ := Nat.add_eq_zero_iff.1 hcount
      rw [List.length_eq_zero_iff] at hnil
      have hrest := hsilent hothers
      rw [hnil, Publications.put_nil] at hrest
      exact ⟨hrest.1, List.forall_mem_cons.2 ⟨hitems ▸ hnil, hrest.2⟩⟩

/-- **The sweeps beside those of a run that leaves out more**, which may come to their end first. -/
theorem sweeps_beside (number fuel : Nat)
    (hp : Stands ctx start ground base verdict pub own calls p)
    (hd : ∀ s ∈ ground.detached, pub s ≠ none) :
    ∃ count q pub₁ own₁ calls₁, sweeps ctx number fuel p = (.ok count, q) ∧
      Stands ctx start ground base verdict pub₁ own₁ calls₁ q ∧
      Leads (Trails ctx config arrange start ground base verdict pub own calls)
        (sweeps (ctx.under config arrange) number fuel)
        (fun _ => Trails ctx config arrange start ground base verdict pub₁ own₁ calls₁)
        fun _ _ => False := by
  induction fuel generalizing number pub own calls p with
  | zero => exact ⟨number, p, pub, own, calls, rfl, hp, .pure fun _ => id⟩
  | succ fuel ih =>
    obtain ⟨count, q, pub₁, own₁, calls₁, hx, hq, hd₁, hbeside, hsilent⟩ :=
      sweep_beside hspares hpolicy hctx harrange hsteady hverdict number Kind.scheduled hp hd
    unfold sweeps
    rw [bind_apply, hx]
    dsimp only
    by_cases hcount : count = 0
    · obtain ⟨rfl, hsilent⟩ := hsilent hcount
      rw [if_pos hcount]
      refine ⟨number, q, pub₁, own₁, calls₁, rfl, hq, hbeside.bind fun count' => ?_⟩
      rintro p' ⟨-, hp'⟩
      split
      · exact hp'
      · exact sweeps_idle hspares hpolicy hctx harrange hsteady hverdict (number + 1) fuel hsilent
          p' hp'
    · obtain ⟨last, r, pub₂, own₂, calls₂, hy, hr, hlater⟩ := ih (number + 1) hq hd₁
      rw [if_neg hcount]
      refine ⟨last, r, pub₂, own₂, calls₂, hy, hr, hbeside.bind fun count' => ?_⟩
      rintro p' ⟨hle, hp'⟩
      rw [if_neg (by omega)]
      exact hlater p' hp'

end Sweeps

end Run

end Batches

end Metamatch
