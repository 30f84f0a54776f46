import Mathlib.Data.Nat.Find
import Metamatch.Proofs.Run.Finish
import Metamatch.Proofs.Run.Timing

/-!
# Sweep numbers

* `MatchResult.sweep?`: the sweep that published a matcher, by its report.
* `Session.Timed`: every matcher is published in the sweep in which it is due.
* `sweeps_of_execute`: so it is in every run that returns, and the sweeps come to an end.
-/

namespace Metamatch

variable {σ : Type}

/-- The sweep that published a matcher. -/
def MatchResult.sweep? (result : MatchResult) (m : Slot) : Option Nat :=
  (result.report? m).bind (·.sweep)

theorem MatchResult.mem_sweeps {result : MatchResult} {sweep : Nat} :
    sweep ∈ result.reports.filterMap (·.sweep) ↔ ∃ m, result.sweep? m = some sweep := by
  rw [List.mem_filterMap]
  constructor
  · rintro ⟨report, hr, hs⟩
    obtain ⟨m, hm⟩ := List.mem_iff_getElem?.1 hr
    exact ⟨m, by rw [sweep?, report?, hm, Option.bind_some, hs]⟩
  · rintro ⟨m, hm⟩
    obtain ⟨report, hr, hs⟩ := Option.bind_eq_some_iff.1 hm
    exact ⟨report, List.mem_iff_getElem?.2 ⟨m, hr⟩, hs⟩

namespace Session

variable (session : Session) (host : Host σ) (world : σ) (result : MatchResult)

/-- Matchers that were searched for and published, each of which depends on the next. -/
structure Chain (chain : List Slot) : Prop where
  linked : chain.IsChain fun m d => d ∈ session.dependencies host world m
  published : ∀ m ∈ chain, (result.sweep? m).isSome ∧ m ∉ session.seeded host world

/-- Every matcher is published in the sweep in which it is due: sweep 0 for values taken over, and
for the others the first one after all their dependencies. -/
structure Timed : Prop where
  seeded : ∀ m ∈ session.seeded host world, result.sweep? m = some 0
  due : ∀ m ∉ session.seeded host world, ∀ sweep, result.sweep? m = some sweep →
    (∀ d ∈ session.dependencies host world m, (result.sweep? d).isSome) ∧
    sweep = dueSweep session.graph.rank (fun d => (result.sweep? d).getD 0)
      (session.dependencies host world m) m
  /-- The last sweep published nothing, the one before it did, unless the last is the first. -/
  count : result.sweeps = 1 + (result.reports.filterMap (·.sweep)).foldr max 0
  /-- There is one sweep for each matcher on the longest chain at most, and the last one. -/
  chain : ∃ chain, session.Chain host world result chain ∧
    (∀ other, session.Chain host world result other → other.length ≤ chain.length) ∧
    result.sweeps ≤ chain.length + 1

variable {session host world result} {ctx : RunContext σ} {ground : Ground} {pub : Publications}
  {p : Progress σ}

theorem Grounds.rank_eq (h : session.Grounds host world ground) :
    ground.graph.rank = session.graph.rank := by
  funext m
  have hkind := h.map_get?_eq (·.kind) (fun _ _ _ _ => rfl) m
  rw [Graph.rank, Graph.rank]
  cases hg : ground.graph.get? m <;> cases hs : session.graph.get? m <;> simp_all

/-- Before the first sweep only values taken over are published. -/
theorem Grounds.timely (h : session.Grounds host world ground) (prune : Bool) :
    ground.Timely prune (4 * 1) (session.seedPublications host world) := by
  have hmem : ∀ m, session.seedPublications host world m ≠ none → m ∈ ground.detached :=
    fun m hm => (h.detached m).2 (seedPublications_ne_none.1 hm)
  refine ⟨fun m hm d hd => ?_, fun m hm => ⟨h.published m hm, ?_⟩, fun m hm hmd => ?_,
    fun m _ _ => ?_⟩
  · rw [Ground.refs, if_pos (hmem m hm)] at hd
    cases hd
  · rw [Publications.sweep, seedPublications]
    cases (session.seeds host world).lookup m <;> rfl
  · exact absurd (hmem m hm) hmd
  · have : 1 ≤ ground.due (session.seedPublications host world) m := one_le_dueSweep
    omega

theorem exists_longest {P : List Slot → Prop} {bound : Nat} (hnil : P [])
    (hbound : ∀ chain, P chain → chain.length ≤ bound) :
    ∃ chain, P chain ∧ ∀ other, P other → other.length ≤ chain.length := by
  classical
  obtain ⟨chain, hchain, hlength⟩ := Nat.findGreatest_spec
    (P := fun n => ∃ chain, P chain ∧ chain.length = n) (Nat.zero_le bound) ⟨[], hnil, rfl⟩
  exact ⟨chain, hchain, fun other hother =>
    hlength ▸ Nat.le_findGreatest (hbound other hother) ⟨other, hother, rfl⟩⟩

namespace Finished

theorem timely (h : session.Finished ctx world ground pub result p) :
    ground.Timely ctx.config.pruneUnconsumed (4 * result.sweeps) pub ∧ 1 ≤ result.sweeps :=
  (h.grounds.timely _).sweeps (Nat.le_refl 1) h.sweeps

theorem sweep?_eq (h : session.Finished ctx world ground pub result p) (m : Slot) :
    result.sweep? m = (pub m).map (·.sweep) := by
  cases hm : ground.graph.get? m with
  | none =>
    have hpub : pub m = none := by
      by_contra hne
      obtain ⟨node, hnode⟩ := Graph.lt_size_iff.1 (h.standing.sound.inRange m hne)
      rw [hm] at hnode
      cases hnode
    cases hr : result.report? m with
    | none => rw [MatchResult.sweep?, hr, hpub]; rfl
    | some report =>
      obtain ⟨node, hnode, -⟩ := h.tells.get? hr
      rw [h.standing.graph, Ground.get?_after, hm] at hnode
      cases hnode
  | some node =>
    obtain ⟨report, hr, ht⟩ := h.report hm
    rw [MatchResult.sweep?, hr, Option.bind_some, ht.sweep]
    rfl

theorem sweep?_isSome (h : session.Finished ctx world ground pub result p) {m : Slot} :
    (result.sweep? m).isSome ↔ pub m ≠ none := by
  rw [h.sweep?_eq, Option.isSome_map, Option.isSome_iff_ne_none]

theorem getD_sweep? (h : session.Finished ctx world ground pub result p) :
    (fun d => (result.sweep? d).getD 0) = pub.sweep := by
  funext d
  rw [h.sweep?_eq, Publications.sweep]
  cases pub d <;> rfl

theorem chain_iff (h : session.Finished ctx world ground pub result p) {chain : List Slot} :
    session.Chain ctx.host world result chain ↔
      (chain.IsChain fun m d => d ∈ ground.refs m) ∧
        ∀ m ∈ chain, pub m ≠ none ∧ m ∉ ground.detached := by
  simp only [h.grounds.refs_eq, h.grounds.detached, ← h.sweep?_isSome]
  exact ⟨fun hc => ⟨hc.linked, hc.published⟩, fun hc => ⟨hc.1, hc.2⟩⟩

theorem sweep?_of_published (h : session.Finished ctx world ground pub result p) {m : Slot}
    (hm : pub m ≠ none) : result.sweep? m = some (pub.sweep m) := by
  obtain ⟨published, hp⟩ := Option.ne_none_iff_exists'.1 hm
  rw [h.sweep?_eq, Publications.sweep, hp]
  rfl

theorem sweep_lt (h : session.Finished ctx world ground pub result p) {m : Slot}
    (hm : pub m ≠ none) : pub.sweep m < result.sweeps := by
  obtain ⟨ht, hpos⟩ := h.timely
  by_cases hmd : m ∈ ground.detached
  · rw [(ht.detached m hmd).2]
    exact hpos
  · have := (ht.past m hm hmd).2
    omega

/-- A publication is in the sweep before the last, unless the last is the first. -/
theorem exists_last (h : session.Finished ctx world ground pub result p) :
    result.sweeps = 1 ∨ ∃ m, pub m ≠ none ∧ pub.sweep m + 1 = result.sweeps :=
  h.sweeps.exists_last (.inl rfl)

theorem sweeps_eq (h : session.Finished ctx world ground pub result p) :
    result.sweeps = 1 + (result.reports.filterMap (·.sweep)).foldr max 0 := by
  have hpos := h.timely.2
  have hle : (result.reports.filterMap (·.sweep)).foldr max 0 ≤ result.sweeps - 1 := by
    refine foldr_max_le_iff.2 ⟨Nat.zero_le _, fun sweep hs => ?_⟩
    obtain ⟨m, hm⟩ := MatchResult.mem_sweeps.1 hs
    have hpub : pub m ≠ none := h.sweep?_isSome.1 (by simp [hm])
    rw [h.sweep?_of_published hpub, Option.some.injEq] at hm
    have := h.sweep_lt hpub
    omega
  rcases h.exists_last with hone | ⟨m, hm, hsweep⟩
  · omega
  · have := le_foldr_max (b := 0) (MatchResult.mem_sweeps.2 ⟨m, h.sweep?_of_published hm⟩)
    omega

theorem sweeps_le_chain (h : session.Finished ctx world ground pub result p) :
    ∃ chain, session.Chain ctx.host world result chain ∧
      (∀ other, session.Chain ctx.host world result other → other.length ≤ chain.length) ∧
      result.sweeps ≤ chain.length + 1 := by
  have ht := h.timely.1
  have hrange := h.standing.sound.inRange
  obtain ⟨chain, hchain, hlongest⟩ := exists_longest
    (P := session.Chain ctx.host world result) ⟨.nil, by simp⟩ fun chain hc =>
      ht.chain_length_le hrange (h.chain_iff.1 hc).1 (h.chain_iff.1 hc).2
  refine ⟨chain, hchain, hlongest, ?_⟩
  rcases h.exists_last with hone | ⟨m, hm, hsweep⟩
  · omega
  · by_cases hmd : m ∈ ground.detached
    · have := (ht.detached m hmd).2
      omega
    · obtain ⟨rest, hlinked, hall, hlength⟩ := ht.exists_chain hrange hm hmd
      have := hlongest _ (h.chain_iff.2 ⟨hlinked, hall⟩)
      omega

theorem timed (h : session.Finished ctx world ground pub result p) :
    session.Timed ctx.host world result := by
  have ht := h.timely.1
  refine ⟨fun m hm => ?_, fun m hm sweep hs => ?_, h.sweeps_eq, h.sweeps_le_chain⟩
  · obtain ⟨hpub, hsweep⟩ := ht.detached m ((h.grounds.detached m).2 hm)
    rw [h.sweep?_of_published hpub, hsweep]
  · have hpub : pub m ≠ none := h.sweep?_isSome.1 (by simp [hs])
    rw [h.sweep?_of_published hpub, Option.some.injEq] at hs
    rw [h.getD_sweep?, ← h.grounds.refs_eq, ← h.grounds.rank_eq, ← hs]
    exact ⟨fun d hd => h.sweep?_isSome.2 (ht.closed m hpub d hd),
      (ht.past m hpub fun hmd => hm ((h.grounds.detached m).1 hmd)).1⟩

end Finished

end Session

/-- **Every matcher is published in the sweep in which it is due**, in every run that returns; and
whatever becomes of a run, its sweeps come to an end by themselves, so that a larger bound on their
number makes no difference. -/
theorem sweeps_of_execute {session : Session} {arrange : List Slot → List Slot}
    (hg : session.graph.Built) (harrange : ∀ items, (arrange items).Perm items)
    (lists : List (List String)) (host : Host σ) (world : σ) :
    (∀ result, (session.execute arrange lists host world).1 = .ok result →
      session.Timed host world result) ∧
    ∀ p, session.last.forM (Run.seed (session.context arrange lists host))
        { world, graph := session.graph } = (.ok (), p) →
      ∀ fuel, session.graph.size < fuel →
        Run.sweeps (session.context arrange lists host) 1 fuel p =
          Run.sweeps (session.context arrange lists host) 1 (session.graph.size + 1) p := by
  constructor
  · intro result hresult
    obtain ⟨ground, pub, h⟩ :=
      (session.execute_ends hg harrange lists host world).of_ok hresult
    exact h.timed
  · intro p hp fuel hfuel
    obtain ⟨ground, hground, hat⟩ := Leads.ok (Session.start_leads hg) rfl hp
    have hremaining : ground.remaining (session.seedPublications host world) ≤
        session.graph.size := hground.size_eq ▸ Ground.remaining_le
    exact Run.sweeps_eq harrange hground.published hat (Nat.lt_of_le_of_lt hremaining hfuel)
      (Nat.lt_succ_of_le hremaining)

theorem sweeps_of_sample :
    ∃ result, (Sample.run (Sample.calls ++ Sample.cycle)).1 = .ok result ∧ result.sweeps = 4 ∧
      (Sample.session (Sample.calls ++ Sample.cycle)).Timed Sample.host 0 result := by
  obtain ⟨htimed, -⟩ := sweeps_of_execute
    (Sample.built (Sample.calls ++ Sample.cycle) (by decide +kernel))
    (fun items => items.reverse_perm) [["B", "A"]] Sample.host 0
  have hsweeps : (Sample.run (Sample.calls ++ Sample.cycle)).1.toOption.map (·.sweeps) =
      some 4 := by
    decide +kernel
  change ∀ result, (Sample.run (Sample.calls ++ Sample.cycle)).1 = .ok result → _ at htimed
  generalize (Sample.run (Sample.calls ++ Sample.cycle)).1 = outcome at htimed hsweeps
  cases outcome with
  | error e => cases hsweeps
  | ok result => exact ⟨result, rfl, Option.some.inj hsweeps, htimed result rfl⟩

end Metamatch
