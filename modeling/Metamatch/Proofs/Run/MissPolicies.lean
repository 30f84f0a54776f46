import Metamatch.Proofs.Run.Configs

/-!
# Policies on misses

To force misses removes results and does nothing else: what is left is what is found when misses
only drop constraints.

* `Session.Supplied`: a matcher all of whose dependencies have values.
* `Session.Finished.values_of_forced`: such a matcher has the same values under both policies, any
  other has none once misses are forced.
* `reports_of_missPolicies`: what that means for the reports.
-/

namespace Metamatch

variable {σ : Type}

namespace Session

variable {session : Session} {host : Host σ} {world : σ} {config config' : Config}
  {arrange arrange' : List Slot → List Slot} {lists : List (List String)}
  {ground ground' : Ground} {pub pub' : Publications} {result result' : MatchResult}
  {p p' : Progress σ} {m : Slot} {v : Slot → List Entity}

/-- All that a matcher depends on, directly or through others, has values. -/
def Supplied (session : Session) (host : Host σ) (world : σ) (v : Slot → List Entity) (m : Slot) :
    Prop :=
  ∀ d, Relation.TransGen (fun m d => d ∈ session.dependencies host world m) m d → v d ≠ []

theorem supplied_iff : session.Supplied host world v m ↔
    ∀ d ∈ session.dependencies host world m, v d ≠ [] ∧ session.Supplied host world v d := by
  constructor
  · exact fun h d hd => ⟨h d (.single hd), fun e he => h e (.head hd he)⟩
  · intro h e he
    obtain ⟨d, hd, hde⟩ := Relation.TransGen.head'_iff.1 he
    rcases Relation.reflTransGen_iff_eq_or_transGen.1 hde with rfl | hde
    · exact (h _ hd).1
    · exact (h d hd).2 e hde

theorem exists_of_not_supplied (h : ¬ session.Supplied host world v m) :
    ∃ d ∈ session.dependencies host world m, v d = [] ∨ ¬ session.Supplied host world v d := by
  rw [supplied_iff] at h
  push Not at h
  obtain ⟨d, hd, hmiss⟩ := h
  exact ⟨d, hd, or_iff_not_imp_left.2 hmiss⟩

/-! ## Values under both policies -/

section Policies

variable (h : (session.withConfig config).Finished
    ((session.withConfig config).context arrange lists host) world ground pub result p)
  (h' : (session.withConfig config').Finished
    ((session.withConfig config').context arrange' lists host) world ground' pub' result' p')
  (hforce : config.missPolicy = .forceEmpty) (hdrop : config'.missPolicy = .disableConstraint)
  (hprune : config'.pruneUnconsumed = config.pruneUnconsumed) (hsteady : host.Steady)

include h h' hforce hdrop hprune hsteady

/-- One matcher, once it is known of all that it depends on. -/
theorem Finished.values_of_forced_step (hm : pub m ≠ none)
    (hlookup : (session.seeds host world).lookup m = none)
    (ih : ∀ d ∈ session.dependencies host world m,
      (session.Supplied host world pub'.values d → pub.values d = pub'.values d) ∧
      (¬ session.Supplied host world pub'.values d → pub.values d = [])) :
    (session.Supplied host world pub'.values m → pub.values m = pub'.values m) ∧
      (¬ session.Supplied host world pub'.values m → pub.values m = []) := by
  have hm' : pub' m ≠ none := published_of_spares (fun hp => hprune ▸ hp) h h' hm
  have hvalues : pub.values m = (session.withConfig config).equation lists host world
      pub.values m := h.solves_of_unseeded hsteady hlookup hm
  have hvalues' : pub'.values m = (session.withConfig config').equation lists host world
      pub'.values m := h'.solves_of_unseeded hsteady hlookup hm'
  rw [equation_of_forceEmpty hforce hdrop hlookup] at hvalues
  constructor
  · intro hsupplied
    have hd : ∀ d ∈ session.dependencies host world m, pub'.values d ≠ [] ∧
        pub.values d = pub'.values d :=
      fun d hd => ⟨(supplied_iff.1 hsupplied d hd).1,
        (ih d hd).1 (supplied_iff.1 hsupplied d hd).2⟩
    have hmiss : ¬ ∃ d ∈ session.dependencies host world m, pub.values d = [] := by
      rintro ⟨d, hdm, hnil⟩
      exact (hd d hdm).1 ((hd d hdm).2.symm.trans hnil)
    rw [hvalues, if_neg hmiss, hvalues']
    have hg' : (session.withConfig config').Grounds host world ground' := h'.grounds
    exact hg'.equation_of_dependencies hsteady (h'.unpruned hm').1 hlookup fun d hdm => (hd d hdm).2
  · intro hsupplied
    obtain ⟨d, hdm, hd⟩ := exists_of_not_supplied hsupplied
    have hmiss : pub.values d = [] := by
      by_cases hs : session.Supplied host world pub'.values d
      · exact ((ih d hdm).1 hs).trans (hd.resolve_right (not_not.2 hs))
      · exact (ih d hdm).2 hs
    rw [hvalues, if_pos ⟨d, hdm, hmiss⟩]

/-- **To force misses leaves what is supplied as it is**, and nothing of the rest. -/
theorem Finished.values_of_forced (m : Slot) :
    (session.Supplied host world pub'.values m → pub.values m = pub'.values m) ∧
      (¬ session.Supplied host world pub'.values m → pub.values m = []) := by
  have hspares : config'.Spares config := fun hp => hprune ▸ hp
  have hspares' : config.Spares config' := fun hp => hprune.symm ▸ hp
  by_cases hm : pub m = none
  · have hm' : pub' m = none := by
      by_contra hne
      exact published_of_spares hspares' h' h hne hm
    rw [Publications.values, Publications.values, hm, hm']
    exact ⟨fun _ => rfl, fun _ => rfl⟩
  · refine h.induction (motive := fun m =>
      (session.Supplied host world pub'.values m → pub.values m = pub'.values m) ∧
        (¬ session.Supplied host world pub'.values m → pub.values m = [])) (fun m hm ih => ?_) hm
    cases hlookup : (session.seeds host world).lookup m with
    | none =>
      exact h.values_of_forced_step h' hforce hdrop hprune hsteady hm hlookup
        fun d hd => (ih d hd).2
    | some values =>
      -- what is taken over depends on nothing, hence is supplied
      have hseeded : m ∈ session.seeded host world := lookup_seeds_ne_none.1 (by simp [hlookup])
      have hsupplied : session.Supplied host world pub'.values m := by
        rw [supplied_iff, dependencies, if_pos hseeded]
        simp
      have hvalues : pub.values m = values := h.values_of_taken hlookup
      exact ⟨fun _ => hvalues.trans (h'.values_of_taken hlookup).symm,
        fun hn => absurd hsupplied hn⟩

theorem Finished.reports_of_forced (m : Slot) :
    result.sweep? m = result'.sweep? m ∧
      (∀ outcome ∈ [Outcome.unresolved, .pruned],
        result.outcome? m = some outcome ↔ result'.outcome? m = some outcome) ∧
      (session.Supplied host world result'.values m → result.values m = result'.values m) ∧
      (¬ session.Supplied host world result'.values m → result.values m = []) ∧
      ∀ values, (session.seeds host world).lookup m = some values →
        result.values m = values ∧ result'.values m = values := by
  have hspares : config'.Spares config := fun hp => hprune ▸ hp
  have hspares' : config.Spares config' := fun hp => hprune.symm ▸ hp
  have hunpruned : (session.withConfig config).Unpruned host world m ↔
      (session.withConfig config').Unpruned host world m :=
    ⟨.of_spares hspares, .of_spares hspares'⟩
  have hvalues : result'.values = pub'.values := funext h'.values_eq
  have hsplit := h.values_of_forced h' hforce hdrop hprune hsteady m
  rw [hvalues, h.values_eq]
  refine ⟨?_, fun outcome houtcome => ?_, hsplit.1, hsplit.2,
    fun values hlookup => ⟨h.values_of_taken hlookup, h'.values_of_taken hlookup⟩⟩
  · by_cases hm : pub m = none
    · have hm' : pub' m = none := by
        by_contra hne
        exact published_of_spares hspares' h' h hne hm
      rw [h.sweep?_eq, h'.sweep?_eq, hm, hm']
    · rw [h.sweep?_of_published hm,
        h'.sweep?_of_published (published_of_spares hspares h h' hm),
        sweep_of_spares hspares h h' hm]
  · rcases List.mem_pair.1 houtcome with rfl | rfl
    · exact h.unresolved_iff.trans ((and_congr_left' hunpruned).trans h'.unresolved_iff.symm)
    · exact h.pruned_iff.trans ((and_congr_right' (not_congr hunpruned)).trans h'.pruned_iff.symm)

end Policies

end Session

/-! ## Reports -/

open Session Run

namespace Session

variable {session : Session} {host : Host σ} {world : σ} {config config' : Config}
  {arrange arrange' : List Slot → List Slot} {lists : List (List String)} {start : Progress σ}
  {ground ground' : Ground} {pub pub' : Publications} {dropped : MatchResult} {count count' : Nat}
  {q q' : Progress σ}

/-- Once misses are forced, there is nothing to name that cannot be named without. -/
theorem Closes.returns_of_forced
    (h : (session.withConfig config).Closes arrange lists host world start ground pub count q)
    (h' : (session.withConfig config').Closes arrange' lists host world start ground' pub' count'
      q')
    (hforce : config.missPolicy = .forceEmpty) (hdrop : config'.missPolicy = .disableConstraint)
    (hprune : config'.pruneUnconsumed = config.pruneUnconsumed) (hsteady : host.Steady)
    (hdropped : ((session.withConfig config').execute arrange' lists host world).1 = .ok dropped) :
    ∃ forced, ((session.withConfig config).execute arrange lists host world).1 = .ok forced := by
  have hthins : List.Forall₂ Node.Thins q'.graph.nodes q.graph.nodes := by
    refine Finished.forall₂_nodes h'.finished h.finished fun m node _ => ⟨rfl, fun _ => ?_⟩
    have hsplit := h.finished.values_of_forced h'.finished hforce hdrop hprune hsteady m
    by_cases hm : session.Supplied host world pub'.values m
    · exact .inr (hsplit.1 hm)
    · exact .inl (hsplit.2 hm)
  exact h'.returns_of_thins h hsteady hthins hdropped

end Session

/-- **To force misses only removes results.** Matchers are published in the same sweeps, those that
depend on a miss are empty, and the others have the same values. -/
theorem reports_of_missPolicies {session : Session} (hg : session.graph.Built)
    {arrange arrange' : List Slot → List Slot} (harrange : ∀ items, (arrange items).Perm items)
    (harrange' : ∀ items, (arrange' items).Perm items) {host : Host σ} (hsteady : host.Steady)
    {verdict : String → Decision} (hverdict : host.Judges verdict) (lists : List (List String))
    (world : σ) {dropped : MatchResult}
    (hdropped : ((session.withMissPolicy .disableConstraint).execute arrange' lists host world).1 =
      .ok dropped) :
    ∃ forced, ((session.withMissPolicy .forceEmpty).execute arrange lists host world).1 =
        .ok forced ∧
      ∀ m, forced.sweep? m = dropped.sweep? m ∧
        (∀ outcome ∈ [Outcome.unresolved, .pruned],
          forced.outcome? m = some outcome ↔ dropped.outcome? m = some outcome) ∧
        (session.Supplied host world dropped.values m → forced.values m = dropped.values m) ∧
        (¬ session.Supplied host world dropped.values m → forced.values m = []) ∧
        ∀ values, (session.seeds host world).lookup m = some values →
          forced.values m = values ∧ dropped.values m = values := by
  rcases session.execute_withConfigs hg harrange harrange' hsteady hverdict lists world
      { session.config with missPolicy := .forceEmpty }
      { session.config with missPolicy := .disableConstraint } with
    ⟨e, p, -, hexecute⟩ | ⟨start, ground, pub, count, q, ground', pub', count', q', h, h'⟩
  · rw [withMissPolicy, hexecute] at hdropped
    cases hdropped
  · obtain ⟨forced, hforced⟩ := h.returns_of_forced h' rfl rfl rfl hsteady hdropped
    obtain ⟨hfinished, -⟩ := h.of_ok hforced
    obtain ⟨hfinished', -⟩ := h'.of_ok hdropped
    exact ⟨forced, hforced, hfinished.reports_of_forced hfinished' rfl rfl rfl hsteady⟩

namespace Sample

/-- Matchers behind one that is found and behind one that is missed, and one with earlier values. -/
def forked : List ClientCall :=
  [.exactClass "A", .exactClass "C", .all .cls [.superclass 0, .key "subclass"],
    .all .cls [.superclass 1, .key "lost"], .all .method [.declaringClass 3, .key "member"],
    .first .cls [.superclass 1, .key "kept"]]

/-- A run of these under either policy on misses. -/
def fork (missPolicy : MissPolicy) : Except RunError MatchResult × Progress Nat :=
  ((session forked).withMissPolicy missPolicy).execute id [["B", "A"]] host 0

end Sample

/-- The subclass is found either way, the member only where the miss is no constraint. -/
theorem reports_of_forked :
    ∃ forced dropped, (Sample.fork .forceEmpty).1 = .ok forced ∧
      (Sample.fork .disableConstraint).1 = .ok dropped ∧
      (∀ m, forced.sweep? m = dropped.sweep? m) ∧
      forced.values 2 = dropped.values 2 ∧ dropped.values 2 ≠ [] ∧
      forced.values 4 = [] ∧ dropped.values 4 ≠ [] := by
  have hdropped : ∀ dropped ∈ (Sample.fork .disableConstraint).1.toOption,
      dropped.values 0 ≠ [] ∧ dropped.values 1 = [] ∧ dropped.values 2 ≠ [] ∧
        dropped.values 4 ≠ [] := by
    decide +kernel
  have hdependencies : (Sample.session Sample.forked).dependencies Sample.host 0 2 = [0] ∧
      (Sample.session Sample.forked).dependencies Sample.host 0 0 = [] ∧
      3 ∈ (Sample.session Sample.forked).dependencies Sample.host 0 4 ∧
      1 ∈ (Sample.session Sample.forked).dependencies Sample.host 0 3 := by
    decide +kernel
  obtain ⟨hchild, hroot, hmember, hlost⟩ := hdependencies
  have hall := fun dropped => @reports_of_missPolicies _ (Sample.session Sample.forked)
    (Sample.built _ (by decide +kernel)) id id (fun items => .refl items)
    (fun items => .refl items) _ Sample.steady (fun _ => .proceed) (fun _ _ => rfl) [["B", "A"]] 0
    dropped
  have hok : (Sample.fork .disableConstraint).1.toOption.isSome = true := by decide +kernel
  obtain ⟨dropped, hdrop⟩ := Option.isSome_iff_exists.1 hok
  obtain ⟨h0, h1, h2, h4⟩ := hdropped dropped hdrop
  obtain ⟨forced, hforced, hreports⟩ := hall dropped (eq_ok_of_toOption hdrop)
  refine ⟨forced, dropped, hforced, eq_ok_of_toOption hdrop, fun m => (hreports m).1, ?_, h2, ?_,
    h4⟩
  · refine (hreports 2).2.2.1 (Session.supplied_iff.2 ?_)
    rw [hchild]
    refine List.forall_mem_singleton.2 ⟨h0, Session.supplied_iff.2 ?_⟩
    rw [hroot]
    simp
  · exact (hreports 4).2.2.2.1 fun hsupplied => hsupplied 1 (.tail (.single hmember) hlost) h1

end Metamatch
