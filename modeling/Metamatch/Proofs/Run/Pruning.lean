import Metamatch.Proofs.Run.Beside

/-!
# Pruning

What a run leaves out is asked for by nothing: no matcher depends on it, no observer waits for it
and no key names it. So a run that leaves it out comes to the same about everything else.

* `Session.Finished.publication_of_spares`: what is published by the run that leaves out more is
  published by the other, with the same values in the same sweep.
* `Session.Closes.beside`: what both runs have called and recorded.
* `Session.Closes.failures_of_spares`: what fails in one fails in the other as well.
* `Session.Closes.calls_of_spares`: both runs call the same observers.
* `reports_of_pruning`: what that means for results.
-/

namespace Metamatch

variable {σ : Type}

/-! ## Calls of observers -/

namespace Recorded

variable {start g g' : Graph} {steps steps' : List Step}

theorem count_call (h : Recorded start steps g) {s : Slot} (hs : start.valuation s = none)
    (number : Nat) (values : List Entity) :
    ((steps.flatMap Step.notices).map Notice.call).count (s, number, values) =
      ((g.valuation s).toList.flatMap fun values => start.callsOf (s, values)).count
        (s, number, values) := by
  have hfilter : ((steps.flatMap Step.notices).map Notice.call).filter (·.1 = s) =
      ((steps.flatMap Step.notices).filter (·.slot = s)).map Notice.call := by
    rw [List.filter_map]
    rfl
  rw [← (h.map_call_slot_perm hs).count_eq, ← hfilter, List.count_filter (by simp)]

/-- Steps that publish the same wherever there is an observer lead to the same calls. -/
theorem calls_perm_of_observed (h : Recorded start steps g) (h' : Recorded start steps' g')
    (hstart : ∀ s, start.valuation s = none)
    (hsame : ∀ s, (∀ empty, start.observers s empty = []) ∨ g'.valuation s = g.valuation s) :
    ((steps.flatMap Step.notices).map Notice.call).Perm
      ((steps'.flatMap Step.notices).map Notice.call) := by
  refine List.perm_iff_count.2 fun (s, number, values) => ?_
  rw [h.count_call (hstart s), h'.count_call (hstart s)]
  rcases hsame s with hnone | hvaluation
  · have hcalls : ∀ given : List (List Entity),
        given.flatMap (fun values => start.callsOf (s, values)) = [] := fun given =>
      List.flatMap_eq_nil_iff.2 fun values _ => by simp [Graph.callsOf, hnone]
    rw [hcalls, hcalls]
  · rw [hvaluation]

end Recorded

namespace Session

open Run

variable {session : Session} {host : Host σ} {world : σ} {config config' : Config}
  {arrange arrange' : List Slot → List Slot} {lists : List (List String)} {start : Progress σ}
  {ground ground' : Ground} {pub pub' : Publications} {result result' : MatchResult}
  {p p' q q' : Progress σ} {count count' : Nat} {m : Slot} {verdict : String → Decision}
  {crash : Nat → List Entity → Option Payload}

theorem recorded_execute (hg : session.graph.Built)
    (harrange : ∀ items, (arrange items).Perm items) (lists : List (List String)) (host : Host σ)
    (world : σ) :
    Recorded session.graph (session.execute arrange lists host world).2.steps
      (session.execute arrange lists host world).2.graph := by
  refine (session.execute_ends hg harrange lists host world).state
    (S := fun p => Recorded session.graph p.steps p.graph) ?_ ?_
  · rintro result p ⟨ground, pub, h⟩
    exact h.standing.recorded
  · rintro e p ⟨-, ground, pub, h⟩
    exact h.recorded

theorem notices_perm (session : Session) (arrange : List Slot → List Slot)
    (lists : List (List String)) (host : Host σ) (world : σ) :
    (session.execute arrange lists host world).2.notices.Perm
      ((session.execute arrange lists host world).2.steps.flatMap Step.notices) := by
  have hnoted := session.notices_execute arrange lists host world
  refine (List.reverse_perm _).symm.trans ?_
  rw [hnoted]
  exact (List.reverse_perm _).flatMap_right _

theorem Grounds.unasked (hg : session.Grounds host world ground) {node : Node}
    (hnode : session.graph.get? m = some node) (hm : ¬ session.Unpruned host world m) :
    ¬ node.Observed ∧ node.key = none := by
  rw [hg.unpruned_iff hnode] at hm
  push Not at hm
  exact ⟨hm.2.2.1, hm.2.2.2⟩

/-! ## Publications -/

section Spares

variable (hspares : config'.Spares config) (hpolicy : config'.missPolicy = config.missPolicy)
  (hsteady : host.Steady)

include hspares hpolicy hsteady

theorem Finished.values_of_spares
    (h : (session.withConfig config).Finished
      ((session.withConfig config).context arrange lists host) world ground pub result p)
    (h' : (session.withConfig config').Finished
      ((session.withConfig config').context arrange' lists host) world ground' pub' result' p')
    (hm : pub m ≠ none) : pub'.values m = pub.values m := by
  have hground : (session.withConfig config).Grounds host world ground := h.grounds
  refine h.induction (motive := fun m => pub'.values m = pub.values m) (fun m hm ih => ?_) hm
  have hm' := published_of_spares hspares h h' hm
  cases hlookup : (session.seeds host world).lookup m with
  | some values =>
    have hvalues : pub.values m = values := h.values_of_taken hlookup
    exact (h'.values_of_taken hlookup).trans hvalues.symm
  | none =>
    rw [h.solves_of_unseeded hsteady hlookup hm, h'.solves_of_unseeded hsteady hlookup hm',
      equation_of_samePolicy hpolicy hlookup]
    exact hground.equation_of_dependencies hsteady (h.unpruned hm).1 hlookup fun d hd => (ih d hd).2

/-- **What the run that leaves out more publishes, the other publishes as well**, with the same
values in the same sweep. -/
theorem Finished.publication_of_spares
    (h : (session.withConfig config).Finished
      ((session.withConfig config).context arrange lists host) world ground pub result p)
    (h' : (session.withConfig config').Finished
      ((session.withConfig config').context arrange' lists host) world ground' pub' result' p')
    (hm : pub m ≠ none) : pub' m = pub m := by
  have hvalues := h.values_of_spares hspares hpolicy hsteady h' hm
  have hsweep := sweep_of_spares hspares h h' hm
  obtain ⟨published, hp⟩ := Option.ne_none_iff_exists'.1 hm
  obtain ⟨published', hp'⟩ := Option.ne_none_iff_exists'.1 (published_of_spares hspares h h' hm)
  rw [Publications.values, Publications.values, hp, hp'] at hvalues
  rw [Publications.sweep, Publications.sweep, hp, hp'] at hsweep
  obtain ⟨values, sweep⟩ := published
  obtain ⟨values', sweep'⟩ := published'
  rw [hp, hp']
  exact congrArg some (by simpa using ⟨hvalues, hsweep⟩)

theorem Finished.publication_of_unpruned
    (h : (session.withConfig config).Finished
      ((session.withConfig config).context arrange lists host) world ground pub result p)
    (h' : (session.withConfig config').Finished
      ((session.withConfig config').context arrange' lists host) world ground' pub' result' p')
    (hm : (session.withConfig config).Unpruned host world m) : pub' m = pub m := by
  by_cases hnone : pub m = none
  · rw [hnone]
    by_contra hne
    exact (published_iff_of_spares hspares h h' hm).1 hne hnone
  · exact h.publication_of_spares hspares hpolicy hsteady h' hnone

end Spares

/-! ## Failures -/

section Failures

variable {base : Progress σ} {notes : List Note} {calls : List (Slot × Nat × List Entity)}
  {own : List Failure}

open Progress (Stands)

namespace Closes

/-- **Both runs side by side**: what the run that leaves out more has called and recorded, crashes
of observers apart, the other has as well. -/
theorem beside (hspares : config'.Spares config) (hpolicy : config'.missPolicy = config.missPolicy)
    (harrange : ∀ items, (arrange items).Perm items)
    (harrange' : ∀ items, (arrange' items).Perm items) (hsteady : host.Steady)
    (hverdict : host.Judges verdict)
    (h : (session.withConfig config).Closes arrange lists host world start ground pub count q)
    (h' : (session.withConfig config').Closes arrange' lists host world start ground' pub' count'
      q') :
    ∃ base pub pub' own own' calls calls', Progress.Opens host world base ∧
      Stands ((session.withConfig config).context arrange lists host) session.graph ground base
        verdict pub own calls q ∧
      Stands ((session.withConfig config').context arrange' lists host) session.graph ground base
        verdict pub' own' calls' q' ∧
      own.Subperm own' ∧ (arrange = arrange' → Consistent arrange' → calls = calls') := by
  have hground : (session.withConfig config).Grounds host world ground := h.finished.grounds
  have hdetached : ∀ s, session.seedPublications host world s ≠ none → s ∈ ground.detached :=
    fun s hs => (hground.detached s).2 (seedPublications_ne_none.1 hs)
  obtain ⟨base, calls, notes, hbase, hsince, hsplit⟩ := exists_opening hverdict h.seeded
  have hstands : Stands ((session.withConfig config).context arrange lists host) session.graph
      ground base verdict (session.seedPublications host world) [] calls start :=
    ⟨h.started, notes, hsince, hsplit⟩
  have hstands' : Stands ((session.withConfig config').context arrange' lists host) session.graph
      ground base verdict (session.seedPublications host world) [] calls start := by
    refine ⟨⟨h.started.graph, ⟨h.started.sound.inRange, h.started.sound.closed, ?_⟩,
      h.started.recorded, h.started.safe⟩, notes, hsince, hsplit⟩
    exact fun s published hs hd => absurd (hdetached s (by simp [hs])) hd
  have hcovers : ground.Covers config.pruneUnconsumed (session.seedPublications host world)
      (session.seedPublications host world) :=
    ⟨fun _ _ => rfl, fun s hs => ⟨hground.published s hs, hground.published s hs⟩⟩
  obtain ⟨last, r, pub₁, own₁, calls₁, hsweeps, hr, hbeside⟩ :=
    @sweeps_beside _ ((session.withConfig config).context arrange lists host) config' arrange'
      session.graph ground base verdict _ _ _ start hspares hpolicy harrange harrange' hsteady
      hverdict 1 (start.graph.size + 1) hstands hground.published
  obtain ⟨rfl, rfl⟩ : last = count ∧ r = q := by
    have hboth := hsweeps.symm.trans h.sweeps
    rwa [Prod.mk.injEq, Except.ok.injEq] at hboth
  obtain ⟨pub₂, own₂, calls₂, hr', -, hown, hcalls⟩ :=
    hbeside.ok ⟨_, _, _, hstands', hcovers, .refl _, fun _ _ => rfl⟩ h'.sweeps
  exact ⟨base, pub₁, pub₂, own₁, own₂, calls₁, calls₂, hbase, hr, hr', hown, hcalls⟩

section End

variable (h : session.Closes arrange lists host world start ground pub count q)
  (hq : ∃ notes, base.Since host notes q ∧ Note.Split verdict own calls notes)

include h hq

theorem noted : ∃ notes, Note.Split verdict own calls notes ∧
    Ends (fun result final => result.failures = final.failures ∧ base.Since host notes final)
      (fun _ => base.Since host notes) (session.execute arrange lists host world) := by
  obtain ⟨notes, hsince, hsplit⟩ := hq
  refine ⟨notes, hsplit, ?_⟩
  rw [h.execute]
  exact collect_since (session.context arrange lists host) count q hsince

variable (hbase : base.Opens host world)

include hbase

theorem notices_eq :
    (session.execute arrange lists host world).2.notices.map Notice.call = calls.reverse := by
  obtain ⟨notes, hsplit, hends⟩ := h.noted hq
  have hsince : base.Since host notes (session.execute arrange lists host world).2 :=
    hends.state (fun _ _ hfinal => hfinal.2) fun _ _ => id
  have hcalls := hsince.calls
  rw [hbase.notices, hsplit.calls, List.map_reverse] at hcalls
  exact List.reverse_eq_iff.1 hcalls

theorem attributed (hresult : (session.execute arrange lists host world).1 = .ok result) :
    ∃ notes, result.Attributed host verdict world (session.execute arrange lists host world).2 own
      notes := by
  obtain ⟨notes, hsplit, hends⟩ := h.noted hq
  obtain ⟨hfailures, hfinal⟩ := hends.of_ok hresult
  exact ⟨notes, .of_since hbase hfinal hsplit hfailures⟩

/-- Where the observers go by their calls alone, the calls tell which of them crashed. -/
theorem failures_perm {τ : Type} {view : σ → τ} (hapart : host.Apart view)
    (hresult : (session.execute arrange lists host world).1 = .ok result) :
    result.failures.Perm (own ++ host.crashes verdict base.world calls) := by
  obtain ⟨notes, hsplit, hends⟩ := h.noted hq
  obtain ⟨hfailures, hfinal⟩ := hends.of_ok hresult
  rw [hfailures, hfinal.trace.failures, hbase.failures, List.nil_append, ← hsplit.calls,
    ← hapart.crashes_eq hfinal.trace.noted]
  exact hsplit.failures

end End

section Spares

variable (hspares : config'.Spares config) (hpolicy : config'.missPolicy = config.missPolicy)
  (harrange : ∀ items, (arrange items).Perm items)
  (harrange' : ∀ items, (arrange' items).Perm items) (hsteady : host.Steady)
  (hverdict : host.Judges verdict)
  (h : (session.withConfig config).Closes arrange lists host world start ground pub count q)
  (h' : (session.withConfig config').Closes arrange' lists host world start ground' pub' count' q')

include hspares hpolicy harrange harrange' hsteady hverdict h h'

/-- In one order of tasks both runs make the same calls one after the other. -/
theorem notices_of_spares (hsame : arrange = arrange') (hconsistent : Consistent arrange') :
    ((session.withConfig config).execute arrange lists host world).2.notices.map Notice.call =
      ((session.withConfig config').execute arrange' lists host world).2.notices.map
        Notice.call := by
  obtain ⟨base, _, _, _, _, calls, calls', hbase, hq, hq', -, hordered⟩ :=
    h.beside hspares hpolicy harrange harrange' hsteady hverdict h'
  have hnotices := h.notices_eq hq.noted hbase
  have hnotices' := h'.notices_eq hq'.noted hbase
  rw [← hordered hsame hconsistent] at hnotices'
  exact hnotices.trans hnotices'.symm

/-- **What fails in the run that leaves out more fails in the other as well**, crashes of observers
apart, and in one order of tasks these too, where the observers go by their calls alone. -/
theorem failures_of_spares
    (hresult : ((session.withConfig config).execute arrange lists host world).1 = .ok result)
    (hresult' : ((session.withConfig config').execute arrange' lists host world).1 = .ok result') :
    (∃ own own' notes notes',
      result.Attributed host verdict world
        ((session.withConfig config).execute arrange lists host world).2 own notes ∧
      result'.Attributed host verdict world
        ((session.withConfig config').execute arrange' lists host world).2 own' notes' ∧
      own.Subperm own') ∧
    (arrange = arrange' → Consistent arrange' → ∀ {τ : Type} (view : σ → τ), host.Apart view →
      result.failures.Subperm result'.failures) := by
  obtain ⟨base, _, _, own, own', calls, calls', hbase, hq, hq', hown, hordered⟩ :=
    h.beside hspares hpolicy harrange harrange' hsteady hverdict h'
  obtain ⟨notes, hnotes⟩ := h.attributed hq.noted hbase hresult
  obtain ⟨notes', hnotes'⟩ := h'.attributed hq'.noted hbase hresult'
  refine ⟨⟨own, own', notes, notes', hnotes, hnotes', hown⟩,
    fun hsame hconsistent τ view hapart => ?_⟩
  have hfailures := h.failures_perm hq.noted hbase hapart hresult
  have hfailures' := h'.failures_perm hq'.noted hbase hapart hresult'
  rw [← hordered hsame hconsistent] at hfailures'
  exact hfailures.subperm.trans (((List.subperm_append_right _).2 hown).trans
    hfailures'.symm.subperm)

end Spares

end Closes

end Failures

end Session

/-! ## Reports -/

/-- A matcher that has come to the same if it is not left out, and is not if it has a key. -/
structure Node.Spared (prune prune' : Bool) (node node' : Node) : Prop where
  kind : node'.kind = node.kind
  key : node'.key = node.key
  named : node.key ≠ none → node.outcome prune ≠ .pruned
  same : node.outcome prune ≠ .pruned →
    node'.published = node.published ∧ node'.outcome prune' = node.outcome prune

theorem Host.Steady.report_of_spared {host : Host σ} (hsteady : host.Steady) {prune prune' : Bool}
    (slot : Slot) {node node' : Node} (h : node.Spared prune prune' node') :
    Follows (fun report report' => report.outcome ≠ .pruned → report' = report)
      (node.report host.resolver prune slot) (node'.report host.resolver prune' slot) := by
  by_cases houtcome : node.outcome prune = .pruned
  · have hkey : node.key = none := by
      by_contra hkey
      exact h.named hkey houtcome
    unfold Node.report
    dsimp only
    rw [h.key, hkey]
    exact Follows.bind (R := fun _ _ => True) (.pure trivial)
      fun _ _ _ => .pure fun hne => absurd houtcome hne
  · obtain ⟨hpublished, houtcome'⟩ := h.same houtcome
    have hreport : node'.report host.resolver prune' slot =
        node.report host.resolver prune slot := by
      unfold Node.report
      rw [hpublished, houtcome', h.key, h.kind]
    rw [hreport]
    exact (Follows.of_alike (hsteady.report_constant prune slot node)).mono
      fun report report' hsame _ => hsame.symm

namespace Session

open Run

variable {session : Session} {host : Host σ} {world : σ} {config config' : Config}
  {arrange arrange' : List Slot → List Slot} {lists : List (List String)} {start : Progress σ}
  {ground ground' : Ground} {pub pub' : Publications} {result result' : MatchResult}
  {p p' q q' : Progress σ} {count count' : Nat} {m : Slot} {verdict : String → Decision}

namespace Finished

theorem unpruned_iff_outcome
    (h : session.Finished (session.context arrange lists host) world ground pub result p)
    {node : Node} (hnode : ground.graph.get? m = some node) (refs : List Slot) :
    session.Unpruned host world m ↔
      (node.after refs pub (pub m)).outcome session.config.pruneUnconsumed ≠ .pruned := by
  have hg : session.Grounds host world ground := h.grounds
  rw [hg.unpruned_iff_node hnode, Node.outcome]
  cases hm : pub m with
  | some published =>
    refine iff_of_true ((hg.unpruned_iff_node hnode).1 (h.unpruned (by simp [hm]))) ?_
    dsimp only [Node.after]
    split_ifs <;> simp
  | none =>
    change node.isPruned session.config.pruneUnconsumed = false ↔
      (if node.isPruned session.config.pruneUnconsumed then Outcome.pruned else .unresolved) ≠
        .pruned
    cases node.isPruned session.config.pruneUnconsumed <;> simp

theorem spared (hspares : config'.Spares config) (hpolicy : config'.missPolicy = config.missPolicy)
    (hsteady : host.Steady)
    (h : (session.withConfig config).Finished
      ((session.withConfig config).context arrange lists host) world ground pub result p)
    (h' : (session.withConfig config').Finished
      ((session.withConfig config').context arrange' lists host) world ground' pub' result' p') :
    List.Forall₂ (Node.Spared config.pruneUnconsumed config'.pruneUnconsumed) p.graph.nodes
      p'.graph.nodes := by
  have hg : (session.withConfig config).Grounds host world ground := h.grounds
  have hg' : (session.withConfig config').Grounds host world ground' := h'.grounds
  refine forall₂_nodes h h' fun m node hnode => ?_
  have hfresh : ground.graph.get? m = some node := hg.graph ▸ hnode
  have hfresh' : ground'.graph.get? m = some node := hg'.graph ▸ hnode
  have hkept := h.unpruned_iff_outcome hfresh (session.dependencies host world m)
  refine ⟨rfl, rfl, fun hkey => hkept.1 ?_, fun houtcome => ?_⟩
  · exact (hg.unpruned_iff_fresh hfresh).2 fun _ => .inr (.inr hkey)
  have hm := hkept.2 houtcome
  have hpruned : node.isPruned config.pruneUnconsumed = false :=
    (hg.unpruned_iff_node hfresh).1 hm
  have hpruned' : node.isPruned config'.pruneUnconsumed = false :=
    (hg'.unpruned_iff_node hfresh').1 (hm.of_spares hspares)
  rw [h.publication_of_unpruned hspares hpolicy hsteady h' hm]
  refine ⟨rfl, ?_⟩
  cases pub m with
  | some published => rfl
  | none =>
    change (if node.isPruned config'.pruneUnconsumed then Outcome.pruned else .unresolved) =
      if node.isPruned config.pruneUnconsumed then Outcome.pruned else .unresolved
    rw [hpruned, hpruned']

/-- The run that leaves out more comes to its end no later. -/
theorem sweeps_le_of_spares (hspares : config'.Spares config)
    (h : (session.withConfig config).Finished
      ((session.withConfig config).context arrange lists host) world ground pub result p)
    (h' : (session.withConfig config').Finished
      ((session.withConfig config').context arrange' lists host) world ground' pub' result' p') :
    result.sweeps ≤ result'.sweeps := by
  rcases h.exists_last with hone | ⟨m, hm, hlast⟩
  · rw [hone]
    exact h'.timely.2
  · have hlt := h'.sweep_lt (published_of_spares hspares h h' hm)
    rw [sweep_of_spares hspares h h' hm] at hlt
    omega

end Finished

namespace Closes

variable (hspares : config'.Spares config) (hpolicy : config'.missPolicy = config.missPolicy)
  (hsteady : host.Steady)
  (h : (session.withConfig config).Closes arrange lists host world start ground pub count q)
  (h' : (session.withConfig config').Closes arrange' lists host world start ground' pub' count' q')

include hspares hpolicy hsteady h h'

/-- Whenever the run that leaves out more returns, so does the other, with the same reports. -/
theorem reports_of_spares
    (hresult : ((session.withConfig config).execute arrange lists host world).1 = .ok result) :
    ∃ result', ((session.withConfig config').execute arrange' lists host world).1 = .ok result' ∧
      ∀ m, result.outcome? m ≠ some .pruned → result'.report? m = result.report? m := by
  have hspared := Finished.spared hspares hpolicy hsteady h.finished h'.finished
  have hreports := Node.reports_follows
    (fun slot node node' hnode => hsteady.report_of_spared slot hnode) hspared 0
  obtain ⟨result', hcollect, hall⟩ :=
    @collect_follows _ ((session.withConfig config).context arrange lists host)
      ((session.withConfig config').context arrange' lists host) _ count count' q q' hreports _
      (h.collect_of_ok hresult)
  refine ⟨result', h'.ok_of_collect hcollect, fun m hm => ?_⟩
  rcases forall₂_getElem? hall m with ⟨hr, hr'⟩ | ⟨report, report', hr, hr', hsame⟩
  · exact hr'.trans hr.symm
  · rw [MatchResult.outcome?, MatchResult.report?, hr, Option.map_some] at hm
    rw [MatchResult.report?, MatchResult.report?, hr, hr',
      hsame fun hpruned => hm (by rw [hpruned])]

/-- There is nothing to name in one run that is not named in the other. -/
theorem returns_of_spares
    (hresult : ((session.withConfig config').execute arrange' lists host world).1 = .ok result') :
    ∃ result, ((session.withConfig config).execute arrange lists host world).1 = .ok result := by
  have hthins : List.Forall₂ Node.Thins q'.graph.nodes q.graph.nodes := by
    refine (Finished.spared hspares hpolicy hsteady h.finished h'.finished).flip.imp ?_
    intro node' node hnode
    refine ⟨hnode.key.symm, fun hkey => .inr ?_⟩
    rw [(hnode.same (hnode.named (hnode.key ▸ hkey))).1]
  exact h'.returns_of_thins h hsteady hthins hresult

/-- **Both runs make the same calls**, whether or not they return. -/
theorem calls_of_spares (hg : session.graph.Built)
    (harrange : ∀ items, (arrange items).Perm items)
    (harrange' : ∀ items, (arrange' items).Perm items) :
    (((session.withConfig config).execute arrange lists host world).2.notices.map
        Notice.call).Perm
      (((session.withConfig config').execute arrange' lists host world).2.notices.map
        Notice.call) := by
  have hrecorded : Recorded session.graph
      ((session.withConfig config).execute arrange lists host world).2.steps _ :=
    (session.withConfig config).recorded_execute hg harrange lists host world
  have hrecorded' : Recorded session.graph
      ((session.withConfig config').execute arrange' lists host world).2.steps _ :=
    (session.withConfig config').recorded_execute hg harrange' lists host world
  have hground : (session.withConfig config).Grounds host world ground := h.finished.grounds
  have hground' : (session.withConfig config').Grounds host world ground' := h'.finished.grounds
  have hcalls := hrecorded.calls_perm_of_observed hrecorded'
    (fun _ => hg.fresh.valuation_eq_none) ?_
  · refine ((notices_perm _ arrange lists host world).map _).trans (hcalls.trans ?_)
    exact ((notices_perm _ arrange' lists host world).map _).symm
  · intro m
    rw [h.graph_eq, h'.graph_eq]
    by_cases hsize : m < session.graph.size
    · obtain ⟨node, hnode⟩ := Graph.lt_size_iff.1 hsize
      by_cases hm : (session.withConfig config).Unpruned host world m
      · refine .inr ?_
        have hpub : pub' m = pub m :=
          h.finished.publication_of_unpruned hspares hpolicy hsteady h'.finished hm
        rw [Ground.after, Ground.after, Graph.valuation_after (hground'.size_eq.symm ▸ hsize),
          Graph.valuation_after (hground.size_eq.symm ▸ hsize), hpub]
      · exact .inl fun empty =>
          Graph.observers_eq_nil hnode (hground.unasked hnode hm).1 empty
    · refine .inl fun empty => ?_
      rw [Graph.observers, Graph.get?_eq_none (Nat.not_lt.1 hsize)]

end Closes

end Session

open Session

namespace Sample

theorem fragile_logs : fragile.Logs id where
  preserves calls := { recorder_logs.preserves calls with }
  observe _ _ _ := rfl

theorem fragile_apart : fragile.Apart id := Host.apart_id fragile_logs.preserves

/-- A class and its subclass, both observed, and two matchers that nothing asks for: the search for
one crashes, the other takes a sweep more. -/
def loose : List ClientCall :=
  [.exactClass "A", .all .cls [.superclass 0, .key "subclass"], .observe 1 .onMatch 0,
    .all .constructor [.declaringClass 0], .all .cls [.superclass 1], .exactClass "B",
    .observe 0 .onMatch 1, .observe 4 .onMatch 2]

/-- A run of these with pruning switched on or off. -/
def prune (on : Bool) : Except RunError MatchResult × Progress (List (Nat × List Entity)) :=
  ((session loose).withPruning on).execute List.reverse [["B", "A"]] fragile []

end Sample

end Metamatch
