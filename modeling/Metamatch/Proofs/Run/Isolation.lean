import Metamatch.Proofs.Run.Completion
import Metamatch.Proofs.Run.Counters
import Metamatch.Proofs.Run.Invariant

/-!
# Tasks that fail

The failure of a task concerns nothing but its matcher, which is published all the same.

* `Course`, `Run.Courses`: the batches of a run, each with the outcomes of its tasks and the states
  that it goes through.
* `Course.Fate`: what may become of a matcher of a batch.
* `Run.Takes.fates`: one batch.
* `Run.Courses.fates`: all batches of a run.
* `publications_of_tasks`: what that means for the steps and the reports of a run.
-/

namespace Metamatch

variable {σ : Type}

/-- A batch and what became of it: the state once it is drawn, the outcomes of its tasks, and the
states once all tasks are back and once they are settled. -/
structure Course (σ : Type) where
  batch : Batch
  drawn : Progress σ
  outcomes : List (Slot × Except TaskError Unit)
  executed : Progress σ
  settled : Progress σ

namespace Run

variable {ctx : RunContext σ} {p q r : Progress σ} {c : Course σ} {courses others : List (Course σ)}

/-- From a state on, a run takes this course. -/
structure Takes (ctx : RunContext σ) (p : Progress σ) (c : Course σ) : Prop where
  draws : draw ctx c.batch.sweep c.batch.kind p = (.ok c.batch.slots, c.drawn)
  executes : (execute ctx c.batch.sweep (ctx.arrange c.batch.slots) : Run σ RunError _) c.drawn =
    (.ok c.outcomes, c.executed)
  settles : (c.batch.slots.forM fun slot =>
    settle ctx c.batch.sweep slot ((c.outcomes.lookup slot).getD (.ok ()))) c.executed =
      (.ok (), c.settled)

/-- A run takes one course after the other. -/
inductive Courses (ctx : RunContext σ) : Progress σ → List (Course σ) → Progress σ → Prop
  | done (p : Progress σ) : Courses ctx p [] p
  | next {p q : Progress σ} {c : Course σ} {rest : List (Course σ)} :
    Takes ctx p c → Courses ctx c.settled rest q → Courses ctx p (c :: rest) q

theorem Courses.append (h : Courses ctx p courses q) (h' : Courses ctx q others r) :
    Courses ctx p (courses ++ others) r := by
  induction h with
  | done => exact h'
  | next htakes _ ih => exact .next htakes (ih h')

/-! ## The courses of a run -/

theorem batch_courses {number count : Nat} {kind : Kind}
    (h : batch ctx number kind p = (.ok count, q)) : ∃ courses, Courses ctx p courses q := by
  unfold batch at h
  obtain ⟨slots, drawn, hdraw, h⟩ := bind_eq_ok h
  obtain ⟨outcomes, executed, hexecute, h⟩ := bind_eq_ok h
  obtain ⟨u, settled, hsettle, h⟩ := bind_eq_ok h
  cases h
  exact ⟨[⟨⟨number, kind, slots⟩, drawn, outcomes, executed, q⟩],
    .next ⟨hdraw, hexecute, hsettle⟩ (.done q)⟩

theorem sweep_courses {number count : Nat} {kinds : List Kind}
    (h : sweep ctx number kinds p = (.ok count, q)) : ∃ courses, Courses ctx p courses q := by
  induction kinds generalizing p count with
  | nil =>
    cases h
    exact ⟨[], .done _⟩
  | cons kind rest ih =>
    unfold sweep at h
    obtain ⟨here, p₁, hbatch, h⟩ := bind_eq_ok h
    obtain ⟨there, p₂, hrest, h⟩ := bind_eq_ok h
    cases h
    obtain ⟨courses, hcourses⟩ := batch_courses hbatch
    obtain ⟨others, hothers⟩ := ih hrest
    exact ⟨courses ++ others, hcourses.append hothers⟩

theorem sweeps_courses {number fuel count : Nat} (h : sweeps ctx number fuel p = (.ok count, q)) :
    ∃ courses, Courses ctx p courses q := by
  induction fuel generalizing p number with
  | zero =>
    cases h
    exact ⟨[], .done _⟩
  | succ fuel ih =>
    unfold sweeps at h
    obtain ⟨published, p₁, hsweep, h⟩ := bind_eq_ok h
    obtain ⟨courses, hcourses⟩ := sweep_courses hsweep
    split at h
    · cases h
      exact ⟨courses, hcourses⟩
    · obtain ⟨others, hothers⟩ := ih h
      exact ⟨courses ++ others, hcourses.append hothers⟩

theorem Takes.batches (h : Takes ctx p c) : c.settled.batches = c.batch :: p.batches := by
  have hdrawn : c.drawn.batches = c.batch :: p.batches := by
    obtain ⟨hslots, hdrawn⟩ := Prod.mk.injEq .. ▸ h.draws
    rw [← hdrawn, Except.ok.inj hslots]
  have hexecuted : c.executed.batches = c.batch :: p.batches :=
    ((task_batches ctx c.batch.sweep _).execute _).ok hdrawn h.executes
  exact (Leads.forM fun _ _ => (task_batches ctx _ _).settle trivial _).ok hexecuted h.settles

theorem Courses.batches (h : Courses ctx p courses q) :
    q.batches = (courses.map (·.batch)).reverse ++ p.batches := by
  induction h with
  | done => rfl
  | next htakes _ ih =>
    rw [ih, htakes.batches]
    simp

theorem execute_slots {ε : Type} (number : Nat) (items : List Slot) :
    Yields (fun outcomes => outcomes.map Prod.fst = items)
      (execute ctx number items : Run σ ε _) := by
  induction items with
  | nil => exact .pure rfl
  | cons s rest ih =>
    unfold execute
    refine .any fun outcome => ih.bind fun outcomes houtcomes => .pure ?_
    rw [List.map_cons, houtcomes]

end Run

/-! ## What becomes of a matcher -/

/-- What may become of a matcher of a batch. -/
inductive Course.Fate (host : Host σ) (c : Course σ) (s : Slot) (published : Published) : Prop
  /-- Its task succeeds and publishes it. -/
  | found : c.outcomes.lookup s = some (.ok ()) →
    c.executed.graph.publication? s = some published → Fate host c s published
  /-- Its task fails before it is published: it is published empty when the batch is settled. -/
  | emptied {e : TaskError} : c.outcomes.lookup s = some (.error e) →
    c.executed.graph.publication? s = none → published.values = [] → Fate host c s published
  /-- Its task fails once it is published, for a policy that crashed when it was told of an
  observer: it stays as it is. -/
  | kept {e : TaskError} : c.outcomes.lookup s = some (.error e) →
    c.executed.graph.publication? s = some published → host.Refuses published.values e →
      Fate host c s published

/-- A matcher that is not published when its batch is drawn is so when the batch is settled. -/
structure Course.Settles (host : Host σ) (c : Course σ) (s : Slot) (published : Published) :
    Prop where
  drawn : c.drawn.graph.publication? s = none
  sweep : published.sweep = c.batch.sweep
  fate : c.Fate host s published
  settled : c.settled.graph.publication? s = some published

namespace Run

open Progress (At)

variable {ctx : RunContext σ} {p q : Progress σ} {c : Course σ} {courses : List (Course σ)}
  {start : Graph} {ground : Ground} {pub pub₁ : Publications} {s : Slot}

theorem Open.fate (h : Open ctx ground c.outcomes pub₁ s)
    (hexecuted : At ctx start ground pub₁ c.executed) {published : Published}
    (hpublished : pub₁.close c.batch.sweep c.batch.slots s = some published)
    (hs : s ∈ c.batch.slots) : c.Fate ctx.host s published := by
  obtain ⟨outcome, hlookup, haccounts⟩ := h.outcome
  have hpublication : c.executed.graph.publication? s = pub₁ s := hexecuted.published s
  cases hpub : pub₁ s with
  | none =>
    rw [Publications.close_of_unpublished hs hpub, Option.some.injEq] at hpublished
    cases outcome with
    | ok u => exact absurd hpub haccounts
    | error e => exact .emptied hlookup (hpublication.trans hpub) (by rw [← hpublished])
  | some found =>
    rw [Publications.close_of_published (by simp [hpub]), hpub, Option.some.injEq] at hpublished
    subst hpublished
    cases outcome with
    | ok u => exact .found hlookup (hpublication.trans hpub)
    | error e => exact .kept hlookup (hpublication.trans hpub) (haccounts.2.2 found hpub)

/-- **Every matcher of a batch is published in it**, whether or not its task fails. -/
theorem Takes.fates (h : Takes ctx p c) (harrange : ∀ items, (ctx.arrange items).Perm items)
    (hd : ∀ s ∈ ground.detached, pub s ≠ none) (hp : At ctx start ground pub p) :
    ∃ pub', At ctx start ground pub' c.settled ∧ pub.Extends pub' ∧ ∀ s ∈ c.batch.slots,
      ∃ published, pub' s = some published ∧ c.Settles ctx.host s published := by
  obtain ⟨hready, hdrawn⟩ := (draw_leads c.batch.sweep c.batch.kind).ok hp h.draws
  obtain ⟨pub₁, hexecuted, htried, hopen⟩ :=
    (executeReady_leads harrange hd c.batch.sweep hready).ok hdrawn h.executes
  have hsettled := (settleAll_leads (hready ▸ Ground.nodup_ready) hopen).ok hexecuted h.settles
  have hclosed := Publications.close_tried c.batch.sweep c.batch.slots pub₁
  refine ⟨_, hsettled, htried.grows.trans hclosed.grows, fun s hs => ?_⟩
  obtain ⟨published, hpublished⟩ :=
    Option.ne_none_iff_exists'.1 (@Publications.close_ne_none c.batch.sweep _ pub₁ s hs)
  have hunpublished : pub s = none := (Ground.mem_ready.1 (hready ▸ hs)).1.unpublished
  refine ⟨published, hpublished, (hdrawn.published s).trans hunpublished, ?_,
    (hopen s hs).fate hexecuted hpublished hs, (hsettled.published s).trans hpublished⟩
  -- before the batch nothing was published, so what is there is of its sweep
  cases hpub : pub₁ s with
  | none =>
    rw [Publications.close_of_unpublished hs hpub, Option.some.injEq] at hpublished
    rw [← hpublished]
  | some found =>
    rw [Publications.close_of_published (by simp [hpub])] at hpublished
    rcases htried.taken s hs with hkept | ⟨-, values, htaken⟩
    · rw [hkept, hunpublished] at hpub
      cases hpub
    · rw [htaken, Option.some.injEq] at hpublished
      rw [← hpublished]

/-- **Every matcher of every batch is published in it**, and stays as it is then. -/
theorem Courses.fates (h : Courses ctx p courses q)
    (harrange : ∀ items, (ctx.arrange items).Perm items)
    (hd : ∀ s ∈ ground.detached, pub s ≠ none) (hp : At ctx start ground pub p) :
    ∃ pub', At ctx start ground pub' q ∧ pub.Extends pub' ∧ ∀ c ∈ courses,
      c.outcomes.map Prod.fst = ctx.arrange c.batch.slots ∧ c.settled.graph.Balanced ∧
      ∀ s ∈ c.batch.slots, ∃ published, pub' s = some published ∧
        c.Settles ctx.host s published := by
  induction h generalizing pub with
  | done p => exact ⟨pub, hp, .refl _, by simp⟩
  | next htakes _ ih =>
    obtain ⟨pub₁, hp₁, hgrows, hfates⟩ := htakes.fates harrange hd hp
    obtain ⟨pub₂, hp₂, hgrows₂, hrest⟩ := ih (fun s hs => hgrows.ne_none (hd s hs)) hp₁
    refine ⟨pub₂, hp₂, hgrows.trans hgrows₂, List.forall_mem_cons.2 ⟨⟨?_, hp₁.balanced,
      fun s hs => ?_⟩, hrest⟩⟩
    · exact (execute_slots _ _).ok trivial htakes.executes
    · obtain ⟨published, hpublished, hsettles⟩ := hfates s hs
      exact ⟨published, (hgrows₂ s (by simp [hpublished])).trans hpublished, hsettles⟩

end Run

/-! ## Runs of a session -/

/-- The publication of a slot that takes what each dependent awaited of it off its counter. -/
structure Step.Releases (step : Step) (s : Slot) (published : Published) : Prop where
  change : step.change = .publish s published.values published.sweep
  released : ∃ g, step.before.publish s published.values published.sweep = .ok g ∧
    ∀ m node, m ≠ s → step.before.get? m = some node → ∃ released, g.get? m = some released ∧
      released.counter + step.before.subscriptions m s = node.counter

/-- What is published in the end was so by a step that released the dependents. -/
theorem Recorded.exists_releases {start g : Graph} {steps : List Step} (h : Recorded start steps g)
    (hsafe : ∀ step ∈ steps, step.Safe) {s : Slot} {published : Published}
    (hs : steps.filterMap (·.change.publicationOf? s) = [published]) :
    ∃ step ∈ steps, step.Releases s published := by
  have hmem : published ∈ steps.filterMap (·.change.publicationOf? s) := by simp [hs]
  obtain ⟨step, hstep, hpublication⟩ := List.mem_filterMap.1 hmem
  obtain ⟨g', hturns⟩ := h.exists_turns step hstep
  have hsafe := hsafe step hstep
  refine ⟨step, hstep, ?_⟩
  obtain ⟨before, change⟩ := step
  cases change with
  | detach slot => cases hpublication
  | publish slot values sweep =>
    have hchange : (Change.publish slot values sweep).publicationOf? s =
        if slot = s then some ⟨values, sweep⟩ else none := rfl
    rw [hchange] at hpublication
    split_ifs at hpublication with hslot
    cases hpublication
    subst hslot
    exact ⟨rfl, g', hturns, fun m node hm hnode => hsafe.released hturns hm hnode⟩

namespace Session

open Run
open Progress (At)

variable {session : Session} {arrange : List Slot → List Slot} {lists : List (List String)}
  {host : Host σ} {world : σ} {result : MatchResult} {final : Progress σ}

theorem exists_parts (h : session.execute arrange lists host world = (.ok result, final)) :
    ∃ start count last,
      session.last.forM (seed (session.context arrange lists host))
        { world, graph := session.graph } = (.ok (), start) ∧
      sweeps (session.context arrange lists host) 1 (start.graph.size + 1) start =
        (.ok count, last) ∧
      adapt RunError.crash (collect (session.context arrange lists host) count) last =
        (.ok result, final) := by
  change (resolve (session.context arrange lists host) session.last
    { world, graph := session.graph } : Except RunError MatchResult × Progress σ) = _ at h
  unfold resolve at h
  obtain ⟨u, start, hstart, h⟩ := bind_eq_ok h
  obtain ⟨g, p, hgraph, h⟩ := bind_eq_ok h
  cases hgraph
  obtain ⟨count, last, hsweeps, h⟩ := bind_eq_ok h
  exact ⟨start, count, last, hstart, hsweeps, h⟩

theorem collect_eq {ctx : RunContext σ} {count : Nat} {last : Progress σ}
    (h : adapt RunError.crash (collect ctx count) last = (.ok result, final)) :
    final = { last with world := final.world } := by
  have hworld : ∀ (p : Progress σ) (world : σ), p = { last with world := p.world } →
      { p with world } = { last with world } := by
    intro p world hp
    rw [hp]
  have hcollect : Leads (fun p => p = { last with world := p.world })
      (adapt RunError.crash (collect ctx count))
      (fun _ p => p = { last with world := p.world }) fun _ _ => True :=
    adapt_leads ((collect_tells hworld count).weaken (fun _ => id) (fun _ _ hp => hp.1)
      fun _ _ => id) fun _ _ _ => trivial
  exact hcollect.ok rfl h

theorem exists_sweeps (h : session.execute arrange lists host world = (.ok result, final)) :
    ∃ start count last,
      session.last.forM (seed (session.context arrange lists host))
        { world, graph := session.graph } = (.ok (), start) ∧
      sweeps (session.context arrange lists host) 1 (start.graph.size + 1) start =
        (.ok count, last) ∧
      final = { last with world := final.world } := by
  obtain ⟨start, count, last, hstart, hsweeps, hcollect⟩ := exists_parts h
  exact ⟨start, count, last, hstart, hsweeps, collect_eq hcollect⟩

theorem Finished.outcome?_ne_unresolved {ground : Ground} {pub : Publications}
    (h : session.Finished (session.context arrange lists host) world ground pub result final)
    {m : Slot} (hm : ∀ d ∈ session.dependencies host world m, pub d ≠ none) :
    result.outcome? m ≠ some .unresolved := by
  have hground : session.Grounds host world ground := h.grounds
  intro hunresolved
  obtain ⟨d, hd, hcycle⟩ := (h.unresolved_iff.1 hunresolved).2.exists_dependency
  exact h.not_reachesCycle (hm d hd) (hground.refs_eq ▸ hcycle)

end Session

/-- **Tasks that fail are isolated, and their matchers are published once**, in the sweep of their
batch: empty if the task fails before it publishes, else as it has published. -/
theorem publications_of_tasks {session : Session} (hg : session.graph.Built)
    {arrange : List Slot → List Slot} (harrange : ∀ items, (arrange items).Perm items)
    {lists : List (List String)} {host : Host σ} {world : σ} {result : MatchResult}
    {final : Progress σ} (hrun : session.execute arrange lists host world = (.ok result, final)) :
    ∃ start courses last,
      session.last.forM (Run.seed (session.context arrange lists host))
        { world, graph := session.graph } = (.ok (), start) ∧
      Run.Courses (session.context arrange lists host) start courses last ∧
      final = { last with world := final.world } ∧
      courses.map (·.batch) = final.batches.reverse ∧
      (∀ c ∈ courses, c.outcomes.map Prod.fst = arrange c.batch.slots ∧
        c.settled.graph.Balanced ∧
        ∀ s ∈ c.batch.slots, ∃ published, c.Settles host s published ∧
          final.steps.filterMap (·.change.publicationOf? s) = [published] ∧
          (∃ step ∈ final.steps, step.Releases s published) ∧
          result.sweep? s = some published.sweep ∧ result.values s = published.values) ∧
      ∀ m, (∀ d ∈ session.dependencies host world m, (result.sweep? d).isSome) →
        result.outcome? m ≠ some .unresolved := by
  obtain ⟨start, count, last, hstart, hsweeps, hfinal⟩ := Session.exists_sweeps hrun
  obtain ⟨courses, hcourses⟩ := Run.sweeps_courses hsweeps
  obtain ⟨ground, hground, hat⟩ := (Session.start_leads hg).ok rfl hstart
  have hends := session.execute_ends hg harrange lists host world
  rw [hrun] at hends
  obtain ⟨ended, pub, hf⟩ := hends
  obtain ⟨pub', hat', -, hfates⟩ := hcourses.fates harrange hground.published hat
  have hbatches : start.batches = [] :=
    ((Run.seed_batches _ session.last []).seed (Run.task_batches _ 0 [])).ok rfl hstart
  have hgraph : final.graph = last.graph := by rw [hfinal]
  refine ⟨start, courses, last, hstart, hcourses, hfinal, ?_, fun c hc => ?_, fun m hm => ?_⟩
  · have hrecord := hcourses.batches
    rw [hbatches, List.append_nil] at hrecord
    rw [hfinal, hrecord, List.reverse_reverse]
  · obtain ⟨hslots, hbalanced, hmatchers⟩ := hfates c hc
    refine ⟨hslots, hbalanced, fun s hs => ?_⟩
    obtain ⟨published, hpublished, hsettles⟩ := hmatchers s hs
    have hpub : pub s = some published := by
      rw [← hf.standing.published s, hgraph, hat'.published s, hpublished]
    have hsteps : final.steps.filterMap (·.change.publicationOf? s) = [published] := by
      rw [hf.standing.recorded.publicationsOf hg.fresh.publication?_eq_none]
      rw [show final.graph.publication? s = pub s from hf.standing.published s, hpub]
      rfl
    refine ⟨published, hsettles, hsteps,
      hf.standing.recorded.exists_releases hf.standing.safe hsteps, ?_, ?_⟩
    · rw [hf.sweep?_eq, hpub]
      rfl
    · rw [hf.values_eq, Publications.values, hpub]
      rfl
  · exact hf.outcome?_ne_unresolved fun d hd => hf.sweep?_isSome.1 (hm d hd)

/-! ## A sample -/

namespace Sample

/-- Superclasses cannot be asked for without a crash, and observers crash, as does a policy that is
told of that. -/
def refusing : Host Nat where
  resolver := { registry.resolver with superclass := fun _ => throw (.crash .other) }
  judge message :=
    if message = (TaskError.ofPayload (.text "observer")).explain.root then throw .other
    else pure .proceed
  observe _ _ := pure (some (.text "observer"))

/-- A class that is observed, one that is searched for by its superclass, and the methods of
both. -/
def failing : List ClientCall :=
  [.exactClass "A", .observe 0 .onMatch 0, .all .cls [.superclass 0, .key "subclass"],
    .all .method [.declaringClass 0, .key "method"], .all .method [.declaringClass 1, .key "none"]]

/-- A run of these in which the tasks for both classes fail. -/
def fail : Except RunError MatchResult × Progress Nat :=
  (session failing).execute List.reverse [["B", "A"]] refusing 0

end Sample

/-- The first class is published before its task fails, the second is published empty after that,
and the methods of both are not left waiting. -/
theorem publications_of_failing :
    ∃ result, Sample.fail.1 = .ok result ∧ result.failures.map (·.slot) = [0, 1] ∧
      (∀ batch ∈ Sample.fail.2.batches, ∀ s ∈ batch.slots, ∃ values,
        Sample.fail.2.steps.filterMap (·.change.publicationOf? s) = [⟨values, batch.sweep⟩] ∧
        result.values s = values) ∧
      result.reports.map (·.outcome) = [.resolved, .missed, .resolved, .missed] ∧
      ∀ m ∈ (Sample.session Sample.failing).graph.slots, result.outcome? m ≠ some .unresolved := by
  have hresult : ∀ result ∈ Sample.fail.1.toOption, result.failures.map (·.slot) = [0, 1] ∧
      result.reports.map (·.outcome) = [.resolved, .missed, .resolved, .missed] ∧
      ∀ m ∈ (Sample.session Sample.failing).graph.slots,
        ∀ d ∈ (Sample.session Sample.failing).dependencies Sample.refusing 0 m,
          (result.sweep? d).isSome := by
    decide +kernel
  have hok : Sample.fail.1.toOption.isSome = true := by decide +kernel
  have hall := fun result final => @publications_of_tasks _ (Sample.session Sample.failing)
    (Sample.built _ (by decide +kernel)) List.reverse (fun items => items.reverse_perm)
    [["B", "A"]] Sample.refusing 0 result final
  change ∀ result final, Sample.fail = (.ok result, final) → _ at hall
  generalize Sample.fail = r at hresult hok hall
  rcases r with ⟨e | result, final⟩
  · cases hok
  · obtain ⟨hfailures, houtcomes, hsweeps⟩ := hresult result rfl
    obtain ⟨start, courses, last, -, -, -, hbatches, hcourses, hwaiting⟩ := hall result final rfl
    refine ⟨result, rfl, hfailures, fun batch hbatch s hs => ?_, houtcomes,
      fun m hm => hwaiting m (hsweeps m hm)⟩
    rw [← List.mem_reverse, ← hbatches] at hbatch
    obtain ⟨c, hc, rfl⟩ := List.mem_map.1 hbatch
    obtain ⟨published, hsettles, hsteps, -, -, hvalues⟩ := (hcourses c hc).2.2 s hs
    exact ⟨published.values, hsettles.sweep ▸ hsteps, hvalues⟩

end Metamatch
