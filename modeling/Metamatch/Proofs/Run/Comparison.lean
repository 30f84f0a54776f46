import Metamatch.Proofs.Lockstep
import Metamatch.Proofs.Run.Meaning
import Metamatch.Proofs.Run.Returning

/-!
# Runs compared

Two runs are compared by what they publish, and their reports by what was published.

* `Follows`: a computation that gives a value whenever another one does.
* `Node.reports_follows`: reports on matchers that have come to something alike.
* `Node.Thins`: matchers that leave nothing new to name.
* `Run.unnamed`: what the reports say apart from the names, which may be all there is to know.
* `Session.Closes`, `Session.execute_of_started`: with a steady host, nothing but a name ends a run
  that has started.
* `Session.Finished.induction`: what is published, along the dependencies.
-/

namespace Metamatch

variable {σ τ ε α α' β β' : Type}

/-! ## Computations that follow others -/

/-- Whenever the first computation gives a value, the second gives one that is related to it,
whatever states they start from. -/
def Follows (R : α → β → Prop) (x : ExceptT ε (StateM τ) α) (y : ExceptT ε (StateM τ) β) : Prop :=
  ∀ t u a, (x t : Except ε α × τ).1 = .ok a →
    ∃ b, (y u : Except ε β × τ).1 = .ok b ∧ R a b

namespace Follows

variable {R : α → β → Prop} {S : α' → β' → Prop} {x : ExceptT ε (StateM τ) α}
  {y : ExceptT ε (StateM τ) β} {f : α → ExceptT ε (StateM τ) α'}
  {g : β → ExceptT ε (StateM τ) β'}

theorem pure {a : α} {b : β} (h : R a b) :
    Follows R (Pure.pure a : ExceptT ε (StateM τ) α) (Pure.pure b) := by
  intro t u a' ha
  cases ha
  exact ⟨b, rfl, h⟩

theorem bind (h : Follows R x y) (hf : ∀ a b, R a b → Follows S (f a) (g b)) :
    Follows S (x >>= f) (y >>= g) := by
  intro t u c hc
  have h := h t u
  rw [bind_apply] at hc ⊢
  revert h hc
  generalize (x t : Except ε α × τ) = r
  generalize (y u : Except ε β × τ) = r'
  rcases r with ⟨e | a, t'⟩
  · exact fun hc => nomatch hc
  · intro hc h
    obtain ⟨b, hb, hab⟩ := h a rfl
    rcases r' with ⟨e' | b', u'⟩ <;> cases hb
    exact hf a b hab t' u' c hc

theorem mono (h : Follows R x y) {R' : α → β → Prop} (hR : ∀ a b, R a b → R' a b) :
    Follows R' x y := by
  intro t u a ha
  obtain ⟨b, hb, hab⟩ := h t u a ha
  exact ⟨b, hb, hR a b hab⟩

theorem of_alike {y : ExceptT ε (StateM τ) α} (h : Alike x y) : Follows Eq x y :=
  fun t u a ha => ⟨a, (h t u).symm.trans ha, rfl⟩

end Follows

theorem Node.reports_follows {resolver : Resolver σ} {prune prune' : Bool}
    {S : Node → Node → Prop} {R : Report → Report → Prop}
    (h : ∀ slot node node', S node node' → Follows R (node.report resolver prune slot)
      (node'.report resolver prune' slot))
    {nodes nodes' : List Node} (hnodes : List.Forall₂ S nodes nodes') (slot : Slot) :
    Follows (List.Forall₂ R) (Node.reports resolver prune slot nodes)
      (Node.reports resolver prune' slot nodes') := by
  induction hnodes generalizing slot with
  | nil => exact .pure .nil
  | cons hnode _ ih =>
    unfold reports
    refine (h slot _ _ hnode).bind fun here here' hhere => ?_
    exact (ih (slot + 1)).bind fun others others' hothers => .pure (.cons hhere hothers)

/-- A matcher that has come to the same values or to none, if its values are named. -/
structure Node.Thins (node node' : Node) : Prop where
  key : node'.key = node.key
  values : node.key ≠ none → node'.published.elim [] Published.values = [] ∨
    node'.published.elim [] Published.values = node.published.elim [] Published.values

theorem Host.Steady.report_follows {host : Host σ} (hsteady : host.Steady) {prune prune' : Bool}
    (slot : Slot) {node node' : Node} (h : node.Thins node') :
    Follows (fun _ _ => True) (node.report host.resolver prune slot)
      (node'.report host.resolver prune' slot) := by
  unfold Node.report
  dsimp only
  rw [h.key]
  cases hkey : node.key with
  | none =>
    exact Follows.bind (R := fun _ _ => True) (.pure trivial) fun _ _ _ => .pure trivial
  | some key =>
    have hnames : Follows (fun _ _ => True)
        (Entity.describeAll host.resolver (node.published.elim [] Published.values))
        (Entity.describeAll host.resolver (node'.published.elim [] Published.values)) := by
      intro t u names hnames
      rcases h.values (by simp [hkey]) with hvalues | hvalues
      · exact ⟨some [], by rw [hvalues]; rfl, trivial⟩
      · refine ⟨names, ?_, trivial⟩
        rw [hvalues]
        exact (hsteady.describeAll_constant _ u t).trans hnames
    exact hnames.bind fun _ _ _ => .pure trivial

/-! ## The end of a run -/

namespace Run

open Progress (At)

variable {ctx ctx' : RunContext σ} {start : Graph} {ground : Ground} {pub : Publications}

/-- The result at the end of a run but for the names of the values. -/
def unnamed (ctx : RunContext σ) (count : Nat) (p : Progress σ) : MatchResult where
  sweeps := count
  reports := p.graph.nodes.mapIdx fun slot node =>
    { slot
      kind := node.kind
      key := node.key
      outcome := node.outcome ctx.config.pruneUnconsumed
      sweep := node.published.map (·.sweep)
      values := node.published.elim [] Published.values }
  failures := p.failures

theorem unnamed_tells (ctx : RunContext σ) (count : Nat) (p : Progress σ) :
    (unnamed ctx count p).Tells ctx.config.pruneUnconsumed p.graph := by
  refine List.forall₂_iff_get.2 ⟨List.length_mapIdx, fun i hi hi' => ?_⟩
  simp only [unnamed, List.get_eq_getElem, List.getElem_mapIdx]
  exact ⟨rfl, rfl, rfl, rfl, rfl⟩

theorem collect_eq_ok {count : Nat} {p : Progress σ} {result : MatchResult} :
    (collect ctx count p : Except Payload MatchResult × Progress σ).1 = .ok result ↔
      (Node.reports ctx.host.resolver ctx.config.pruneUnconsumed 0 p.graph.nodes p.world :
        Except Payload (List Report) × σ).1 = .ok result.reports ∧
      result.sweeps = count ∧ result.failures = p.failures := by
  rw [collect_eq]
  generalize (Node.reports ctx.host.resolver ctx.config.pruneUnconsumed 0 p.graph.nodes p.world :
    Except Payload (List Report) × σ).1 = outcome
  cases outcome with
  | error e => simp [Except.map]
  | ok reports =>
    simp only [Except.map, Except.ok.injEq]
    constructor
    · rintro rfl
      exact ⟨rfl, rfl, rfl⟩
    · rintro ⟨hreports, hsweeps, hfailures⟩
      exact MatchResult.eq_of_parts hsweeps.symm hreports hfailures.symm

theorem collect_follows {R : Report → Report → Prop} {count count' : Nat} {p p' : Progress σ}
    (h : Follows (List.Forall₂ R)
      (Node.reports ctx.host.resolver ctx.config.pruneUnconsumed 0 p.graph.nodes)
      (Node.reports ctx'.host.resolver ctx'.config.pruneUnconsumed 0 p'.graph.nodes))
    {result : MatchResult}
    (hresult : (collect ctx count p : Except Payload MatchResult × Progress σ).1 = .ok result) :
    ∃ result', (collect ctx' count' p' : Except Payload MatchResult × Progress σ).1 =
      .ok result' ∧ List.Forall₂ R result.reports result'.reports := by
  obtain ⟨hreports, -, -⟩ := collect_eq_ok.1 hresult
  obtain ⟨reports, hreports', hR⟩ := h p.world p'.world _ hreports
  exact ⟨.ofParts count' reports p'.failures, collect_eq_ok.2 ⟨hreports', rfl, rfl⟩, hR⟩

end Run

namespace Session

open Run
open Progress (At)

variable {session : Session} {host : Host σ} {world : σ} {ground : Ground} {pub : Publications}
  {arrange : List Slot → List Slot} {lists : List (List String)} {verdict : String → Decision}
  {result : MatchResult} {p q : Progress σ}

theorem execute_of_unstarted {e : RunError}
    (hstart : session.last.forM (seed (session.context arrange lists host))
      { world, graph := session.graph } = (.error e, p)) :
    session.execute arrange lists host world = (.error e, p) := by
  change (resolve (session.context arrange lists host) session.last
    { world, graph := session.graph } : Except RunError MatchResult × Progress σ) = _
  rw [resolve, bind_apply, hstart]

/-- The end of a run that has started: the sweeps are over, on the ground of the session, and the
result is that of the reports. -/
structure Closes (session : Session) (arrange : List Slot → List Slot) (lists : List (List String))
    (host : Host σ) (world : σ) (start : Progress σ) (ground : Ground) (pub : Publications)
    (count : Nat) (q : Progress σ) : Prop where
  seeded : session.last.forM (seed (session.context arrange lists host))
    { world, graph := session.graph } = (.ok (), start)
  started : At (session.context arrange lists host) session.graph ground
    (session.seedPublications host world) start
  finished : session.Finished (session.context arrange lists host) world ground pub
    (unnamed (session.context arrange lists host) count q) q
  sweeps : Run.sweeps (session.context arrange lists host) 1 (start.graph.size + 1) start =
    (.ok count, q)
  execute : session.execute arrange lists host world =
    ((collect (session.context arrange lists host) count q :
        Except Payload MatchResult × Progress σ).1.mapError .crash,
      (collect (session.context arrange lists host) count q :
        Except Payload MatchResult × Progress σ).2)

/-- **Nothing but a name ends a run that has started**, with a steady host and a policy that never
crashes. -/
theorem execute_of_started (hg : session.graph.Built)
    (harrange : ∀ items, (arrange items).Perm items) (hsteady : host.Steady)
    (hverdict : host.Judges verdict)
    (hstart : session.last.forM (seed (session.context arrange lists host))
      { world, graph := session.graph } = (.ok (), p)) :
    ∃ ground pub count q, session.Closes arrange lists host world p ground pub count q := by
  set ctx := session.context arrange lists host with hctx
  obtain ⟨ground, hground, hp⟩ := Leads.ok (start_leads hg) rfl hstart
  have hfuel : ground.remaining (session.seedPublications host world) < p.graph.size + 1 := by
    rw [hp.graph, Ground.size_after]
    exact Nat.lt_succ_of_le Ground.remaining_le
  obtain ⟨count, q, hsweeps, -⟩ :=
    (@sweeps_returns _ ctx _ _ _ _ harrange hsteady hverdict hground.published 1
      (p.graph.size + 1)).returns hp
  obtain ⟨pub, hq, hschedule⟩ := Leads.ok
    (@sweeps_leads _ ctx _ _ _ _ harrange hground.published _ hfuel) hp hsweeps
  refine ⟨ground, pub, count, q, hstart, hp,
    ⟨hground, hq, hschedule, unnamed_tells ctx count q⟩, hsweeps, ?_⟩
  change (resolve ctx session.last { world, graph := session.graph } :
    Except RunError MatchResult × Progress σ) = _
  rw [resolve, bind_apply, hstart]
  exact collect_of_sweeps hsweeps

namespace Closes

variable {start : Progress σ} {pub : Publications} {count : Nat}

theorem collect_of_ok (h : session.Closes arrange lists host world start ground pub count q)
    (hresult : (session.execute arrange lists host world).1 = .ok result) :
    (collect (session.context arrange lists host) count q :
      Except Payload MatchResult × Progress σ).1 = .ok result := by
  rw [h.execute] at hresult
  revert hresult
  generalize (collect (session.context arrange lists host) count q :
    Except Payload MatchResult × Progress σ).1 = outcome
  cases outcome with
  | error e => exact fun hresult => nomatch hresult
  | ok _ =>
    intro hresult
    cases hresult
    rfl

theorem ok_of_collect (h : session.Closes arrange lists host world start ground pub count q)
    (hresult : (collect (session.context arrange lists host) count q :
      Except Payload MatchResult × Progress σ).1 = .ok result) :
    (session.execute arrange lists host world).1 = .ok result := by
  rw [h.execute, hresult]
  rfl

theorem of_ok (h : session.Closes arrange lists host world start ground pub count q)
    (hresult : (session.execute arrange lists host world).1 = .ok result) :
    session.Finished (session.context arrange lists host) world ground pub result
        (session.execute arrange lists host world).2 ∧
      result.failures = q.failures := by
  have hcollect := h.collect_of_ok hresult
  obtain ⟨hat, hcount, htells⟩ :=
    (collect_leads count q h.finished.standing).of_ok hcollect
  have hsweeps := h.finished.sweeps
  rw [h.execute]
  refine ⟨⟨h.finished.grounds, hat, ?_, htells⟩, (collect_eq_ok.1 hcollect).2.2⟩
  rw [hcount]
  exact hsweeps

/-- If there is nothing more to name than in a run that returns, the other run returns too. -/
theorem returns_of_thins {session' : Session} {arrange' : List Slot → List Slot}
    {lists' : List (List String)} {world' : σ} {start' : Progress σ} {ground' : Ground}
    {pub' : Publications} {count' : Nat} {q' : Progress σ}
    (h : session.Closes arrange lists host world start ground pub count q)
    (h' : session'.Closes arrange' lists' host world' start' ground' pub' count' q')
    (hsteady : host.Steady) (hthins : List.Forall₂ Node.Thins q.graph.nodes q'.graph.nodes)
    (hresult : (session.execute arrange lists host world).1 = .ok result) :
    ∃ result', (session'.execute arrange' lists' host world').1 = .ok result' := by
  have hreports : ∀ prune prune', Follows (List.Forall₂ fun _ _ => True)
      (Node.reports host.resolver prune 0 q.graph.nodes)
      (Node.reports host.resolver prune' 0 q'.graph.nodes) := fun prune prune' =>
    Node.reports_follows (fun slot _ _ hnode => hsteady.report_follows slot hnode) hthins 0
  obtain ⟨result', hcollect, -⟩ :=
    @collect_follows _ (session.context arrange lists host)
      (session'.context arrange' lists' host) _ count count' q q' (hreports _ _) _
      (h.collect_of_ok hresult)
  exact ⟨result', h'.ok_of_collect hcollect⟩

theorem graph_eq (h : session.Closes arrange lists host world start ground pub count q) :
    (session.execute arrange lists host world).2.graph = ground.after pub := by
  rw [h.execute]
  exact graph_collect h.finished.standing count

end Closes

/-! ## What is published -/

namespace Finished

theorem unpruned
    (h : session.Finished (session.context arrange lists host) world ground pub result q)
    (hm : pub m ≠ none) : session.Unpruned host world m := by
  by_contra hpruned
  exact hm (h.unpublished hpruned)

theorem pruned_iff
    (h : session.Finished (session.context arrange lists host) world ground pub result q) :
    result.outcome? m = some .pruned ↔
      m < session.graph.size ∧ ¬ session.Unpruned host world m := by
  cases hp : pub m with
  | some published =>
    rw [h.outcome?_of_published hp]
    refine iff_of_false ?_ fun hm => hm.2 (h.unpruned (by simp [hp]))
    split_ifs <;> simp
  | none =>
    by_cases hsize : m < session.graph.size
    · rw [h.outcome?_of_unpublished hsize hp]
      by_cases hm : session.Unpruned host world m <;> simp [hm, hsize]
    · rw [h.outcome?_eq_none (Nat.not_lt.1 hsize)]
      simp [hsize]

theorem missed_iff
    (h : session.Finished (session.context arrange lists host) world ground pub result q)
    {m : Slot} : result.outcome? m = some .missed ↔ pub m ≠ none ∧ pub.values m = [] := by
  cases hp : pub m with
  | some published =>
    rw [h.outcome?_of_published hp, Publications.values, hp]
    by_cases hvalues : published.values = [] <;> simp [hvalues]
  | none =>
    by_cases hsize : m < session.graph.size
    · rw [h.outcome?_of_unpublished hsize hp]
      split_ifs <;> simp
    · simp [h.outcome?_eq_none (Nat.not_lt.1 hsize)]

/-- What holds of a matcher if it does of all that it depends on holds of all that is published. -/
theorem induction {motive : Slot → Prop}
    (h : session.Finished (session.context arrange lists host) world ground pub result q)
    (step : ∀ m, pub m ≠ none →
      (∀ d ∈ session.dependencies host world m, pub d ≠ none ∧ motive d) → motive m)
    {m : Slot} (hm : pub m ≠ none) : motive m := by
  have hground : session.Grounds host world ground := h.grounds
  -- dependencies come to an end, since what is published reaches no cycle
  induction m using (wellFounded_of_not_reachesCycle ground.fresh_refs.inRange).induction with
  | _ m ih =>
    refine step m hm fun d hd => ?_
    rw [← hground.refs_eq] at hd
    have hpub := h.standing.sound.closed m hm d hd
    exact ⟨hpub, ih d ⟨hd, h.not_reachesCycle hm⟩ hpub⟩

theorem sweep_eq
    (h : session.Finished (session.context arrange lists host) world ground pub result q)
    {m : Slot} (hm : pub m ≠ none) : pub.sweep m = if m ∈ session.seeded host world then 0 else
      dueSweep session.graph.rank pub.sweep (session.dependencies host world m) m := by
  have hground : session.Grounds host world ground := h.grounds
  have htimely := h.timely.1
  split_ifs with hseeded
  · exact (htimely.detached m ((hground.detached m).2 hseeded)).2
  · rw [(htimely.past m hm fun hmd => hseeded ((hground.detached m).1 hmd)).1, Ground.due,
      hground.refs_eq, hground.rank_eq]

end Finished

end Session

end Metamatch
