import Metamatch.Proofs.Names
import Metamatch.Proofs.Run.Finish
import Metamatch.Proofs.Run.Invariant

/-!
# Values taken over

A run first takes values over from an earlier result. A matcher does so if all of them are found
again, and is done with then.

* `EntityName.Locates`, `Seed.Turn`: the questions that decide it, matcher by matcher.
* `Seed.gather_turns`: those are the questions that a run asks.
* `Graph.Done`, `Run.done_invariant`: a matcher that has its values is never searched for.
* `takeovers_of_calm`: what is taken over, and what becomes of it.
-/

namespace Metamatch

variable {σ : Type}

/-- A resolver that never crashes. Its answers may be errors. -/
abbrev Resolver.Calm (resolver : Resolver σ) : Prop :=
  resolver.Answers (fun _ => True) fun mishap _ => mishap.IsError

theorem Registry.calm (registry : Registry) : (registry.resolver : Resolver σ).Calm := by
  constructor <;> exact fun _ => (Call.ofExcept_leads _).weaken (fun _ => id)
    (fun _ _ _ => trivial) fun _ _ => id

/-! ## Questions -/

/-- Names are put to a resolver one after the other: the values found, if all of them are, and the
state of the surroundings after the last question. The first one in vain is the last. -/
inductive EntityName.Locates (resolver : Resolver σ) :
    List (Entity × EntityName) → σ → Option (List Entity) → σ → Prop
  | done (world : σ) : Locates resolver [] world (some []) world
  | found {value other : Entity} {name : EntityName} {rest : List (Entity × EntityName)}
      {world between after : σ} {values : Option (List Entity)} :
      name.locate resolver value world = (.ok (some other), between) →
      Locates resolver rest between values after →
      Locates resolver ((value, name) :: rest) world (values.map (other :: ·)) after
  | absent {value : Entity} {name : EntityName} {rest : List (Entity × EntityName)}
      {world after : σ} :
      name.locate resolver value world = (.ok none, after) →
      Locates resolver ((value, name) :: rest) world none after
  | failed {value : Entity} {name : EntityName} {rest : List (Entity × EntityName)}
      {world after : σ} {e : LookupError} :
      name.locate resolver value world = (.error (.error e), after) →
      Locates resolver ((value, name) :: rest) world none after

/-- The report with the key of a matcher suits it: it is of the same kind and resolved, and it has
a name for each of its values, of which there are some. -/
structure MatchResult.Suits (last : MatchResult) (node : Node) (report : Report) : Prop where
  keyed : ∃ key, node.key = some key ∧ last.keyed? key = some report
  kind : report.kind = node.kind
  outcome : report.outcome = .resolved
  values : report.values ≠ []
  names : report.names.length = report.values.length

/-- The turn of a matcher: the values that it takes over, if any, between two states of the
surroundings. Unless a report suits it, nothing is asked. -/
inductive Seed.Turn (resolver : Resolver σ) (last : MatchResult) (node : Node) :
    σ → Option (List Entity) → σ → Prop
  | passed (world : σ) : (∀ report, ¬ last.Suits node report) →
      Turn resolver last node world none world
  | asked {report : Report} {world after : σ} {values : Option (List Entity)} :
      last.Suits node report →
      EntityName.Locates resolver (report.values.zip report.names) world values after →
      Turn resolver last node world values after

theorem MatchResult.suits_iff {last : MatchResult} {node : Node} {report : Report} :
    last.Suits node report ↔
      last.offer? node = some report ∧ report.names.length = report.values.length := by
  constructor
  · rintro ⟨⟨key, hkey, hkeyed⟩, hkind, houtcome, hvalues, hnames⟩
    refine ⟨?_, hnames⟩
    simp [offer?, hkey, hkeyed, Report.offers, hkind, houtcome, hvalues]
  · rintro ⟨hoffer, hnames⟩
    obtain ⟨key, hkey, hkeyed, hoffers⟩ := keyed?_of_offer? hoffer
    simp only [Report.offers, Bool.and_eq_true, beq_iff_eq, Bool.not_eq_true',
      List.isEmpty_eq_false_iff] at hoffers
    exact ⟨⟨key, hkey, hkeyed⟩, hoffers.1.1, hoffers.1.2, hoffers.2, hnames⟩

namespace EntityName

variable {resolver : Resolver σ}

theorem Locates.length_eq {items : List (Entity × EntityName)} {world after : σ}
    {values : List Entity} (h : Locates resolver items world (some values) after) :
    values.length = items.length := by
  generalize hfound : some values = found at h
  induction h generalizing values with
  | done => cases hfound; rfl
  | found _ _ ih =>
    obtain ⟨others, rfl, rfl⟩ := Option.map_eq_some_iff.1 hfound.symm
    exact congrArg (· + 1) (ih rfl)
  | absent => cases hfound
  | failed => cases hfound

theorem locateAll_locates (h : resolver.Calm) (items : List (Entity × EntityName)) (world : σ) :
    ∃ values after, locateAll resolver items world = (.ok values, after) ∧
      Locates resolver items world values after := by
  induction items generalizing world with
  | nil => exact ⟨some [], world, rfl, .done world⟩
  | cons item rest ih =>
    obtain ⟨value, name⟩ := item
    have hcalm := h.locate name value world trivial
    unfold locateAll
    rw [bind_apply]
    simp only [Call.attempt, ExceptT.run, StateT.run, Id.run]
    cases hlocate : (name.locate resolver value world : Except Mishap (Option Entity) × σ) with
    | mk answer between =>
      rw [hlocate] at hcalm
      rcases answer with mishap | (_ | other)
      · obtain ⟨e, rfl⟩ := hcalm
        exact ⟨none, between, rfl, .failed hlocate⟩
      · exact ⟨none, between, rfl, .absent hlocate⟩
      · obtain ⟨values, after, hrest, hlocates⟩ := ih between
        refine ⟨values.map (other :: ·), after, ?_, .found hlocate hlocates⟩
        dsimp only
        rw [bind_apply, hrest]
        rfl

end EntityName

namespace Seed

variable {resolver : Resolver σ} {last : MatchResult} {g : Graph}

theorem Turn.ne_nil {node : Node} {world after : σ} {values : List Entity}
    (h : Turn resolver last node world (some values) after) : values ≠ [] := by
  cases h with
  | asked hsuits hlocates =>
    have hlength := hlocates.length_eq
    rw [List.length_zip, hsuits.names, Nat.min_self] at hlength
    exact List.length_pos_iff.1 (hlength ▸ List.length_pos_iff.2 hsuits.values)

theorem gather_cons (h : resolver.Calm) (last : MatchResult) (g : Graph) (s : Slot)
    (rest : List Slot) (world : σ) :
    ∃ values between,
      (∀ node, g.get? s = some node → Turn resolver last node world values between) ∧
      ∀ seeds after, gather resolver last g rest between = (.ok seeds, after) →
        gather resolver last g (s :: rest) world =
          (.ok ((values.map (s, ·)).toList ++ seeds), after) := by
  cases hoffer : (g.get? s).bind last.offer? with
  | none =>
    refine ⟨none, world, fun node hnode => .passed world fun report hsuits => ?_, ?_⟩
    · rw [hnode, Option.bind_some, (MatchResult.suits_iff.1 hsuits).1] at hoffer
      cases hoffer
    · intro seeds after hrest
      rw [gather, hoffer]
      exact hrest
  | some report =>
    obtain ⟨node, hnode, hreport⟩ := Option.bind_eq_some_iff.1 hoffer
    have hgather : ∀ values between,
        report.relocate resolver world = (.ok values, between) → ∀ seeds after,
          gather resolver last g rest between = (.ok seeds, after) →
          gather resolver last g (s :: rest) world =
            (.ok ((values.map (s, ·)).toList ++ seeds), after) := by
      intro values between hrelocate seeds after hrest
      rw [gather, hoffer]
      dsimp only
      rw [bind_apply, hrelocate]
      cases values with
      | none => exact hrest
      | some values =>
        dsimp only
        rw [bind_apply, hrest]
        rfl
    by_cases hnames : report.names.length = report.values.length
    · obtain ⟨values, between, hlocate, hlocates⟩ :=
        EntityName.locateAll_locates h (report.values.zip report.names) world
      refine ⟨values, between, fun other hother => ?_, hgather values between ?_⟩
      · cases hnode.symm.trans hother
        exact .asked (MatchResult.suits_iff.2 ⟨hreport, hnames⟩) hlocates
      · rw [Report.relocate, if_pos hnames]
        exact hlocate
    · refine ⟨none, world, fun other hother => ?_, hgather none world ?_⟩
      · cases hnode.symm.trans hother
        refine .passed world fun report' hsuits => hnames ?_
        obtain ⟨hreport', hnames'⟩ := MatchResult.suits_iff.1 hsuits
        cases hreport.symm.trans hreport'
        exact hnames'
      · rw [Report.relocate, if_neg hnames]
        rfl

/-- **Matchers have their turns one after the other**, and none of them ends the run. -/
theorem gather_turns (h : resolver.Calm) (last : MatchResult) (g : Graph) (first count : Nat)
    (world : σ) :
    ∃ (turn : Slot → σ) (seeds : List (Slot × List Entity)) (after : σ),
      gather resolver last g (List.range' first count) world = (.ok seeds, after) ∧
      turn first = world ∧ (∀ m < first, seeds.lookup m = none) ∧
      ∀ m node, first ≤ m → m < first + count → g.get? m = some node →
        Turn resolver last node (turn m) (seeds.lookup m) (turn (m + 1)) := by
  induction count generalizing first world with
  | zero => exact ⟨fun _ => world, [], world, rfl, rfl, fun _ _ => rfl, fun m _ _ _ => by omega⟩
  | succ count ih =>
    obtain ⟨values, between, hturn, hgather⟩ :=
      gather_cons h last g first (List.range' (first + 1) count) world
    obtain ⟨turn, seeds, after, hrest, hbetween, hnone, hturns⟩ := ih (first + 1) between
    have hlookup : ∀ m, ((values.map (first, ·)).toList ++ seeds).lookup m =
        if m = first then values else seeds.lookup m := by
      intro m
      cases values with
      | none =>
        by_cases hm : m = first
        · rw [if_pos hm, hm]
          exact hnone first (Nat.lt_succ_self first)
        · rw [if_neg hm]
          rfl
      | some values =>
        by_cases hm : m = first
        · rw [if_pos hm, hm]
          exact List.lookup_cons_self
        · rw [if_neg hm, Option.map_some, Option.toList_some, List.singleton_append,
            List.lookup_cons, beq_false_of_ne hm]
    refine ⟨fun m => if m ≤ first then world else turn m, _, after, hgather seeds after hrest,
      if_pos (Nat.le_refl first), fun m hm => ?_, fun m node hfirst hcount hnode => ?_⟩
    · rw [hlookup, if_neg (Nat.ne_of_lt hm)]
      exact hnone m (Nat.lt_succ_of_lt hm)
    · rw [hlookup]
      by_cases hm : m = first
      · subst hm
        simp only [if_true, Nat.le_refl, if_neg (Nat.not_succ_le_self m), hbetween]
        exact hturn node hnode
      · have hlt : first < m := Nat.lt_of_le_of_ne hfirst (Ne.symm hm)
        have hturn := hturns m node hlt (by omega) hnode
        simpa [hm, Nat.not_le.2 hlt, Nat.not_le.2 (Nat.lt_succ_of_lt hlt)] using hturn

end Seed

/-! ## Matchers that are done -/

/-- The matcher is published, so that no further publication of it is possible. -/
def Graph.Done (m : Slot) (published : Published) (g : Graph) : Prop :=
  ∃ node, g.get? m = some node ∧ node.counter = 0 ∧ node.published = some published

namespace Graph.Done

variable {g g' : Graph} {m s : Slot} {published : Published}

theorem publish (h : g.Done m published) {values : List Entity} {sweep : Nat}
    (hpublish : g.publish s values sweep = .ok g') : g'.Done m published := by
  obtain ⟨node, hnode, hcounter, hpublished⟩ := h
  obtain ⟨other, hother, hready, -, hget⟩ := Graph.publish_cases hpublish
  have hsm : s ≠ m := by
    rintro rfl
    cases hnode.symm.trans hother
    simp [hcounter] at hready
  refine ⟨_, by rw [hget, hnode]; rfl, ?_, ?_⟩
  · simp [hsm, hcounter]
  · simp [hsm, hpublished]

theorem unsubscribe (h : g.Done m published) (s d : Slot) :
    (g.unsubscribe s d).Done m published := by
  rcases g.unsubscribe_eq_or s d with hg | ⟨index, hg⟩ <;> rw [hg]
  · exact h
  · obtain ⟨node, hnode, hcounter, hpublished⟩ := h
    refine ⟨_, by rw [Graph.get?_drop, hnode]; rfl, ?_, ?_⟩
    · simp [hcounter]
    · exact hpublished

theorem detach (h : g.Done m published) (s : Slot) : (g.detach s).Done m published := by
  unfold Graph.detach
  generalize g.references s = slots
  induction slots generalizing g with
  | nil => exact h
  | cons d rest ih => exact ih (h.unsubscribe s d)

/-- A matcher with earlier values is not ready, so no sweep takes it. -/
theorem not_mem_ready (h : g.Done m published) (prune : Bool) (kind : Kind) :
    m ∉ g.ready prune kind := by
  obtain ⟨node, hnode, hcounter, -⟩ := h
  simp [Graph.ready, hnode, Node.isReady, hcounter]

end Graph.Done

/-- The matcher is done, and no batch so far has held it. -/
structure Progress.Done (m : Slot) (published : Published) (p : Progress σ) : Prop where
  graph : p.graph.Done m published
  batches : ∀ batch ∈ p.batches, m ∉ batch.slots

namespace Run

/-- **A matcher that is done stays so**, and is never searched for. -/
theorem done_invariant (ctx : RunContext σ) (last : Option MatchResult) (m : Slot)
    (published : Published) :
    Invariant ctx last (fun _ _ => True) (Progress.Done m published) := by
  refine .of_keeps (fun _ _ _ => ?search) (fun _ _ => ?gather) (fun _ _ => ?reports)
    (fun _ _ => ?consult) (fun sweep kind => ?draw) (fun s => ?detach) fun s values sweep => ?publish
  case draw =>
    intro p hp
    exact ⟨hp.graph, List.forall_mem_cons.2 ⟨hp.graph.not_mem_ready _ _, hp.batches⟩⟩
  case detach =>
    exact detach_keeps (fun p hp => ⟨hp.graph, hp.batches⟩)
      fun p hp => ⟨hp.graph.detach s, hp.batches⟩
  case publish =>
    refine publish_keeps ?_ fun _ => Keeps.of_state fun p hp => ⟨hp.graph, hp.batches⟩
    exact change_keeps (fun p hp => ⟨hp.graph, hp.batches⟩) fun p g hp h =>
      ⟨hp.graph.publish h, hp.batches⟩
  all_goals exact Keeps.of_state fun p hp => ⟨hp.graph, hp.batches⟩

end Run

/-! ## Sessions -/

/-- What becomes of the matchers of a session while values are taken over. Each of them has its
turn, in which it finds values or none. Those that find some are published with them. The others
await nothing but each other, and miss nothing. -/
structure Session.TakesOver (session : Session) (resolver : Resolver σ) (last : MatchResult)
    (world : σ) (turn : Slot → σ) (found : Slot → Option (List Entity)) (p : Progress σ) : Prop
    where
  first : turn 0 = world
  turns : ∀ m node, session.graph.get? m = some node →
    Seed.Turn resolver last node (turn m) (found m) (turn (m + 1))
  published : ∀ m, (p.graph.get? m).bind (·.published) = (found m).map (⟨·, 0⟩)
  others : ∀ m < session.graph.size, found m = none → ∃ node, p.graph.get? m = some node ∧
    node.counter = 1 + ∑ s ∈ Finset.range session.graph.size with found s = none,
      session.graph.subscriptions m s ∧
    node.missed = 0
  unchanged : (∀ m, found m = none) → p.graph = session.graph

/-- The values of a matcher at the end of a run, their publication, the only one of the matcher,
and the batches, none of which holds it. -/
structure Progress.Settled (m : Slot) (published : Published) (p : Progress σ) : Prop where
  graph : (p.graph.get? m).bind (·.published) = some published
  once : p.steps.filterMap (·.change.valuesFor? m) = [published.values]
  batches : ∀ batch ∈ p.batches, m ∉ batch.slots

theorem Progress.At.done {ctx : RunContext σ} {start : Graph} {ground : Ground}
    {pub : Publications} {p : Progress σ} (hp : p.At ctx start ground pub) {m : Slot}
    {published : Published} (hm : pub m = some published) : p.graph.Done m published := by
  obtain ⟨node, hnode⟩ := Graph.lt_size_iff.1 (hp.sound.inRange m (by simp [hm]))
  refine ⟨_, by rw [hp.graph, Ground.get?_after, hnode]; rfl, ?_, hm⟩
  simp [Node.after, hm]

namespace Session

open Run
open Progress (At)

variable {session : Session} {host : Host σ} {world : σ} {arrange : List Slot → List Slot}
  {lists : List (List String)} {last : MatchResult} {ground : Ground} {p : Progress σ}

theorem graph_of_unseeded (hground : session.Grounds host world ground) {ctx : RunContext σ}
    (hp : At ctx session.graph ground (session.seedPublications host world) p)
    (hnone : ∀ m, (session.seeds host world).lookup m = none) : p.graph = session.graph := by
  have hseeded : session.seeded host world = [] :=
    List.eq_nil_iff_forall_not_mem.2 fun m hm => lookup_seeds_ne_none.2 hm (hnone m)
  have hpub : session.seedPublications host world = fun _ => none := by
    funext m
    rw [seedPublications, hnone, Option.map_none]
  rw [hp.graph, hpub, ground.after_none, hground.graph, seededGraph, hseeded, List.foldl_nil]

theorem node_of_unseeded (hg : session.graph.Built) (hground : session.Grounds host world ground)
    {ctx : RunContext σ}
    (hp : At ctx session.graph ground (session.seedPublications host world) p)
    (hne : ∀ d values, d < session.graph.size →
      (session.seeds host world).lookup d = some values → values ≠ [])
    {m : Slot} (hm : m < session.graph.size) (hnone : (session.seeds host world).lookup m = none) :
    ∃ node, p.graph.get? m = some node ∧
      node.counter = 1 + ∑ s ∈ Finset.range session.graph.size
        with (session.seeds host world).lookup s = none, session.graph.subscriptions m s ∧
      node.missed = 0 := by
  have hpub : session.seedPublications host world m = none := by
    rw [seedPublications, hnone, Option.map_none]
  have hrefs : ground.refs m = session.graph.references m := by
    rw [hground.refs_eq, dependencies, if_neg]
    exact fun hseeded => lookup_seeds_ne_none.2 hseeded hnone
  obtain ⟨node, hnode⟩ := Graph.lt_size_iff.1 (hground.size_eq.symm ▸ hm)
  refine ⟨_, by rw [hp.graph, Ground.get?_after, hnode]; rfl, ?_, ?_⟩
  · rw [hg.fresh.sum_subscriptions, ← hrefs, hpub]
    refine congrArg (1 + ·) (List.countP_congr fun d _ => ?_)
    simp [seedPublications]
  · refine List.countP_eq_zero.2 fun d hd hmissed => ?_
    have hsize := hground.size_eq ▸ ground.fresh_refs.inRange m d hd
    cases hvalues : (session.seeds host world).lookup d with
    | none => simp [seedPublications, hvalues] at hmissed
    | some values =>
      simp only [seedPublications, hvalues, Option.map_some, Option.any_some,
        List.isEmpty_iff] at hmissed
      exact hne d values hsize hvalues hmissed

/-- The turns of matchers lead to the publications at the start of a run. -/
theorem takesOver_of_at (hg : session.graph.Built) (hlast : session.last = some last)
    (hcalm : host.resolver.Calm) (hground : session.Grounds host world ground)
    {ctx : RunContext σ}
    (hp : At ctx session.graph ground (session.seedPublications host world) p) :
    ∃ turn, session.TakesOver host.resolver last world turn
      (fun m => (session.seeds host world).lookup m) p := by
  obtain ⟨turn, seeds, after, hgather, hfirst, -, hturns⟩ :=
    Seed.gather_turns hcalm last session.graph 0 session.graph.size world
  have hseeds : session.seeds host world = seeds := by
    rw [Session.seeds, hlast, Option.elim_some, Graph.slots, List.range_eq_range', hgather]
    rfl
  have hturn : ∀ m node, session.graph.get? m = some node → Seed.Turn host.resolver last node
      (turn m) ((session.seeds host world).lookup m) (turn (m + 1)) := by
    intro m node hnode
    rw [hseeds]
    exact hturns m node (Nat.zero_le m) (by simpa using Graph.lt_size hnode) hnode
  have hne : ∀ d values, d < session.graph.size →
      (session.seeds host world).lookup d = some values → values ≠ [] := by
    intro d values hsize hvalues
    obtain ⟨node, hnode⟩ := Graph.lt_size_iff.1 hsize
    exact (hvalues ▸ hturn d node hnode).ne_nil
  exact ⟨turn, hfirst, hturn, hp.published, fun m => node_of_unseeded hg hground hp hne,
    graph_of_unseeded hground hp⟩

/-- Nothing goes wrong while values are taken over from an earlier result. -/
theorem takeOver_of_calm (hg : session.graph.Built) (hlast : session.last = some last)
    (hcalm : host.resolver.Calm) (arrange : List Slot → List Slot) (lists : List (List String))
    (world : σ) :
    ∃ crashes p ground,
      takeOver (session.context arrange lists host) last { world, graph := session.graph } =
        (.ok crashes, p) ∧
      session.Grounds host world ground ∧
      At (session.context arrange lists host) session.graph ground
        (session.seedPublications host world) p := by
  have hleads : Leads (· = { world, graph := session.graph })
      (takeOver (session.context arrange lists host) last)
      (fun _ p => ∃ ground, session.Grounds host world ground ∧
        At (session.context arrange lists host) session.graph ground
          (session.seedPublications host world) p)
      fun _ _ => False := by
    refine takeOver_leads hg hlast fun payload ground p hcrash _ => ?_
    obtain ⟨-, seeds, after, hgather, -⟩ :=
      Seed.gather_turns hcalm last session.graph 0 session.graph.size world
    rw [Graph.slots, List.range_eq_range', hgather] at hcrash
    cases hcrash
  obtain ⟨crashes, p, htake, ground, hground, hp⟩ := hleads.returns rfl
  exact ⟨crashes, p, ground, htake, hground, hp⟩

/-- What is taken over is settled at the end of a run, whether it returns or not. -/
theorem settled_of_takeOver (hg : session.graph.Built) (hlast : session.last = some last)
    (harrange : ∀ items, (arrange items).Perm items) {crashes : List (Slot × List Payload)}
    (htake : takeOver (session.context arrange lists host) last { world, graph := session.graph } =
      (.ok crashes, p))
    {pub : Publications}
    (hp : At (session.context arrange lists host) session.graph ground pub p) {m : Slot}
    {published : Published} (hm : pub m = some published) :
    (session.execute arrange lists host world).2.Settled m published := by
  set ctx := session.context arrange lists host
  have hbatches : p.batches = [] := (((seed_batches ctx (some last) []).takeOver rfl).ok rfl htake).2
  have hdone : p.Done m published := ⟨hp.done hm, by simp [hbatches]⟩
  have hinvariant := done_invariant ctx session.last m published
  have hseed : Leads (· = { world, graph := session.graph }) (session.last.forM (seed ctx))
      (fun _ => Progress.Done m published) fun _ => Progress.Done m published := by
    rw [hlast]
    change Leads _ (seed ctx last) _ _
    unfold seed
    refine Leads.bind (Q := fun _ => Progress.Done m published) ?_ fun crashes => ?_
    · rintro _ rfl
      rw [htake]
      exact hdone
    · intro p hp
      have htasks := hinvariant.tasks hp (Nat.zero_le _)
      exact Leads.forM (fun crash _ => adapt_keeps (htasks.reportCrashes ⟨published, trivial⟩ crash.2)) p hp
  have hend : (session.execute arrange lists host world).2.Done m published :=
    (hinvariant.resolve_of_seed hseed _ rfl).state (fun _ _ hq => hq) fun _ _ hq => hq
  have hrecorded : Recorded session.graph (session.execute arrange lists host world).2.steps
      (session.execute arrange lists host world).2.graph :=
    (session.execute_ends hg harrange lists host world).state
      (fun _ _ ⟨_, _, hq⟩ => hq.standing.recorded) fun _ _ ⟨_, _, _, hq⟩ => hq.recorded
  obtain ⟨node, hnode, -, hpublished⟩ := hend.graph
  refine ⟨by rw [hnode]; exact hpublished, ?_, hend.batches⟩
  rw [hrecorded.publications hg.fresh.valuation_eq_none, Graph.valuation_eq, hnode,
    Option.map_some, hpublished]
  rfl

end Session

/-- **Values are taken over all or nothing**: each matcher takes over what the names in its report
lead to if all do, and is published with that before the first sweep and never again. -/
theorem takeovers_of_calm {session : Session} (hg : session.graph.Built) {last : MatchResult}
    (hlast : session.last = some last) {arrange : List Slot → List Slot}
    (harrange : ∀ items, (arrange items).Perm items) (lists : List (List String)) {host : Host σ}
    (hcalm : host.resolver.Calm) (world : σ) :
    ∃ turn found crashes p,
      Run.takeOver (session.context arrange lists host) last
        { world, graph := session.graph } = (.ok crashes, p) ∧
      session.TakesOver host.resolver last world turn found p ∧
      ∀ m values, found m = some values →
        (session.execute arrange lists host world).2.Settled m ⟨values, 0⟩ := by
  obtain ⟨crashes, p, ground, htake, hground, hp⟩ :=
    session.takeOver_of_calm hg hlast hcalm arrange lists world
  obtain ⟨turn, htakes⟩ := session.takesOver_of_at hg hlast hcalm hground hp
  refine ⟨turn, _, crashes, p, htake, htakes, fun m values hm => ?_⟩
  exact session.settled_of_takeOver hg hlast harrange htake hp (congrArg _ hm)

namespace Sample

/-- Two more matchers with the key of the earlier result, which depend on each other. -/
def paired : List ClientCall := calls ++ cycle ++ [.setKey 8 "kept", .setKey 9 "kept"]

/-- The sample with constructors that can be asked for. -/
def calm : Host Nat := { host with resolver := registry.resolver }

/-- The state after its values are taken over. -/
def taken : Except RunError (List (Slot × List Payload)) × Progress Nat :=
  Run.takeOver ((session paired).context List.reverse [["B", "A"]] calm) last
    { world := 0, graph := (session paired).graph }

end Sample

theorem takeovers_of_paired :
    ∃ turn found crashes p,
      Sample.taken = (.ok crashes, p) ∧
      (Sample.session Sample.paired).TakesOver Sample.calm.resolver Sample.last 0 turn found p ∧
      (∀ m ∈ [5, 8, 9], found m = some [.cls ⟨1⟩] ∧
        ((Sample.session Sample.paired).execute List.reverse [["B", "A"]] Sample.calm 0).2.Settled m
          ⟨[.cls ⟨1⟩], 0⟩) ∧
      found 4 = none := by
  obtain ⟨turn, found, crashes, p, htake, htakes, hsettled⟩ :=
    @takeovers_of_calm _ _ (Sample.built Sample.paired (by decide +kernel)) _ rfl List.reverse
      (fun items => items.reverse_perm) [["B", "A"]] Sample.calm Sample.registry.calm 0
  have hfound : ∀ m ∈ [4, 5, 8, 9], (found m).map (⟨·, 0⟩) =
      if m = 4 then none else some (⟨[.cls ⟨1⟩], 0⟩ : Published) := by
    have hgraph : ∀ m ∈ [4, 5, 8, 9], (Sample.taken.2.graph.get? m).bind (·.published) =
        if m = 4 then none else some (⟨[.cls ⟨1⟩], 0⟩ : Published) := by
      decide +kernel
    have htaken : Sample.taken = (.ok crashes, p) := htake
    rw [htaken] at hgraph
    exact fun m hm => (htakes.published m).symm.trans (hgraph m hm)
  have hseeded : ∀ m ∈ [5, 8, 9], found m = some [.cls ⟨1⟩] := by
    intro m hm
    have hne : m ≠ 4 := by rintro rfl; simp at hm
    have hmap := hfound m (List.mem_cons_of_mem 4 hm)
    rw [if_neg hne] at hmap
    obtain ⟨values, hvalues, hsame⟩ := Option.map_eq_some_iff.1 hmap
    rw [hvalues, (Published.mk.inj hsame).1]
  have h4 : found 4 = none := by simpa using hfound 4 List.mem_cons_self
  exact ⟨turn, found, crashes, p, htake, htakes,
    fun m hm => ⟨hseeded m hm, hsettled m _ (hseeded m hm)⟩, h4⟩

end Metamatch
