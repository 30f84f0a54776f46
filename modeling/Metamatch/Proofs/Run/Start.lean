import Metamatch.Proofs.Construction
import Metamatch.Proofs.Keys
import Metamatch.Proofs.Run.Ground
import Metamatch.Run

/-!
# The start of a session

* `Session.seeds`: the values that a session takes over, located at the start of a run.
* `Session.seededGraph`, `Session.dependencies`: the graph without the references of their matchers.
* `Session.Grounds`: the ground that the sweeps start from.
-/

namespace Metamatch

variable {σ : Type}

namespace Session

variable (session : Session) (host : Host σ) (world : σ)

/-- The slots that take values over from the earlier result, with the values located for them. -/
def seeds : List (Slot × List Entity) :=
  session.last.elim [] fun last =>
    (Seed.gather host.resolver last session.graph session.graph.slots world :
      Except Payload (List (Slot × List Entity)) × σ).1.toOption.getD []

/-- The slots that take values over. -/
def seeded : List Slot := (session.seeds host world).map Prod.fst

/-- The graph once these have given up their references. -/
def seededGraph : Graph := (session.seeded host world).foldl Graph.detach session.graph

/-- What a matcher refers to after seeding, as often as it counts. -/
def dependencies (m : Slot) : List Slot :=
  if m ∈ session.seeded host world then [] else session.graph.references m

/-- What is published before the first sweep. -/
def seedPublications : Publications :=
  fun m => ((session.seeds host world).lookup m).map (⟨·, 0⟩)

end Session

/-! ## Values located -/

theorem MatchResult.mem_of_keyed? {result : MatchResult} {key : String} {report : Report}
    (h : result.keyed? key = some report) :
    report ∈ result.reports ∧ report.key = some key := by
  rw [keyed?_eq] at h
  exact ⟨List.mem_reverse.1 (List.mem_of_find?_eq_some h), by simpa using List.find?_some h⟩

theorem MatchResult.keyed?_of_offer? {last : MatchResult} {node : Node} {report : Report}
    (h : last.offer? node = some report) :
    ∃ key, node.key = some key ∧ last.keyed? key = some report ∧
      report.offers node.kind = true := by
  simp only [offer?, Option.bind_eq_bind, Option.bind_eq_some_iff] at h
  obtain ⟨key, hkey, found, hfound, h⟩ := h
  split at h
  · next hoffers =>
    cases h
    exact ⟨key, hkey, hfound, hoffers⟩
  · cases h

/-- Slots of a list, in order, whose matchers have a key. -/
def Seed.Gathered (g : Graph) (slots : List Slot) (seeds : List (Slot × List Entity)) : Prop :=
  (seeds.map Prod.fst).Sublist slots ∧
    ∀ s ∈ seeds.map Prod.fst, ∃ node, g.get? s = some node ∧ node.key ≠ none

theorem Seed.Gathered.skip {g : Graph} {slots : List Slot} {seeds : List (Slot × List Entity)}
    (h : Gathered g slots seeds) (s : Slot) : Gathered g (s :: slots) seeds := ⟨h.1.cons s, h.2⟩

theorem Seed.gather_leads (resolver : Resolver σ) (last : MatchResult) (g : Graph)
    (slots : List Slot) :
    Leads (fun _ => True) (gather resolver last g slots) (fun seeds _ => Gathered g slots seeds)
      fun _ _ => True := by
  induction slots with
  | nil => exact .pure fun _ _ => ⟨.refl _, by simp⟩
  | cons s rest ih =>
    have hskip : Leads (fun _ => True) (gather resolver last g rest)
        (fun seeds _ => Gathered g (s :: rest) seeds) fun _ _ => True :=
      ih.weaken (fun _ => id) (fun _ _ h => h.skip s) fun _ _ => id
    unfold gather
    split
    · exact hskip
    · next report hoffer =>
      refine (Leads.trivial _).bind fun located => ?_
      cases located with
      | none => exact hskip
      | some values =>
        refine ih.bind fun seeds => .pure fun _ h => ⟨h.1.cons_cons s, ?_⟩
        refine List.forall_mem_cons.2 ⟨?_, h.2⟩
        obtain ⟨node, hnode, hreport⟩ := Option.bind_eq_some_iff.1 hoffer
        refine ⟨node, hnode, fun hkey => ?_⟩
        simp [MatchResult.offer?, hkey] at hreport

/-- What holds of all seeds that may be gathered holds of those that are taken over. -/
theorem Session.seeds_of_gather {session : Session} {host : Host σ}
    {P : List (Slot × List Entity) → Prop}
    (hgather : ∀ last, Yields P (Seed.gather host.resolver last session.graph session.graph.slots))
    (hnil : P []) (world : σ) : P (session.seeds host world) := by
  unfold seeds
  cases session.last with
  | none => exact hnil
  | some last => exact (hgather last world trivial).getD hnil

theorem Session.gathered (session : Session) (host : Host σ) (world : σ) :
    Seed.Gathered session.graph session.graph.slots (session.seeds host world) :=
  seeds_of_gather (fun last => Seed.gather_leads host.resolver last session.graph _)
    ⟨List.nil_sublist _, List.forall_mem_nil _⟩ world

/-! ## References given up -/

namespace Ground

variable {ground : Ground} {s : Slot}

/-- The ground before anything is given up. -/
def ofBuilt {g : Graph} (hg : g.Built) : Ground := ⟨g, [], by simpa using hg.fresh⟩

/-- One matcher more gives up its references. -/
def detach (ground : Ground) (s : Slot) : Ground where
  graph := ground.graph.detach s
  detached := s :: ground.detached
  fresh := by
    have h := ground.fresh_refs.unsubscribeAll (m := s) (ground.graph.references s)
    have hnil : (ground.refs s).diff (ground.graph.references s) = [] := by
      unfold refs
      split_ifs
      · exact List.nil_diff _
      · exact diff_self _
    have hrefs : (fun m => if m ∈ s :: ground.detached then [] else ground.graph.references m) =
        Function.update ground.refs s ((ground.refs s).diff (ground.graph.references s)) := by
      funext m
      rw [hnil]
      by_cases hm : m = s
      · simp [hm]
      · simp [hm, refs]
    rw [Graph.references_detach, hrefs]
    exact h

theorem graph_detachAll (ground : Ground) (slots : List Slot) :
    (slots.foldl detach ground).graph = slots.foldl Graph.detach ground.graph := by
  induction slots generalizing ground with
  | nil => rfl
  | cons s rest ih => exact ih (ground.detach s)

theorem mem_detachAll {slots : List Slot} {ground : Ground} :
    s ∈ (slots.foldl detach ground).detached ↔ s ∈ slots ∨ s ∈ ground.detached := by
  induction slots generalizing ground with
  | nil => simp
  | cons t rest ih =>
    rw [List.foldl_cons, ih, detach, List.mem_cons, List.mem_cons]
    exact or_left_comm.trans or_assoc.symm

theorem after_none (ground : Ground) : ground.after (fun _ => none) = ground.graph :=
  ground.fresh_refs.after_none

theorem sound_none (ctx : RunContext σ) (ground : Ground) : ground.Sound ctx fun _ => none :=
  ⟨fun _ h => absurd rfl h, fun _ h => absurd rfl h, fun _ _ h => nomatch h⟩

end Ground

/-! ## The ground of a session -/

namespace Session

variable (session : Session) (host : Host σ) (world : σ)

/-- The ground of the sweeps of a session. -/
structure Grounds (ground : Ground) : Prop where
  graph : ground.graph = session.seededGraph host world
  detached : ∀ s, s ∈ ground.detached ↔ s ∈ session.seeded host world

variable {session host world}

theorem lookup_seeds_ne_none {s : Slot} :
    (session.seeds host world).lookup s ≠ none ↔ s ∈ session.seeded host world := by
  rw [ne_eq, List.lookup_eq_none_iff, seeded, List.mem_map]
  constructor
  · intro h
    push Not at h
    obtain ⟨seed, hmem, hs⟩ := h
    exact ⟨seed, hmem, by simpa using Eq.symm (by simpa using hs)⟩
  · rintro ⟨seed, hmem, rfl⟩ hall
    exact absurd rfl (bne_iff_ne.1 (hall seed hmem))

theorem seedPublications_ne_none {s : Slot} :
    session.seedPublications host world s ≠ none ↔ s ∈ session.seeded host world := by
  rw [seedPublications, ne_eq, Option.map_eq_none_iff, ← ne_eq, lookup_seeds_ne_none]

theorem grounds (session : Session) (hg : session.graph.Built) (host : Host σ) (world : σ) :
    session.Grounds host world
      ((session.seeded host world).foldl Ground.detach (.ofBuilt hg)) where
  graph := Ground.graph_detachAll _ _
  detached s := by simp [Ground.mem_detachAll, Ground.ofBuilt]

namespace Grounds

variable {ground : Ground} {m : Slot} {node : Node}

theorem published (h : session.Grounds host world ground) :
    ∀ s ∈ ground.detached, session.seedPublications host world s ≠ none :=
  fun s hs => seedPublications_ne_none.2 ((h.detached s).1 hs)

theorem size_eq (h : session.Grounds host world ground) :
    ground.graph.size = session.graph.size := by
  rw [h.graph, seededGraph, Graph.foldl_eq Graph.size fun g s => g.size_detach s]

theorem refs_eq (h : session.Grounds host world ground) :
    ground.refs = session.dependencies host world := by
  funext m
  have hrefs : ground.graph.references = session.graph.references := by
    rw [h.graph, seededGraph, Graph.foldl_eq Graph.references fun g s => g.references_detach s]
  simp only [Ground.refs, dependencies, h.detached, hrefs]

theorem map_get?_eq {β : Type} (h : session.Grounds host world ground) (view : Node → β)
    (hview : ∀ node subscribers pending counter,
      view { node with subscribers, pending, counter } = view node) (m : Slot) :
    (ground.graph.get? m).map view = (session.graph.get? m).map view := by
  rw [h.graph, seededGraph]
  exact Graph.foldl_eq (fun g => (g.get? m).map view)
    (fun g s => Graph.map_get?_detach hview g s m) _ _

theorem map_get?_observed (h : session.Grounds host world ground) (m : Slot) :
    (ground.graph.get? m).map Node.Observed = (session.graph.get? m).map Node.Observed := by
  rw [h.graph, seededGraph]
  exact Graph.foldl_eq (fun g => (g.get? m).map Node.Observed)
    (fun g s => g.map_get?_detach_observed s m) _ _

end Grounds

end Session

end Metamatch
