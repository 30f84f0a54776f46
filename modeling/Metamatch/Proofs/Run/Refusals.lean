import Metamatch.Proofs.Determined
import Metamatch.Proofs.Holdings
import Metamatch.Proofs.Run.Calm
import Metamatch.Proofs.Run.Ledgers

/-!
# Runs over a registry

Names that cannot be loaded are all that can go wrong over a registry.

* `Publications.Held`: publications of values that a registry holds.
* `Run.evaluate_held`, `Run.execute_held`: tasks that start from such publications succeed and lead
  to such publications.
* `Run.Courses.held`: so do all batches of a run.
* `Failure.Refuses`: a failure that says why a name cannot be loaded.
* `failures_of_sources`: a run over a registry has no other failures.
-/

namespace Metamatch

variable {σ ε α : Type}

/-! ## Publications of values that are held -/

/-- All values that are published are held. -/
def Publications.Held (registry : Registry) (pub : Publications) : Prop :=
  ∀ s published, pub s = some published → ∀ value ∈ published.values, registry.Holds value

theorem Publications.Held.add {registry : Registry} {pub : Publications} (h : pub.Held registry)
    {values : List Entity} (hvalues : ∀ value ∈ values, registry.Holds value) (s : Slot)
    (number : Nat) : (pub.add s values number).Held registry := by
  intro t published ht
  by_cases hts : t = s
  · rw [hts, Ground.add_self, Option.some.injEq] at ht
    exact ht ▸ hvalues
  · rw [Ground.add_of_ne hts] at ht
    exact h t published ht

theorem Publications.Held.values {registry : Registry} {pub : Publications}
    (h : pub.Held registry) (s : Slot) : ∀ value ∈ pub.values s, registry.Holds value := by
  unfold Publications.values
  cases hpublished : pub s with
  | none => exact List.forall_mem_nil _
  | some published => exact h s published hpublished

theorem Ground.Ready.add {ground : Ground} {pub : Publications} {s t : Slot}
    (h : ground.Ready pub t) (hts : t ≠ s) (values : List Entity) (number : Nat) :
    ground.Ready (pub.add s values number) t :=
  ⟨h.inRange, by rw [Ground.add_of_ne hts, h.unpublished],
    fun d hd => Ground.add_ne_none (h.references d hd)⟩

namespace Run

open Progress (At)

variable {ctx : RunContext σ} {start : Graph} {ground : Ground} {pub : Publications} {s : Slot}
  {number : Nat} {sources : List Source} {items : List Slot} {p q : Progress σ} {c : Course σ}
  {courses : List (Course σ)}

theorem ofTask_returns {task : Task σ α} {Q : α → Prop}
    (h : Leads (fun _ => True) task (fun a _ => Q a) fun _ _ => False) :
    Leads (fun _ => True) (ofTask task) (fun a _ => Q a) fun _ _ => False :=
  fun p _ => ofTask_ends (h p.toTrace trivial)

section Tasks

variable (hresolver : ctx.host.resolver = (Registry.ofSources sources).resolver)
  (hdecides : ctx.host.Decides)

include hresolver hdecides

theorem searchReady_held (hready : ground.Ready pub s) (hs : s ∉ ground.detached)
    (hheld : pub.Held (.ofSources sources)) {node : Node}
    (hnode : (ground.after pub).get? s = some node) :
    Leads (At ctx start ground pub) (ofTask (search ctx (ground.after pub) s node))
      (fun values p => At ctx start ground pub p ∧ Finds ctx (ground.after pub) s values ∧
        ∀ value ∈ values, (Registry.ofSources sources).Holds value)
      fun _ _ => False := by
  intro p hp
  have hvaluation := hp.valuation_eq
  rw [hp.graph] at hvaluation
  have hpublished : ∀ d ∈ node.constraints.references,
      ((ground.after pub).valuation d).isSome := by
    intro d hd
    obtain ⟨old, hold, rfl⟩ := Option.map_eq_some_iff.1 (Ground.get?_after ▸ hnode)
    have hd : d ∈ ground.refs s := (Ground.refs_of_get? hold hs).symm ▸ hd
    rw [hvaluation, Option.isSome_map, Option.isSome_iff_ne_none]
    exact hready.references d hd
  have hvalues : ∀ d values, (ground.after pub).valuation d = some values →
      ∀ value ∈ values, (Registry.ofSources sources).Holds value := by
    intro d values hvalues
    rw [hvaluation, Option.map_eq_some_iff] at hvalues
    obtain ⟨published, hpublished, rfl⟩ := hvalues
    exact hheld d published hpublished
  have hsearch : Leads (fun _ => True) (search ctx (ground.after pub) s node)
      (fun values _ => ∀ value ∈ values, (Registry.ofSources sources).Holds value)
      fun _ _ => False := Registry.search_held hresolver hdecides hpublished hvalues
  exact ((search_leads hnode).and (ofTask_returns hsearch)).weaken (fun _ hp => ⟨hp, trivial⟩)
    (fun _ _ h => ⟨h.1.2, h.1.1, h.2⟩) (fun _ _ h => h.2) p hp

/-- **From values that are held, a task succeeds and publishes values that are held.** -/
theorem evaluate_held (hready : ground.Ready pub s) (hs : s ∉ ground.detached)
    (hheld : pub.Held (.ofSources sources)) :
    Leads (At ctx start ground pub) (evaluate ctx number s)
      (fun _ p => ∃ values, (∀ value ∈ values, (Registry.ofSources sources).Holds value) ∧
        At ctx start ground (pub.add s values number) p)
      fun _ _ => False := by
  unfold evaluate
  refine graph_leads.bind fun g => ?_
  rintro p ⟨rfl, hp⟩
  obtain ⟨node, hnode⟩ := Graph.lt_size_iff.1 (ground.size_after.symm ▸ hready.inRange)
  rw [hp.graph, hnode]
  refine (searchReady_held hresolver hdecides hready hs hheld hnode).bind (fun values => ?_) p hp
  rintro p ⟨hp, hfinds, hvalues⟩
  have hpublish : Leads (At ctx start ground pub)
      (adapt TaskError.session (publish ctx s values number))
      (fun _ => At ctx start ground (pub.add s values number)) fun _ _ => False :=
    adapt_leads (publish_leads hready fun _ => hfinds) fun _ _ => id
  have hreport : ∀ crashes, Leads (At ctx start ground (pub.add s values number))
      (adapt TaskError.ofPayload (reportCrashes ctx s crashes))
      (fun _ => At ctx start ground (pub.add s values number)) fun _ _ => False := by
    refine fun crashes => adapt_leads (E := fun _ _ => False) ?_ fun _ _ => id
    exact ((reportCrashes_leads s crashes).and
      (reportCrashes_sure (hdecides.calm hresolver) s crashes)).weaken
        (fun _ hp => ⟨hp, trivial⟩) (fun _ _ hp => hp.1) fun _ _ h => h.2
  exact ((hpublish.bind hreport).weaken (fun _ => id) (fun _ p hp => ⟨values, hvalues, hp⟩)
    fun _ _ => id) p hp

/-- **Tasks succeed one after the other.** -/
theorem execute_held (hnodup : items.Nodup) (hready : ∀ s ∈ items, ground.Ready pub s)
    (hs : ∀ s ∈ items, s ∉ ground.detached) (hheld : pub.Held (.ofSources sources)) :
    Leads (At ctx start ground pub) (execute ctx number items : Run σ ε _)
      (fun outcomes p => outcomes = items.map (·, .ok ()) ∧ ∃ pub' : Publications,
        pub'.Held (.ofSources sources) ∧ pub.Extends pub' ∧ At ctx start ground pub' p)
      fun _ _ => False := by
  induction items generalizing pub with
  | nil => exact .pure fun p hp => ⟨rfl, pub, hheld, .refl pub, hp⟩
  | cons s rest ih =>
    obtain ⟨hnot, hnodup⟩ := List.nodup_cons.1 hnodup
    rw [List.forall_mem_cons] at hready hs
    have htask : Leads (At ctx start ground pub) (contain (evaluate ctx number s) : Run σ ε _)
        (fun outcome p => outcome = .ok () ∧ ∃ values,
          (∀ value ∈ values, (Registry.ofSources sources).Holds value) ∧
          At ctx start ground (pub.add s values number) p)
        fun _ _ => False := by
      refine (contain_leads (evaluate_held hresolver hdecides hready.1 hs.1 hheld)).weaken
        (fun _ => id) (fun outcome p hp => ?_) fun _ _ => id
      cases outcome with
      | ok u => exact ⟨rfl, hp⟩
      | error e => exact False.elim hp
    unfold execute
    refine htask.bind fun outcome => ?_
    rintro p ⟨rfl, values, hvalues, hp⟩
    have hrest : ∀ t ∈ rest, ground.Ready (pub.add s values number) t := fun t ht =>
      (hready.2 t ht).add (ne_of_mem_of_not_mem ht hnot) values number
    refine ((ih hnodup hrest hs.2 (hheld.add hvalues s number)).bind fun outcomes => .pure ?_) p hp
    rintro q ⟨rfl, pub', hheld', hgrows, hq⟩
    refine ⟨rfl, pub', hheld', fun t ht => ?_, hq⟩
    rw [hgrows t (Ground.add_ne_none ht), Ground.add_of_published hready.1.unpublished ht]

/-! ## Batches -/

/-- **The tasks of a batch succeed**, and nothing is left to settle. -/
theorem Takes.held (h : Takes ctx p c) (harrange : ∀ items, (ctx.arrange items).Perm items)
    (hd : ∀ s ∈ ground.detached, pub s ≠ none) (hheld : pub.Held (.ofSources sources))
    (hp : At ctx start ground pub p) :
    c.outcomes = (ctx.arrange c.batch.slots).map (·, .ok ()) ∧ ∃ pub' : Publications,
      pub'.Held (.ofSources sources) ∧ pub.Extends pub' ∧ At ctx start ground pub' c.settled := by
  obtain ⟨hslots, hdrawn⟩ := (draw_leads c.batch.sweep c.batch.kind).ok hp h.draws
  have hperm := harrange c.batch.slots
  have hready : ∀ s ∈ ctx.arrange c.batch.slots, ground.Ready pub s := fun s hs =>
    (Ground.mem_ready.1 (hslots ▸ hperm.mem_iff.1 hs)).1
  obtain ⟨houtcomes, pub', hheld', hgrows, hexecuted⟩ :=
    (execute_held hresolver hdecides (hperm.nodup_iff.2 h.nodup) hready
      (fun s hs hdetached => hd s hdetached (hready s hs).unpublished) hheld).ok hdrawn h.executes
  have hsettle : ∀ s ∈ c.batch.slots, Leads (At ctx start ground pub')
      (settle ctx c.batch.sweep s ((c.outcomes.lookup s).getD (.ok ())))
      (fun _ => At ctx start ground pub') fun _ _ => False := by
    intro s hs
    rw [houtcomes, List.lookup_graph (fun _ => Except.ok ()) (hperm.mem_iff.2 hs)]
    exact .pure fun _ => id
  exact ⟨houtcomes, pub', hheld', hgrows, (Leads.forM hsettle).ok hexecuted h.settles⟩

/-- **The tasks of all batches succeed.** -/
theorem Courses.held (h : Courses ctx p courses q)
    (harrange : ∀ items, (ctx.arrange items).Perm items)
    (hd : ∀ s ∈ ground.detached, pub s ≠ none) (hheld : pub.Held (.ofSources sources))
    (hp : At ctx start ground pub p) :
    (∀ c ∈ courses, c.outcomes = (ctx.arrange c.batch.slots).map (·, .ok ())) ∧
      ∃ pub' : Publications, pub'.Held (.ofSources sources) ∧ At ctx start ground pub' q := by
  induction h generalizing pub with
  | done => exact ⟨List.forall_mem_nil _, pub, hheld, hp⟩
  | next htakes _ ih =>
    obtain ⟨houtcomes, pub₁, hheld₁, hgrows, hp₁⟩ :=
      htakes.held hresolver hdecides harrange hd hheld hp
    obtain ⟨hrest, hlast⟩ := ih (fun s hs => hgrows.ne_none (hd s hs)) hheld₁ hp₁
    exact ⟨List.forall_mem_cons.2 ⟨houtcomes, hrest⟩, hlast⟩

end Tasks

end Run

/-! ## Earlier values -/

theorem Session.seedPublications_held (session : Session) {host : Host σ} {sources : List Source}
    (hresolver : host.resolver = (Registry.ofSources sources).resolver) (world : σ) :
    (session.seedPublications host world).Held (.ofSources sources) := by
  have hgather : ∀ last, Yields
      (fun seeds => ∀ seed ∈ seeds, ∀ value ∈ seed.2, (Registry.ofSources sources).Holds value)
      (Seed.gather host.resolver last session.graph session.graph.slots) := fun last => by
    rw [hresolver]
    exact Registry.gather_held last session.graph session.graph.slots
  have hseeds := seeds_of_gather hgather (List.forall_mem_nil _) world
  intro s published hpublished
  obtain ⟨values, hlookup, rfl⟩ := Option.map_eq_some_iff.1 hpublished
  obtain ⟨before, after, hsplit, -⟩ := List.lookup_eq_some_iff.1 hlookup
  exact hseeds (s, values) (by simp [hsplit])

/-! ## Failures -/

/-- A failure on behalf of a matcher for classes: a name that is listed, and that the filter of the
matcher accepts, cannot be loaded. -/
structure Failure.Refuses (g : Graph) (sources : List Source) (failure : Failure) (name : String) :
    Prop where
  matcher : ∃ node, g.get? failure.slot = some node ∧ node.kind = .cls ∧
    node.constraints.name.all (·.accepts name) = true
  listed : ∃ source ∈ sources, name ∈ source.listed
  message : ∃ e, Registry.Lacks sources name e ∧ failure.message = e.message

/-- The name of a visit whose class cannot be loaded. -/
def Visit.refused? : Visit → Option String
  | .refused name _ _ => some name
  | .crashed _ _ | .checked _ _ _ => none

theorem Visit.forall₂_refused {slot : Slot} {R : Failure → String → Prop} {visits : List Visit}
    (h : ∀ name e decision, .refused name e decision ∈ visits →
      R ⟨slot, e.message, decision⟩ name) :
    List.Forall₂ R ((visits.flatMap (Visit.notes slot)).filterMap Note.failure?)
      (visits.filterMap Visit.refused?) := by
  induction visits with
  | nil => exact .nil
  | cons visit rest ih =>
    have hrest := ih fun name e decision hmem => h name e decision (List.mem_cons_of_mem _ hmem)
    cases visit with
    | refused name e decision => exact .cons (h name e decision List.mem_cons_self) hrest
    | crashed name payload | checked name cls answer => exact hrest

theorem Visit.sublist_refused (visits : List Visit) :
    (visits.filterMap Visit.refused?).Sublist (visits.map Visit.name) := by
  induction visits with
  | nil => exact .slnil
  | cons visit rest ih =>
    cases visit with
    | refused name e decision => exact ih.cons_cons name
    | crashed name payload | checked name cls answer => exact ih.cons name

namespace Graph

variable {g : Graph} {slot : Slot}

theorem pairwise_tried (g : Graph) (lists : List (List String)) (slot : Slot) :
    (g.tried (.ofLists lists) slot).Pairwise (· < ·) := by
  unfold tried
  cases g.get? slot with
  | none => exact .nil
  | some node =>
    rw [Option.elim_some, Node.tried]
    cases node.kind with
    | cls => exact Scan.pairwise_namesToTry lists _
    | field | method | constructor | text | parameter => exact .nil

theorem mem_tried {sources : List Source} {name : String}
    (h : name ∈ g.tried (.ofLists (Registry.ofSources sources).lists) slot) :
    (∃ node, g.get? slot = some node ∧ node.kind = .cls ∧
      node.constraints.name.all (·.accepts name) = true) ∧
      ∃ source ∈ sources, name ∈ source.listed := by
  unfold tried at h
  cases hnode : g.get? slot with
  | none =>
    rw [hnode] at h
    cases h
  | some node =>
    rw [hnode, Option.elim_some, Node.tried] at h
    cases hkind : node.kind with
    | cls =>
      rw [hkind] at h
      obtain ⟨hslice, haccepts⟩ := List.mem_filter.1 h
      have hname := List.mem_of_mem_take (List.mem_of_mem_drop hslice)
      obtain ⟨list, hlist, hname⟩ := Catalog.mem_ofLists.1 hname
      rw [Registry.lists_ofSources] at hlist
      obtain ⟨source, hsource, rfl⟩ := List.mem_map.1 hlist
      exact ⟨⟨node, rfl, hkind, haccepts⟩, source, hsource, Ordered.mem_ofList.1 hname⟩
    | field | method | constructor | text | parameter =>
      rw [hkind] at h
      cases h

end Graph

/-- A load that is refused by a registry is so for what its sources say. -/
theorem Registry.lacks_of_real {host : Host σ} {sources : List Source}
    (hresolver : host.resolver = (ofSources sources).resolver) {name : String}
    (hname : ∃ source ∈ sources, name ∈ source.listed) {e : LookupError}
    (hreal : Entry.Real host (.load name (.error (.error e)))) : Lacks sources name e := by
  obtain ⟨world, hworld⟩ := hreal
  rw [hresolver, (ofSources sources).states.loadClass name world] at hworld
  change ((ofSources sources).load name).mapError _ = _ at hworld
  cases hload : (ofSources sources).load name with
  | ok cls =>
    rw [hload] at hworld
    cases hworld
  | error e' =>
    rw [hload] at hworld
    cases hworld
    exact load_listed hname hload

theorem Hearing.verdicts_eq_nil {host : Host σ} (hobservers : host.Crashes fun _ _ => none)
    {hearing : Hearing} {slot : Slot}
    (hreal : ∀ note ∈ hearing.toRound.notes slot, note.entry.Real host) :
    hearing.verdicts = [] := by
  rw [← List.map_eq_nil_iff, hearing.judged, Round.crashes, List.filterMap_eq_nil_iff]
  intro call hcall
  obtain ⟨world, hworld⟩ := hreal _ (List.mem_map.2 ⟨call, hcall, rfl⟩)
  rw [← hworld, hobservers]

theorem Note.filter_failures (notes : List Note) (s : Slot) :
    (notes.filterMap failure?).filter (·.slot = s) =
      (notes.filter (·.slot = s)).filterMap failure? := by
  rw [List.filter_filterMap, List.filterMap_filter]
  refine List.filterMap_congr fun note _ => ?_
  obtain ⟨slot, entry⟩ := note
  cases entry with
  | load name answer | call number values crash? => simp [failure?]
  | verdict text decision => simp [failure?, Option.filter]

theorem Ledger.opening_eq_nil {host : Host σ} (hobservers : host.Crashes fun _ _ => none)
    {ledger : Ledger} (hreal : ∀ note ∈ ledger.opening, note.entry.Real host) :
    ledger.opening.filterMap Note.failure? = [] := by
  rw [opening, List.forall_mem_append] at hreal
  rw [opening, List.filterMap_append, List.filterMap_flatMap, List.filterMap_flatMap,
    List.append_eq_nil_iff, List.flatMap_eq_nil_iff, List.flatMap_eq_nil_iff]
  refine ⟨fun seed _ => Round.failures_eq_nil seed.1 seed.2.toRound, fun seed hseed => ?_⟩
  have hnone := Hearing.verdicts_eq_nil hobservers fun note hnote =>
    hreal.1 note (List.mem_flatMap.2 ⟨seed, hseed, hnote⟩)
  rw [Hearing.verdictNotes, hnone]
  rfl

namespace Session.Booked

variable {session : Session} {arrange : List Slot → List Slot} {lists : List (List String)}
  {host : Host σ} {world : σ} {result : MatchResult} {final start : Progress σ}
  {courses : List (Course σ)} {ledger : Ledger}

/-- The failures of a matcher, where no task fails and no observer crashes, are what its search was
refused. -/
theorem exists_trail (h : session.Booked arrange lists host world result final start courses ledger)
    (harrange : ∀ items, (arrange items).Perm items) (hobservers : host.Crashes fun _ _ => none)
    (hok : ∀ c ∈ courses, c.outcomes = (arrange c.batch.slots).map (·, .ok ())) (m : Slot) :
    ∃ visits, Visit.Trail (session.graph.tried (.ofLists lists) m) (.ok ()) visits ∧
      (∀ note ∈ visits.flatMap (Visit.notes m), note.entry.Real host) ∧
      result.failures.filter (·.slot = m) =
        (visits.flatMap (Visit.notes m)).filterMap Note.failure? := by
  have hreal := h.real
  rw [Ledger.notes, List.forall_mem_append] at hreal
  have hslots : final.batches.reverse.flatMap (·.slots) = courses.flatMap (·.batch.slots) := by
    rw [← h.batches, List.flatMap_map]
  have hfilter := @Batch.filter_notes arrange harrange ledger.account _ (hslots ▸ h.nodup) m
  rw [h.failures, Ledger.notes, List.filterMap_append, Ledger.opening_eq_nil hobservers hreal.1,
    List.nil_append, Note.filter_failures]
  by_cases hm : m ∈ courses.flatMap (·.batch.slots)
  · rw [hslots, if_pos hm] at hfilter
    obtain ⟨c, hc, hs⟩ := List.mem_flatMap.1 hm
    obtain ⟨hlookup, htrail⟩ := h.told c hc m hs
    rw [hok c hc, List.lookup_graph (fun _ => Except.ok ()) ((harrange _).mem_iff.2 hs),
      Option.some.injEq] at hlookup
    have hhere : ∀ note ∈ (ledger.account m).searched m ++ (ledger.account m).settled m,
        note.entry.Real host :=
      fun note hnote => hreal.2 note (List.mem_of_mem_filter (hfilter ▸ hnote))
    rw [hfilter]
    cases haccount : ledger.account m with
    | failed visits e decision hearing =>
      rw [haccount] at hlookup
      cases hlookup
    | found visits hearing =>
      rw [haccount] at htrail hhere
      rw [Account.searched, Account.settled, List.append_nil, List.forall_mem_append,
        Hearing.notes, List.forall_mem_append] at hhere
      obtain ⟨hvisits, hcalls, -⟩ := hhere
      refine ⟨visits, htrail, hvisits, ?_⟩
      rw [Account.searched, Account.settled, List.append_nil, List.filterMap_append, Hearing.notes,
        List.filterMap_append, Round.failures_eq_nil, Hearing.verdictNotes,
        Hearing.verdicts_eq_nil hobservers hcalls]
      exact List.append_nil _
  · rw [hslots, if_neg hm] at hfilter
    rw [hfilter]
    exact ⟨[], .nil _ _, List.forall_mem_nil _, rfl⟩

/-- Over a registry a search is refused names that cannot be loaded, in order and each once. -/
theorem refuses {sources : List Source}
    (h : session.Booked arrange (Registry.ofSources sources).lists host world result final start
      courses ledger)
    (hresolver : host.resolver = (Registry.ofSources sources).resolver)
    (harrange : ∀ items, (arrange items).Perm items) (hobservers : host.Crashes fun _ _ => none)
    (hok : ∀ c ∈ courses, c.outcomes = (arrange c.batch.slots).map (·, .ok ())) (m : Slot) :
    ∃ names : List String, names.Pairwise (· < ·) ∧
      List.Forall₂ (Failure.Refuses session.graph sources)
        (result.failures.filter (·.slot = m)) names := by
  obtain ⟨visits, htrail, hreal, hfailures⟩ := h.exists_trail harrange hobservers hok m
  have hsublist := (Visit.sublist_refused visits).trans htrail.names.sublist
  refine ⟨visits.filterMap Visit.refused?, ?_, ?_⟩
  · exact (session.graph.pairwise_tried _ m).sublist hsublist
  · rw [hfailures]
    refine Visit.forall₂_refused fun name e decision hmem => ?_
    have hname : name ∈ session.graph.tried (.ofLists (Registry.ofSources sources).lists) m :=
      hsublist.mem (List.mem_filterMap.2 ⟨_, hmem, rfl⟩)
    obtain ⟨hmatcher, hlisted⟩ := Graph.mem_tried hname
    have hload : Entry.Real host (.load name (.error (.error e))) :=
      hreal ⟨m, _⟩ (List.mem_flatMap.2 ⟨_, hmem, List.mem_cons_self⟩)
    exact ⟨hmatcher, hlisted, e, Registry.lacks_of_real hresolver hlisted hload, rfl⟩

end Session.Booked

/-- **Over a registry no task fails** unless policy or observers crash, and the failures of a
matcher are the names that are listed but not declared, or broken, in order. -/
theorem failures_of_sources {session : Session} (hg : session.graph.Built) (sources : List Source)
    {arrange : List Slot → List Slot} (harrange : ∀ items, (arrange items).Perm items)
    {host : Host σ} (hresolver : host.resolver = (Registry.ofSources sources).resolver)
    (hdecides : host.Decides) (hobservers : host.Crashes fun _ _ => none) (world : σ) :
    ∃ (result : MatchResult) (final start : Progress σ) (courses : List (Course σ))
      (last : Progress σ),
      session.execute arrange (Registry.ofSources sources).lists host world =
        (.ok result, final) ∧
      session.last.forM
          (Run.seed (session.context arrange (Registry.ofSources sources).lists host))
        { world, graph := session.graph } = (.ok (), start) ∧
      Run.Courses (session.context arrange (Registry.ofSources sources).lists host) start courses
        last ∧
      final = { last with world := final.world } ∧
      courses.map (·.batch) = final.batches.reverse ∧
      (∀ c ∈ courses, c.outcomes = (arrange c.batch.slots).map (·, .ok ())) ∧
      (∀ m, ∀ published ∈ final.steps.filterMap (·.change.publicationOf? m),
        ∀ value ∈ published.values, (Registry.ofSources sources).Holds value) ∧
      (∀ m, ∀ value ∈ result.values m, (Registry.ofSources sources).Holds value) ∧
      ∀ m, ∃ names : List String, names.Pairwise (· < ·) ∧
        List.Forall₂ (Failure.Refuses session.graph sources)
          (result.failures.filter (·.slot = m)) names := by
  set lists := (Registry.ofSources sources).lists
  obtain ⟨result, hresult⟩ :=
    session.execute_returns_of_calm hg harrange lists (hdecides.calm hresolver) world
  obtain ⟨final, hrun⟩ : ∃ final,
      session.execute arrange lists host world = (.ok result, final) := ⟨_, Prod.ext hresult rfl⟩
  obtain ⟨start, courses, ledger, hbooked⟩ := Session.exists_booked hg harrange hdecides hrun
  obtain ⟨last, hcourses, hfinal⟩ := hbooked.course
  obtain ⟨ground, hground, hat⟩ := (Session.start_leads hg).ok rfl hbooked.seeded
  obtain ⟨hok, pub, hheld, hlast⟩ := hcourses.held hresolver hdecides harrange hground.published
    (session.seedPublications_held hresolver world) hat
  have hends := session.execute_ends hg harrange lists host world
  rw [hrun] at hends
  obtain ⟨ended, pub', hf⟩ := hends
  have hgraph : final.graph = last.graph := by rw [hfinal]
  have hpub : pub' = pub :=
    funext fun m => (hf.standing.published m).symm.trans (hgraph ▸ hlast.published m)
  subst hpub
  refine ⟨result, final, start, courses, last, hrun, hbooked.seeded, hcourses, hfinal,
    hbooked.batches, hok, fun m published hpublished => ?_, fun m => ?_,
    hbooked.refuses hresolver harrange hobservers hok⟩
  · rw [hf.standing.recorded.publicationsOf hg.fresh.publication?_eq_none,
      Option.mem_toList] at hpublished
    exact hheld m published ((hf.standing.published m).symm.trans hpublished)
  · rw [hf.values_eq]
    exact hheld.values m

namespace Sample

/-- A class that is observed, its subclasses, and one with earlier values. -/
def wary : List ClientCall :=
  [.exactClass "A", .observe 0 .onMatch 0, .all .cls [.superclass 0, .key "new"],
    .first .cls [.key "kept"]]

/-- A run of these over classes of which one is broken and one is only listed. -/
def wariness : Except RunError MatchResult × Progress Nat :=
  (session wary).execute id (Registry.ofSources hesitated).lists hesitant 0

end Sample

/-- The search for subclasses comes to the broken class first and then to the one that is only
listed. -/
theorem failures_of_wary :
    ∃ result, Sample.wariness.1 = .ok result ∧
      result.failures = [⟨1, "Failed to link C: class failed verification", .proceed⟩,
        ⟨1, "Class not found: D", .abort⟩] ∧
      result.reports.map (·.values) = [[.cls ⟨0⟩], [.cls ⟨1⟩, .cls ⟨2⟩], [.cls ⟨1⟩]] ∧
      (∀ m, ∀ value ∈ result.values m, (Registry.ofSources Sample.hesitated).Holds value) ∧
      ∀ m, ∃ names : List String, names.Pairwise (· < ·) ∧
        List.Forall₂ (Failure.Refuses (Sample.session Sample.wary).graph Sample.hesitated)
          (result.failures.filter (·.slot = m)) names := by
  have hfailures : Sample.wariness.1.toOption.map (·.failures) =
      some [⟨1, "Failed to link C: class failed verification", .proceed⟩,
        ⟨1, "Class not found: D", .abort⟩] := by
    decide +kernel
  have hvalues : Sample.wariness.1.toOption.map (·.reports.map (·.values)) =
      some [[.cls ⟨0⟩], [.cls ⟨1⟩, .cls ⟨2⟩], [.cls ⟨1⟩]] := by
    decide +kernel
  have hresolver : Sample.hesitant.resolver = (Registry.ofSources Sample.hesitated).resolver := rfl
  have hdecides : Sample.hesitant.Decides := fun _ _ => ⟨_, rfl⟩
  have hobservers : Sample.hesitant.Crashes fun _ _ => none := fun _ _ _ => rfl
  obtain ⟨result, final, -, -, -, hrun, -, -, -, -, -, -, hheld, hrefuses⟩ :=
    failures_of_sources (Sample.built Sample.wary (by decide +kernel)) Sample.hesitated
      (fun items => .refl items) hresolver hdecides hobservers 0
  have hresult : Sample.wariness.1 = .ok result := congrArg Prod.fst hrun
  rw [hresult] at hfailures hvalues
  exact ⟨result, hresult, Option.some.inj hfailures, Option.some.inj hvalues, hheld, hrefuses⟩

end Metamatch
