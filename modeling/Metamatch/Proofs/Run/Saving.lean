import Metamatch.Proofs.Clients
import Metamatch.Proofs.Keys
import Metamatch.Proofs.Run.Admission
import Metamatch.Proofs.Run.Finish
import Metamatch.Proofs.Run.Takeover
import Metamatch.Proofs.Saved

/-!
# Results that read back

Handles have 32 bits, and so has everything that a run makes of them. So each of its results can be
saved and reads back, as does every result that was read from a text.

* `Resolver.Narrow`: answers with handles of 32 bits; a registry that is not too large gives them.
* `Graph.Fits`, `Progress.Fits`: what a run keeps then.
* `Run.resolve_fits`: a result at the end keeps to the bounds, whatever the run went through.
* `MatchResult.Obtained`: the results of runs, whose earlier results are such, and of texts.
* `load?_save_of_obtained`: each of them reads back, and its keys lead to the same reports.
-/

namespace Metamatch

variable {σ ε α : Type}

/-! ## Answers -/

theorem forall_mem_of_forall₂ {β : Type} {P : β → Prop} {as : List α} {bs : List β}
    (h : List.Forall₂ (fun _ b => P b) as bs) : ∀ b ∈ bs, P b := by
  induction h with
  | nil => exact List.forall_mem_nil _
  | cons hb _ ih => exact List.forall_mem_cons.2 ⟨hb, ih⟩

/-- A resolver whose classes and members have handles of 32 bits. -/
structure Resolver.Narrow (resolver : Resolver σ) : Prop where
  loadClass : ∀ name, Yields ClassId.Fits (resolver.loadClass name)
  members : ∀ (kind : Kind) (owner : ClassId),
    Yields (fun candidates => ∀ c ∈ candidates, c.entity.Fits) (kind.members resolver owner)

namespace Resolver.Narrow

variable {resolver : Resolver σ}

theorem locate (h : resolver.Narrow) (name : EntityName) {like : Entity} (hlike : like.Fits) :
    Yields (fun found => ∀ entity, found = some entity → entity.Fits)
      (name.locate resolver like) := by
  unfold EntityName.locate
  refine Yields.bind (h.loadClass name.cls) fun id hid => ?_
  split
  case h_1 => exact .pure fun entity hentity => Option.some.inj hentity ▸ hid
  case h_2 => exact .pure fun entity hentity => Option.some.inj hentity ▸ ⟨hlike.1, hid⟩
  case h_3 | h_4 | h_5 | h_6 | h_7 => exact .pure fun _ h => nomatch h
  all_goals
    refine Yields.bind (h.members _ id) fun _ hmembers => ?_
    exact EntityName.findSigned_yields resolver _ hmembers

theorem gather (h : resolver.Narrow) {last : MatchResult} (hlast : last.Fits) (g : Graph)
    (slots : List Slot) :
    Yields (fun seeds => ∀ seed ∈ seeds, seed.1 < g.size ∧ ∀ value ∈ seed.2, value.Fits)
      (Seed.gather resolver last g slots) := by
  induction slots with
  | nil => exact .pure (List.forall_mem_nil _)
  | cons s rest ih =>
    unfold Seed.gather
    split
    · exact ih
    · next report hoffer =>
      obtain ⟨node, hnode, hreport⟩ := Option.bind_eq_some_iff.1 hoffer
      obtain ⟨_, _, hkeyed, _⟩ := MatchResult.keyed?_of_offer? hreport
      have hfits := hlast.reports report (MatchResult.mem_of_keyed? hkeyed).1
      have hrelocate : Yields (fun found => ∀ values, found = some values →
          ∀ value ∈ values, value.Fits) (report.relocate resolver) := by
        refine Yields.mono (Report.relocate_located fun value hvalue name =>
          h.locate name (hfits.values value hvalue)) fun found hfound values hvalues => ?_
        exact forall_mem_of_forall₂ (hfound values hvalues)
      refine Yields.bind hrelocate fun found hfound => ?_
      cases found with
      | none => exact ih
      | some values =>
        refine Yields.bind ih fun seeds hseeds => .pure (List.forall_mem_cons.2 ⟨?_, hseeds⟩)
        exact ⟨Graph.lt_size hnode, hfound values rfl⟩

end Resolver.Narrow

/-- A registry of no more classes than there are handles, whose members have such handles too. -/
theorem Registry.narrow {registry : Registry} (hsize : registry.size ≤ UInt32.size)
    (hmembers : ∀ info ∈ registry.classes, ∀ kind ∈ Kind.all,
      ∀ candidate ∈ kind.declared info, candidate.entity.Fits) :
    (registry.resolver : Resolver σ).Narrow where
  loadClass name := by
    refine (Call.ofExcept_leads _).weaken (fun _ => id) (fun id _ hload => ?_) fun _ _ _ => trivial
    obtain ⟨info, hfind, -⟩ := exists_of_load hload
    obtain ⟨hlt, -⟩ := List.getElem?_eq_some_iff.1 (getElem?_of_find hfind)
    exact hlt.trans_le hsize
  members kind owner := by
    by_cases hkind : kind ∈ [Kind.field, .method, .constructor]
    · rw [members_resolver hkind]
      refine (Call.ofExcept_leads _).weaken (fun _ => id) (fun candidates _ hcandidates => ?_)
        fun _ _ _ => trivial
      obtain ⟨info, hfind, rfl⟩ := exists_of_map_eq_ok hcandidates
      have hinfo : info ∈ registry.classes := List.mem_of_getElem? (getElem?_of_find hfind)
      exact hmembers info hinfo kind (by cases kind <;> decide)
    · cases kind with
      | field | method | constructor => simp at hkind
      | cls | text | parameter => exact .pure (List.forall_mem_nil _)

/-! ## Tasks -/

/-- The failures on record have slots of 32 bits. -/
abbrev Trace.Fits (trace : Trace σ) : Prop := ∀ failure ∈ trace.failures, failure.Fits

theorem Trace.consult_fits {host : Host σ} {slot : Slot} (hslot : slot < UInt32.size)
    (message : String) {trace : Trace σ} (h : trace.Fits) :
    (trace.consult host slot message).2.Fits := by
  unfold Trace.consult
  split
  · exact List.forall_mem_append.2 ⟨h, List.forall_mem_singleton.2 hslot⟩
  · exact h

namespace Task

theorem quiet_fits {Q : α → Prop} {task : Task σ α} (h : Yields Q task)
    (hquiet : ∀ trace, (task trace : Except TaskError α × Trace σ).2.failures = trace.failures) :
    Leads Trace.Fits task (fun a trace => Q a ∧ trace.Fits) fun _ => Trace.Fits := by
  have hfits : Keeps Trace.Fits task := Keeps.of_state fun trace ht => by
    rw [Trace.Fits, hquiet]
    exact ht
  exact (h.and hfits).weaken (fun _ ht => ⟨trivial, ht⟩) (fun _ _ => id) fun _ _ => And.right

theorem ofExcept_fits (value : Except Payload α) :
    Keeps Trace.Fits (ofExcept value : Task σ α) := by
  intro trace ht
  cases value <;> exact ht

theorem attempt_yields {Q : α → Prop} {call : Call σ α} (h : Yields Q call) :
    Yields (fun answer => ∀ a, answer = .ok a → Q a) (attempt call) :=
  fun trace _ => attempt_ends (Call.attempt_yields h trace.world trivial)

theorem consult_fits {host : Host σ} {slot : Slot} (hslot : slot < UInt32.size)
    (message : String) : Keeps Trace.Fits (consult host slot message) :=
  Keeps.of_state fun _ ht => Trace.consult_fits hslot message ht

end Task

namespace Scan

variable {host : Host σ}

theorem walk_fits (h : host.resolver.Narrow) {slot : Slot} (hslot : slot < UInt32.size)
    (matchFirst : Bool) (checks : ClassChecks) (names : List String) :
    Leads Trace.Fits (walk host slot matchFirst checks names)
      (fun values trace => (∀ value ∈ values, value.Fits) ∧ trace.Fits) fun _ => Trace.Fits := by
  induction names with
  | nil => exact .pure fun _ ht => ⟨List.forall_mem_nil _, ht⟩
  | cons name rest ih =>
    unfold walk
    refine (Task.quiet_fits (Task.attempt_yields (h.loadClass name)) fun _ => rfl).bind
      fun answer => ?_
    rintro trace ⟨hanswer, ht⟩
    cases answer with
    | error e =>
      refine ((Task.consult_fits hslot e.message).bind fun decision => ?_) trace ht
      cases decision with
      | proceed => exact ih
      | abort => exact .pure fun _ ht => ⟨List.forall_mem_nil _, ht⟩
    | ok id =>
      have hid : (Entity.cls id).Fits := hanswer id rfl
      refine ((Task.quiet_fits (Leads.trivial _) fun _ => rfl).bind fun passes => ?_) trace ht
      rintro trace ⟨-, ht⟩
      split
      · split
        · exact ⟨List.forall_mem_singleton.2 hid, ht⟩
        · refine (ih.bind fun values => .pure ?_) trace ht
          rintro _ ⟨hvalues, ht⟩
          exact ⟨List.forall_mem_cons.2 ⟨hid, hvalues⟩, ht⟩
      · exact ih trace ht

theorem members_fits (h : host.resolver.Narrow) (g : Graph) (kind : Kind) (c : Constraints) :
    Leads Trace.Fits (members host g kind c)
      (fun values trace => (∀ value ∈ values, value.Fits) ∧ trace.Fits) fun _ => Trace.Fits := by
  unfold members
  refine (Task.ofExcept_fits _).bind fun owner => ?_
  cases owner with
  | none => exact .pure fun _ ht => ⟨List.forall_mem_nil _, ht⟩
  | some owner =>
    refine (Task.ofExcept_fits _).bind fun valueType => ?_
    refine (Task.ofExcept_fits _).bind fun parameterTypes => ?_
    refine (Task.quiet_fits (Task.ask_yields (h.members kind owner)) fun _ => rfl).bind
      fun candidates => .pure ?_
    rintro _ ⟨hcandidates, ht⟩
    refine ⟨fun value hvalue => ?_, ht⟩
    obtain ⟨candidate, hcandidate, rfl⟩ := mem_select hvalue
    exact hcandidates candidate hcandidate

end Scan

/-- **A search finds values with such handles**, and its failures are those of its matcher. -/
theorem Run.search_fits {ctx : RunContext σ} (h : ctx.host.resolver.Narrow) (g : Graph) {slot : Slot}
    (hslot : slot < UInt32.size) (node : Node) :
    Leads Trace.Fits (search ctx g slot node)
      (fun values trace => (∀ value ∈ values, value.Fits) ∧ trace.Fits) fun _ => Trace.Fits := by
  unfold search scan
  split
  · exact .pure fun _ ht => ⟨List.forall_mem_nil _, ht⟩
  · cases node.kind with
    | cls =>
      refine (Task.ofExcept_fits _).bind fun superclass => ?_
      refine (Task.ofExcept_fits _).bind fun interfaces => ?_
      exact Scan.walk_fits h hslot _ _ _
    | field | method | constructor => exact Scan.members_fits h _ _ _
    | text | parameter => exact .pure fun _ ht => ⟨List.forall_mem_nil _, ht⟩

/-! ## The state of a run -/

/-- A publication with handles of 32 bits and a sweep of 64. -/
structure Published.Fits (published : Published) : Prop where
  values : ∀ value ∈ published.values, value.Fits
  sweep : published.sweep < UInt64.size

/-- A graph of no more matchers than there are slots of 32 bits, with such publications. -/
structure Graph.Fits (g : Graph) : Prop where
  size : g.size ≤ UInt32.size
  published : ∀ s node published, g.get? s = some node → node.published = some published →
    published.Fits

namespace Graph.Fits

variable {g g' : Graph} {s : Slot} {values : List Entity} {sweep : Nat}

theorem of_get? (h : g.Fits) {own : Slot → Node → Option Published}
    (hget : ∀ t, (g'.get? t).map (·.published) = (g.get? t).map (own t))
    (hown : ∀ t node published, own t node = some published →
      node.published = some published ∨ published.Fits) : g'.Fits := by
  have hnodes : g'.nodes.map (fun _ => ()) = g.nodes.map fun _ => () := by
    refine map_nodes_congr fun t => ?_
    have ht := congrArg (Option.map fun _ => ()) (hget t)
    rw [Option.map_map, Option.map_map] at ht
    exact ht
  have hsize := congrArg List.length hnodes
  rw [List.length_map, List.length_map] at hsize
  refine ⟨Nat.le_of_eq hsize |>.trans h.size, fun t node published hnode hpublished => ?_⟩
  have ht := hget t
  rw [hnode, Option.map_some, hpublished] at ht
  obtain ⟨old, hold, hsame⟩ := Option.map_eq_some_iff.1 ht.symm
  exact (hown t old published hsame).elim (h.published t old published hold) id

theorem publish (h : g.Fits) (hpublished : Published.Fits ⟨values, sweep⟩)
    (hpublish : g.publish s values sweep = .ok g') : g'.Fits := by
  have hget : ∀ t, (g'.get? t).map (·.published) = (g.get? t).map fun node =>
      if s = t then some ⟨values, sweep⟩ else node.published := by
    intro t
    have ht := congrArg (Option.map Prod.snd) (get?_publish hpublish t)
    rw [Option.map_map, Option.map_map] at ht
    exact ht
  refine h.of_get? hget fun t node published hown => ?_
  by_cases hst : s = t
  · rw [if_pos hst, Option.some_inj] at hown
    exact .inr (hown ▸ hpublished)
  · rw [if_neg hst] at hown
    exact .inl hown

theorem detach (h : g.Fits) (m : Slot) : (g.detach m).Fits :=
  h.of_get? (map_get?_detach (fun _ _ _ _ => rfl) g m) fun _ _ _ => .inl

end Graph.Fits

/-- The state of a run with handles of 32 bits and sweeps of 64. -/
structure Progress.Fits (p : Progress σ) : Prop where
  graph : p.graph.Fits
  failures : p.toTrace.Fits

theorem Progress.Fits.inWorld {p : Progress σ} (h : p.Fits) (world : σ) :
    Progress.Fits { p with world } :=
  ⟨h.graph, h.failures⟩

/-- Numbers of sweeps have 64 bits by far. -/
theorem Progress.Fits.sweep_lt {p : Progress σ} (h : p.Fits) {number : Nat}
    (hnumber : number ≤ p.graph.size + 1) : number < UInt64.size := by
  have hsize := h.graph.size
  have h32 : UInt32.size + 1 < UInt64.size := by decide
  omega

namespace Run

variable {ctx : RunContext σ}

theorem publish_fits (ctx : RunContext σ) {slot : Slot} {values : List Entity} {sweep : Nat}
    (h : Published.Fits ⟨values, sweep⟩) : Keeps Progress.Fits (publish ctx slot values sweep) := by
  refine publish_keeps ?_ fun _ => Keeps.of_state fun p hp => ⟨hp.graph, hp.failures⟩
  exact change_keeps (fun p hp => ⟨hp.graph, hp.failures⟩) fun p g hp hg =>
    ⟨hp.graph.publish h hg, hp.failures⟩

/-- **Nothing that a run does breaks the bounds.** -/
theorem fits_invariant (h : ctx.host.resolver.Narrow) {last : Option MatchResult}
    (hlast : ∀ earlier ∈ last, earlier.Fits) :
    Invariant ctx last (fun s published => s < UInt32.size ∧ published.Fits) Progress.Fits where
  gather {earlier} hearlier g := by
    rintro p ⟨rfl, hp⟩
    have hzero : 0 < UInt64.size := by decide
    have hgather := h.gather (hlast earlier hearlier) p.graph p.graph.slots
    refine ((ask_leads (fun _ world hp => Progress.Fits.inWorld hp world) hgather).weaken
      (fun _ hp => hp) (fun seeds q ⟨hseeds, hq⟩ => ⟨fun seed hseed => ?_, hq⟩)
      fun _ _ hq => hq) p hp
    obtain ⟨hslot, hvalues⟩ := hseeds seed hseed
    exact ⟨hslot.trans_le hp.graph.size, hvalues, hzero⟩
  detach slot := detach_keeps (fun p hp => ⟨hp.graph, hp.failures⟩)
    fun p hp => ⟨hp.graph.detach slot, hp.failures⟩
  publish slot values hadmits := publish_fits ctx hadmits.2
  tasks {start number} hstart hnumber := {
    search := by
      rintro _ slot node hnode p ⟨rfl, hp⟩
      have hslot : slot < UInt32.size := (Graph.lt_size hnode).trans_le hp.graph.size
      refine ofTask_ends ((search_fits h p.graph hslot node p.toTrace hp.failures).mono ?_
        fun _ _ htrace => ⟨hp.graph, htrace⟩)
      rintro values trace ⟨hvalues, htrace⟩
      exact ⟨⟨hslot, hvalues, hstart.sweep_lt hnumber⟩, hp.graph, htrace⟩
    publish := fun slot values hadmits => publish_fits ctx hadmits.2
    consult := by
      rintro slot ⟨published, hslot, -⟩ message
      exact Keeps.of_state fun p hp => ⟨hp.graph, Trace.consult_fits hslot message hp.failures⟩ }
  draw {start number} hstart hnumber kind := by
    intro p hp
    refine ⟨fun s hs => ⟨?_, List.forall_mem_nil _, hstart.sweep_lt hnumber⟩, hp.graph, hp.failures⟩
    have hsize : s < p.graph.size := List.mem_range.1 (List.mem_of_mem_filter hs)
    exact hsize.trans_le hp.graph.size
  reports prune nodes := Keeps.of_state fun p hp => ⟨hp.graph, hp.failures⟩

/-! ## Results -/

theorem sweeps_yields (ctx : RunContext σ) (number fuel : Nat) :
    Yields (· ≤ number + fuel) (sweeps ctx number fuel) := by
  induction fuel generalizing number with
  | zero => exact .pure (Nat.le_refl _)
  | succ fuel ih =>
    unfold sweeps
    refine Yields.any fun count => ?_
    split
    · exact .pure (Nat.le_add_right _ _)
    · exact Yields.mono (ih (number + 1)) fun last hlast => by omega

end Run

theorem Node.reports_slots (resolver : Resolver σ) (prune : Bool) (slot : Slot)
    (nodes : List Node) :
    Yields (fun reports => reports.map (·.slot) = List.range' slot nodes.length)
      (Node.reports resolver prune slot nodes) := by
  induction nodes generalizing slot with
  | nil => exact .pure rfl
  | cons node rest ih =>
    unfold reports
    refine Yields.bind (node.report_yields resolver prune slot) fun here hhere => ?_
    refine Yields.bind (ih (slot + 1)) fun others hothers => .pure ?_
    rw [List.map_cons, hhere.1, hothers, List.length_cons, List.range'_succ]

namespace Run

variable {ctx : RunContext σ}

theorem collect_slots (count : Nat) :
    Leads (fun _ => True) (collect ctx count) (fun result p =>
      result.reports.map (·.slot) = p.graph.slots ∧ result.failures = p.failures)
      fun _ _ => True := by
  unfold collect
  refine graph_leads.bind fun g => ?_
  rintro p ⟨rfl, -⟩
  have hask := ask_leads (P := fun q : Progress σ => q.graph = p.graph) (fun _ _ => id)
    (Node.reports_slots ctx.host.resolver ctx.config.pruneUnconsumed 0 p.graph.nodes)
  refine ((hask.weaken (fun _ h => h) (fun _ _ h => h) fun _ _ _ => trivial).bind
    fun reports => ?_) p rfl
  rintro q ⟨hslots, hgraph⟩
  refine ⟨hslots.trans ?_, rfl⟩
  rw [hgraph, Graph.slots, List.range_eq_range', Graph.size]

theorem collect_fits {count : Nat} (hcount : count < UInt64.size) :
    Leads Progress.Fits (collect ctx count) (fun result _ => result.Fits) fun _ _ => True := by
  have htells := @collect_tells σ ctx Progress.Fits (fun _ world hp => hp.inWorld world) count
  refine (htells.and (collect_slots count)).weaken (fun _ hp => ⟨hp, trivial⟩) ?_ fun _ _ _ => trivial
  rintro result p ⟨⟨hp, rfl, hreports⟩, hslots, hfailures⟩
  refine ⟨hcount, fun report hreport => ?_, hfailures ▸ hp.failures⟩
  obtain ⟨s, hs⟩ := List.getElem?_of_mem hreport
  obtain ⟨node, hnode, ht⟩ := hreports.get? hs
  have hslot : report.slot ∈ p.graph.slots := hslots ▸ List.mem_map_of_mem hreport
  refine ⟨(List.mem_range.1 hslot).trans_le hp.graph.size, fun sweep hsweep => ?_,
    fun value hvalue => ?_⟩
  · rw [ht.sweep] at hsweep
    obtain ⟨published, hpublished, rfl⟩ := Option.map_eq_some_iff.1 hsweep
    exact (hp.graph.published s node published hnode hpublished).sweep
  · rw [ht.values] at hvalue
    cases hpublished : node.published with
    | none =>
      rw [hpublished] at hvalue
      cases hvalue
    | some published =>
      rw [hpublished] at hvalue
      exact (hp.graph.published s node published hnode hpublished).values value hvalue

/-- **A run whose answers have handles of 32 bits comes to a result that keeps to the bounds.** -/
theorem resolve_fits (h : ctx.host.resolver.Narrow) {last : Option MatchResult}
    (hlast : ∀ earlier ∈ last, earlier.Fits) :
    Leads Progress.Fits (resolve ctx last) (fun result _ => result.Fits) fun _ _ => True := by
  have hinvariant := fits_invariant h hlast
  intro p hp
  have hseed := hinvariant.toSeedInvariant.seed (hinvariant.tasks hp (Nat.zero_le _))
  unfold resolve
  refine ((hseed.weaken (fun _ h => h) (fun _ _ h => h) fun _ _ _ => trivial).bind fun _ => ?_) p hp
  refine graph_leads.bind fun g => ?_
  rintro p ⟨rfl, hp⟩
  have hfuel : 1 + (p.graph.size + 1) ≤ p.graph.size + 2 := by omega
  have hsweeps := (hinvariant.sweeps hp hfuel).and (sweeps_yields ctx 1 (p.graph.size + 1))
  refine ((hsweeps.weaken (fun _ hp => ⟨hp, trivial⟩) (fun _ _ h => h) fun _ _ _ => trivial).bind
    fun count => ?_) p hp
  rintro q ⟨hq, hcount⟩
  have hbound : count < UInt64.size := by
    have hsize := hp.graph.size
    have h32 : UInt32.size + 3 ≤ UInt64.size := by decide
    omega
  exact adapt_leads (collect_fits hbound) (fun _ _ h => h) q hq

end Run

/-- **A session that has not published anything comes to results within the bounds**, if handles and
the earlier result keep to them. -/
theorem Session.fits_of_execute {calls : List ClientCall} {session : Session}
    (hgraph : session.graph = Graph.afterAll {} calls) (hsize : session.graph.size ≤ UInt32.size)
    (hlast : ∀ earlier ∈ session.last, earlier.Fits) {host : Host σ} (hhost : host.resolver.Narrow)
    {arrange : List Slot → List Slot} {lists : List (List String)} {world : σ}
    {result : MatchResult}
    (h : (session.execute arrange lists host world).1 = .ok result) : result.Fits := by
  have hstart : Progress.Fits ({ world, graph := session.graph } : Progress σ) := by
    refine ⟨⟨hsize, fun s node published hnode hpublished => ?_⟩, List.forall_mem_nil _⟩
    rw [hgraph] at hnode
    rw [Graph.published_afterAll hnode] at hpublished
    cases hpublished
  have hends : Ends (fun result _ => result.Fits) (fun _ _ => True)
      (session.execute arrange lists host world) :=
    Run.resolve_fits hhost hlast _ hstart
  exact hends.of_ok h

/-! ## All results -/

/-- The results that there are: what a run of a session comes to, whose matchers were made by calls
and whose earlier result is one of them, and what reads from a text. -/
inductive MatchResult.Obtained : MatchResult → Prop
  | run {σ : Type} {calls : List ClientCall} {session : Session} {host : Host σ}
      {arrange : List Slot → List Slot} {names : Except CatalogError (List (List String))}
      {world world' : σ} {result : MatchResult} :
      session.graph = Graph.afterAll {} calls → session.graph.size ≤ UInt32.size →
      (∀ last, session.last = some last → Obtained last) → host.resolver.Narrow →
      session.runArranged arrange names host world = (.ok result, world') → Obtained result
  | load {text : String} {result : MatchResult} :
      MatchResult.load? text = some result → Obtained result

namespace MatchResult

/-- **The results that there are keep to the bounds**, and all that do can be had. -/
theorem obtained_iff {result : MatchResult} : result.Obtained ↔ result.Fits := by
  constructor
  · intro h
    induction h with
    | @run σ calls session host arrange names world world' result hgraph hsize _ hhost hrun ih =>
      cases names with
      | error e => cases hrun
      | ok lists => exact Session.fits_of_execute hgraph hsize ih hhost (congrArg Prod.fst hrun)
    | load hload => exact fits_of_load? hload
  · intro h
    exact .load (((load?_save result) result).2 ⟨h, rfl⟩)

end MatchResult

/-- **Saved results read back unchanged**, whether a run came to them or they were read themselves.
The index that is made anew has the keys of the reports, and leads each to the last one with it. -/
theorem load?_save_of_obtained {result : MatchResult} (h : result.Obtained) :
    MatchResult.load? result.save = some result ∧
      result.keys = Ordered.ofList (result.reports.filterMap (·.key)) ∧
      ∀ key, (result.index.place? key).bind result.report? = result.keyed? key ∧
        ∀ report, result.keyed? key = some report ↔ result.Last key report := by
  refine ⟨?_, result.keys_eq, fun key => ⟨rfl, fun report => MatchResult.keyed?_eq_some_iff⟩⟩
  exact (result.load?_save result).2 ⟨MatchResult.obtained_iff.1 h, rfl⟩

namespace Sample

/-- A run of matchers three of which have one key, with an earlier result. -/
def runPaired : Except RunError MatchResult × Nat :=
  (session paired).runArranged List.reverse (.ok [["B", "A"]]) calm 0

end Sample

theorem load?_save_of_paired :
    ∃ result world report, Sample.runPaired = (.ok result, world) ∧ result.Obtained ∧
      MatchResult.load? result.save = some result ∧ result.report? 9 = some report ∧
      result.index.place? "kept" = some 9 ∧ result.Last "kept" report := by
  have hreport : ∀ result ∈ Sample.runPaired.1.toOption,
      result.index.place? "kept" = some 9 ∧ (result.report? 9).isSome := by
    decide +kernel
  have hok : Sample.runPaired.1.toOption.isSome := by decide +kernel
  obtain ⟨result, hresult⟩ := Option.isSome_iff_exists.1 hok
  obtain ⟨hindex, hsome⟩ := hreport result hresult
  obtain ⟨report, hplace⟩ := Option.isSome_iff_exists.1 hsome
  have hrun : Sample.runPaired = (.ok result, Sample.runPaired.2) := by
    revert hresult
    generalize Sample.runPaired = r
    rcases r with ⟨e | result', world⟩ <;> intro h <;> cases h
    rfl
  have hlast : Sample.last.Obtained :=
    .load ((Sample.last.load?_save Sample.last).2 ⟨by decide, rfl⟩)
  have hnarrow : Sample.calm.resolver.Narrow := Registry.narrow (by decide) (by decide)
  have hobtained : result.Obtained := by
    refine .run (Sample.graph_session _) (by decide +kernel) ?_ hnarrow hrun
    rintro _ ⟨⟩
    exact hlast
  obtain ⟨hload, _, hkeyed⟩ := load?_save_of_obtained hobtained
  obtain ⟨hbind, hiff⟩ := hkeyed "kept"
  rw [hindex, Option.bind_some, hplace] at hbind
  exact ⟨result, _, report, hrun, hobtained, hload, hplace, hindex, (hiff report).1 hbind.symm⟩

end Metamatch
