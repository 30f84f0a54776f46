import Metamatch.Proofs.Run.Accounts

/-!
# Ledgers of runs

* `Ledger`: what is noted in the course of a run.
* `Session.Booked`, `Session.exists_booked`: a run with its ledger.
* `Batch.filter_notes`: the share of one matcher.
-/

namespace Metamatch

variable {σ ε α : Type}

/-- A question for a class by its name. -/
def Entry.IsLoad (entry : Entry) : Prop := ∃ name answer, entry = .load name answer

/-! ## Reports and earlier values -/

namespace Host

variable (host : Host σ)

theorem describeAll_unnamed (values : List Entity) :
    Entity.describeAll host.resolver.unnamed values = Entity.describeAll host.resolver values := by
  induction values with
  | nil => rfl
  | cons value rest ih =>
    unfold Entity.describeAll
    rw [ih]
    rfl

theorem report_unnamed (prune : Bool) (slot : Slot) (node : Node) :
    node.report host.resolver.unnamed prune slot = node.report host.resolver prune slot := by
  simp only [Node.report, describeAll_unnamed]

theorem reports_unnamed (prune : Bool) (slot : Slot) (nodes : List Node) :
    Node.reports host.resolver.unnamed prune slot nodes =
      Node.reports host.resolver prune slot nodes := by
  induction nodes generalizing slot with
  | nil => rfl
  | cons node rest ih => rw [Node.reports, Node.reports, report_unnamed, ih]

theorem reports_noted (world : σ) (entries : List Entry) (prune : Bool) (slot : Slot)
    (nodes : List Node) :
    Keeps (host.Noted world entries) (Node.reports host.resolver prune slot nodes) := by
  rw [← host.reports_unnamed]
  let reporter : Host σ := { resolver := host.resolver.unnamed }
  have hpreserves : reporter.Preserves (host.Noted world entries) :=
    { host.unnamed_answers world entries with judge := fun _ _ hw => hw }
  exact hpreserves.reports prune slot nodes

theorem gather_noted (world : σ) (last : MatchResult) (g : Graph) (slots : List Slot) :
    Keeps (fun w => ∃ loads, (∀ entry ∈ loads, entry.IsLoad) ∧ host.Noted world loads w)
      (Seed.gather host.resolver last g slots) := by
  set Located : σ → Prop :=
    fun w => ∃ loads, (∀ entry ∈ loads, entry.IsLoad) ∧ host.Noted world loads w
  let locator : Host σ := { resolver := host.resolver }
  have hquiet : ∀ {β : Type} {call : Call σ β},
      (∀ loads, Keeps (host.Noted world loads) call) → Keeps Located call := fun hcall =>
    Keeps.of_state fun w ⟨loads, hloads, hw⟩ => ⟨loads, hloads, (hcall loads).state hw⟩
  have hpreserves : locator.Preserves Located := by
    constructor
    case loadClass =>
      refine fun name => Keeps.of_state fun w ⟨loads, hloads, hw⟩ => ⟨_, ?_,
        hw.trans (host.load_noted name w)⟩
      exact List.forall_mem_append.2 ⟨hloads, List.forall_mem_singleton.2 ⟨name, _, rfl⟩⟩
    case judge => exact fun _ _ hw => hw
    case className => exact fun id => hquiet fun l => (host.unnamed_answers world l).className id
    case classModifiers =>
      exact fun id => hquiet fun l => (host.unnamed_answers world l).classModifiers id
    case superclass => exact fun id => hquiet fun l => (host.unnamed_answers world l).superclass id
    case interfaces => exact fun id => hquiet fun l => (host.unnamed_answers world l).interfaces id
    case fields => exact fun id => hquiet fun l => (host.unnamed_answers world l).fields id
    case methods => exact fun id => hquiet fun l => (host.unnamed_answers world l).methods id
    case constructors =>
      exact fun id => hquiet fun l => (host.unnamed_answers world l).constructors id
  exact hpreserves.gather last g slots

end Host

/-! ## Ledgers -/

/-- What is noted in the course of a run: the calls about earlier values, and the account of each
matcher of a batch. -/
structure Ledger where
  seeds : List (Slot × Hearing)
  account : Slot → Account

namespace Ledger

/-- The notes before the first sweep: all calls about earlier values, then the verdicts. -/
def opening (ledger : Ledger) : List Note :=
  ledger.seeds.flatMap (fun seed => seed.2.toRound.notes seed.1) ++
    ledger.seeds.flatMap fun seed => seed.2.verdictNotes seed.1

/-- All notes of a run with these batches. -/
def notes (ledger : Ledger) (arrange : List Slot → List Slot) (batches : List Batch) : List Note :=
  ledger.opening ++ batches.flatMap (·.notes arrange ledger.account)

end Ledger

namespace Run

open Progress (Since)

variable {ctx : RunContext σ} {start p q : Progress σ} {notes : List Note}

theorem publishSeeds_since (seeds : List (Slot × List Entity)) :
    Leads (Since ctx.host start notes) (publishSeeds ctx seeds)
      (fun crashes p => ∃ rounds : List (Slot × Round),
        crashes = rounds.map (fun round => (round.1, round.2.crashes)) ∧
        start.Since ctx.host (notes ++ rounds.flatMap fun round => round.2.notes round.1) p)
      fun _ _ => True := by
  induction seeds generalizing notes with
  | nil => exact .pure fun p hp => ⟨[], rfl, (List.append_nil notes).symm ▸ hp⟩
  | cons seed rest ih =>
    unfold publishSeeds
    refine Leads.bind ((publish_since seed.1 seed.2 0).weaken (fun _ hp => hp) (fun _ _ hp => hp)
      fun _ _ _ => trivial) fun crashes => ?_
    rintro p ⟨calls, -, rfl, hp⟩
    refine (ih.bind fun crashes => .pure ?_) p hp
    rintro p ⟨rounds, rfl, hp⟩
    refine ⟨(seed.1, ⟨seed.2, calls⟩) :: rounds, rfl, ?_⟩
    rwa [List.append_assoc] at hp

theorem reportSeeds_since (h : ctx.host.Decides) (rounds : List (Slot × Round)) :
    Leads (Since ctx.host start notes)
      ((rounds.map fun round => (round.1, round.2.crashes)).forM fun crash =>
        adapt RunError.crash (reportCrashes ctx crash.1 crash.2))
      (fun _ p => ∃ seeds : List (Slot × Hearing),
        seeds.map (fun seed => (seed.1, seed.2.toRound)) = rounds ∧
        start.Since ctx.host (notes ++ seeds.flatMap fun seed => seed.2.verdictNotes seed.1) p)
      fun _ _ => True := by
  induction rounds generalizing notes with
  | nil => exact .pure fun p hp => ⟨[], rfl, (List.append_nil notes).symm ▸ hp⟩
  | cons round rest ih =>
    rw [List.map_cons, List.forM]
    refine Leads.bind (adapt_leads (reportCrashes_since h round.1 round.2.crashes)
      fun _ _ => False.elim) fun _ => ?_
    rintro p ⟨verdicts, hverdicts, hp⟩
    refine ih.weaken (fun _ hp => hp) ?_ (fun _ _ => id) p hp
    rintro _ p ⟨seeds, hseeds, hp⟩
    refine ⟨(round.1, ⟨round.2, verdicts, hverdicts⟩) :: seeds, ?_, ?_⟩
    · rw [List.map_cons, hseeds]
    · rwa [List.append_assoc] at hp

theorem detach_since (slot : Slot) :
    Keeps (Since ctx.host start notes) (detach slot : Run σ Payload Unit) :=
  detach_keeps (fun _ hp => hp.changed (fun _ => rfl) _) fun p hp =>
    hp.changed (Graph.map_get?_detach (fun _ _ _ _ => rfl) p.graph slot) _

theorem takeOver_since (last : MatchResult) (start : Progress σ) :
    Leads (· = start) (takeOver ctx last)
      (fun crashes p => ∃ (loads : List Entry) (world : σ) (rounds : List (Slot × Round)),
        (∀ entry ∈ loads, entry.IsLoad) ∧ ctx.host.Noted start.world loads world ∧
        crashes = rounds.map (fun round => (round.1, round.2.crashes)) ∧
        ({ start with world } : Progress σ).Since ctx.host
          (rounds.flatMap fun round => round.2.notes round.1) p)
      fun _ _ => True := by
  unfold takeOver
  refine graph_leads.bind fun g => ?_
  rintro p ⟨rfl, hp⟩
  have hgather : Leads (· = start)
      (ask (Seed.gather ctx.host.resolver last p.graph p.graph.slots) : Run σ Payload _)
      (fun _ p => ∃ (loads : List Entry) (world : σ), (∀ entry ∈ loads, entry.IsLoad) ∧
        ctx.host.Noted start.world loads world ∧ p = { start with world })
      fun _ _ => True := by
    rintro q rfl
    refine ask_ends ((ctx.host.gather_noted q.world last p.graph p.graph.slots q.world
      ⟨[], List.forall_mem_nil _, Host.Noted.refl q.world⟩).mono ?_ fun _ _ _ => trivial)
    rintro seeds world ⟨loads, hloads, hnoted⟩
    exact ⟨loads, world, hloads, hnoted, rfl⟩
  refine (Leads.bind (adapt_leads hgather fun _ _ => id) fun seeds => ?_) p hp
  rintro q ⟨loads, world, hloads, hnoted, rfl⟩
  set opened : Progress σ := { start with world }
  have hdetach : Leads (Since ctx.host opened [])
      (seeds.forM fun seed => adapt RunError.crash (detach seed.1))
      (fun _ => Since ctx.host opened []) fun _ _ => True :=
    (Leads.forM fun seed _ => adapt_keeps (detach_since seed.1)).weaken (fun _ hp => hp)
      (fun _ _ hp => hp) fun _ _ _ => trivial
  refine (hdetach.bind fun _ => ?_) opened (.refl ctx.host opened)
  refine adapt_leads ((publishSeeds_since seeds).weaken (fun _ hp => hp) ?_ fun _ _ => id)
    fun _ _ => id
  rintro crashes q ⟨rounds, hcrashes, hq⟩
  exact ⟨loads, world, rounds, hloads, hnoted, hcrashes, hq⟩

variable (ctx)

/-- Before the first sweep there is nothing on record but the opening of the ledger, after the loads
for earlier values. -/
theorem seed_since (h : ctx.host.Decides) (last : Option MatchResult) (start : Progress σ) :
    Leads (· = start) (last.forM (seed ctx))
      (fun _ p => ∃ (loads : List Entry) (world : σ) (seeds : List (Slot × Hearing)),
        (∀ entry ∈ loads, entry.IsLoad) ∧ (last = none → loads = []) ∧
        ctx.host.Noted start.world loads world ∧
        ∀ account, ({ start with world } : Progress σ).Since ctx.host
          (Ledger.opening ⟨seeds, account⟩) p)
      fun _ _ => True := by
  cases last with
  | none =>
    refine .pure fun p hp =>
      ⟨[], start.world, [], List.forall_mem_nil _, fun _ => rfl, .refl _, fun _ => ?_⟩
    exact hp ▸ .refl ctx.host start
  | some last =>
    refine (takeOver_since last start).bind fun crashes => ?_
    rintro p ⟨loads, world, rounds, hloads, hnoted, rfl, hp⟩
    refine (reportSeeds_since h rounds).weaken (fun _ hp => hp) ?_ (fun _ _ => id) p hp
    rintro _ p ⟨seeds, rfl, hp⟩
    refine ⟨loads, world, seeds, hloads, (nomatch ·), hnoted, fun account => ?_⟩
    rwa [List.flatMap_map] at hp

/-- Reports leave nothing behind, and tell the failures on record. -/
theorem collect_since (count : Nat) :
    Leads (Since ctx.host start notes) (adapt RunError.crash (collect ctx count))
      (fun result p => result.failures = p.failures ∧ start.Since ctx.host notes p)
      fun _ => Since ctx.host start notes := by
  have hreports : ∀ g : Graph, Keeps (Since ctx.host start notes)
      (ask (Node.reports ctx.host.resolver ctx.config.pruneUnconsumed 0 g.nodes) :
        Run σ Payload _) := by
    intro g
    refine Keeps.of_state fun p hp => ?_
    have hnoted := (ctx.host.reports_noted start.world (notes.map (·.entry))
      ctx.config.pruneUnconsumed 0 g.nodes).state hp.trace.noted
    exact ⟨⟨hp.trace.failures, hnoted⟩, hp.calls, hp.design⟩
  refine adapt_leads (E := fun _ => Since ctx.host start notes) ?_ fun _ _ => id
  unfold collect
  refine graph_leads.bind fun g => ?_
  rintro p ⟨-, hp⟩
  refine ((hreports g).bind fun reports => ?_) p hp
  exact fun p hp => ⟨rfl, hp⟩

end Run

/-! ## Runs -/

namespace Session

open Run

variable {session : Session} {arrange : List Slot → List Slot} {lists : List (List String)}
  {host : Host σ} {world : σ} {result : MatchResult} {final : Progress σ}

/-- A run that returns: where it stands once values are taken over, and the courses that it takes
from there, all in one ledger. What is noted before is the opening of the ledger, after loads for
earlier values; what is noted later are the notes of its batches. -/
structure Booked (session : Session) (arrange : List Slot → List Slot) (lists : List (List String))
    (host : Host σ) (world : σ) (result : MatchResult) (final start : Progress σ)
    (courses : List (Course σ)) (ledger : Ledger) : Prop where
  seeded : session.last.forM (seed (session.context arrange lists host))
    { world, graph := session.graph } = (.ok (), start)
  course : ∃ last, Courses (session.context arrange lists host) start courses last ∧
    final = { last with world := final.world }
  batches : courses.map (·.batch) = final.batches.reverse
  nodup : (courses.flatMap (·.batch.slots)).Nodup
  told : ∀ c ∈ courses,
    c.Told (session.context arrange lists host) session.graph ledger.account
  opening : start.failures = ledger.opening.filterMap Note.failure?
  failures : result.failures =
    (ledger.notes arrange final.batches.reverse).filterMap Note.failure?
  calls : final.notices.reverse.map Notice.call =
    (ledger.notes arrange final.batches.reverse).filterMap Note.call?
  opened : ∃ loads : List Entry, (∀ entry ∈ loads, entry.IsLoad) ∧
    (session.last = none → loads = []) ∧
    host.Noted world (loads ++ ledger.opening.map (·.entry)) start.world
  noted : host.Noted start.world
    ((final.batches.reverse.flatMap (·.notes arrange ledger.account)).map (·.entry)) final.world

theorem Booked.real
    (h : session.Booked arrange lists host world result final start courses ledger) :
    ∀ note ∈ ledger.notes arrange final.batches.reverse, note.entry.Real host := by
  obtain ⟨loads, -, -, hopened⟩ := h.opened
  refine List.forall_mem_append.2 ⟨fun note hnote => ?_, fun note hnote => ?_⟩
  · exact hopened.real _ (List.mem_append_right _ (List.mem_map_of_mem hnote))
  · exact h.noted.real _ (List.mem_map_of_mem hnote)

/-- **Every run that returns has a ledger**, whatever the host does, as long as the policy never
crashes. -/
theorem exists_booked (hg : session.graph.Built) (harrange : ∀ items, (arrange items).Perm items)
    (hdecides : host.Decides)
    (hrun : session.execute arrange lists host world = (.ok result, final)) :
    ∃ start courses ledger,
      session.Booked arrange lists host world result final start courses ledger := by
  set ctx := session.context arrange lists host
  obtain ⟨start, count, last, hstart, hsweeps, hcollect⟩ := exists_parts hrun
  obtain ⟨courses, hcourses⟩ := sweeps_courses hsweeps
  obtain ⟨ground, hground, hat⟩ := (start_leads hg).ok rfl hstart
  have hnodup := (hcourses.nodup harrange hground.published hat).1
  obtain ⟨loads, opened, seeds, hloads, hnone, hnoted, hopening⟩ :=
    (seed_since ctx hdecides session.last _).ok rfl hstart
  have hopening := hopening fun _ => .found [] .silent
  obtain ⟨account, htold, hlast⟩ :=
    hcourses.since hdecides harrange hnodup (.refl ctx.host start)
  have hfinal := collect_eq hcollect
  have hbatches : courses.map (·.batch) = final.batches.reverse := by
    have hstarted : start.batches = [] :=
      ((seed_batches ctx session.last []).seed (task_batches ctx 0 [])).ok rfl hstart
    have hrecord := hcourses.batches
    rw [hstarted, List.append_nil] at hrecord
    rw [hfinal, hrecord, List.reverse_reverse]
  have hnotes : courses.flatMap (·.batch.notes arrange account) =
      final.batches.reverse.flatMap (·.notes arrange account) := by
    rw [← hbatches, List.flatMap_map]
  obtain ⟨hfailures, hsince⟩ := (collect_since ctx count).ok hlast hcollect
  change start.Since host ([] ++ courses.flatMap (·.batch.notes arrange account)) final at hsince
  rw [List.nil_append, hnotes] at hsince
  have htold : ∀ c ∈ courses, c.Told ctx session.graph account := fun c hc s hs => by
    rw [← hopening.tried ctx.catalog s]
    exact htold c hc s hs
  refine ⟨start, courses, ⟨seeds, account⟩, hstart, ⟨last, hcourses, hfinal⟩, hbatches, hnodup,
    htold, hopening.trace.failures, ?_, ?_, ⟨loads, hloads, hnone, ?_⟩, hsince.trace.noted⟩
  · rw [hfailures, hsince.trace.failures, hopening.trace.failures, Ledger.notes,
      List.filterMap_append]
    rfl
  · rw [hsince.calls, hopening.calls, Ledger.notes, List.filterMap_append]
    rfl
  · exact hnoted.trans hopening.trace.noted

end Session

/-! ### The notes of one matcher -/

theorem Round.slot_eq {slot : Slot} {round : Round} :
    ∀ note ∈ round.notes slot, note.slot = slot := by
  intro note hnote
  obtain ⟨call, -, rfl⟩ := List.mem_map.1 hnote
  rfl

theorem Hearing.slot_eq {slot : Slot} {hearing : Hearing} :
    ∀ note ∈ hearing.notes slot, note.slot = slot := by
  refine List.forall_mem_append.2 ⟨Round.slot_eq, fun note hnote => ?_⟩
  obtain ⟨verdict, -, rfl⟩ := List.mem_map.1 hnote
  rfl

theorem Account.slot_eq {slot : Slot} {account : Account} :
    (∀ note ∈ account.searched slot, note.slot = slot) ∧
      ∀ note ∈ account.settled slot, note.slot = slot := by
  have hvisits : ∀ visits : List Visit, ∀ note ∈ visits.flatMap (Visit.notes slot),
      note.slot = slot := by
    intro visits note hnote
    obtain ⟨visit, -, hnote⟩ := List.mem_flatMap.1 hnote
    obtain ⟨entry, -, rfl⟩ := List.mem_map.1 hnote
    rfl
  cases account with
  | found visits hearing =>
    exact ⟨List.forall_mem_append.2 ⟨hvisits visits, Hearing.slot_eq⟩, List.forall_mem_nil _⟩
  | failed visits e decision hearing =>
    exact ⟨hvisits visits, List.forall_mem_cons.2 ⟨rfl, Hearing.slot_eq⟩⟩

theorem Note.filter_flatMap {f : Slot → List Note} (hf : ∀ t, ∀ note ∈ f t, note.slot = t)
    {items : List Slot} (hnodup : items.Nodup) (s : Slot) :
    (items.flatMap f).filter (·.slot = s) = if s ∈ items then f s else [] := by
  induction items with
  | nil => rfl
  | cons t rest ih =>
    obtain ⟨ht, hnodup⟩ := List.nodup_cons.1 hnodup
    rw [List.flatMap_cons, List.filter_append, ih hnodup]
    by_cases hts : t = s
    · subst hts
      have hall : (f t).filter (·.slot = t) = f t :=
        List.filter_eq_self.2 fun note hnote => decide_eq_true (hf t note hnote)
      rw [hall, if_neg ht, if_pos List.mem_cons_self, List.append_nil]
    · have hnone : (f t).filter (·.slot = s) = [] :=
        List.filter_eq_nil_iff.2 fun note hnote => by simpa [hf t note hnote] using hts
      have hmem : s ∈ t :: rest ↔ s ∈ rest := by simp [Ne.symm hts]
      simp only [hnone, hmem, List.nil_append]

/-- The notes of a matcher are in the batch that it is part of. -/
theorem Batch.filter_notes {arrange : List Slot → List Slot}
    (harrange : ∀ items, (arrange items).Perm items) {account : Slot → Account}
    {batches : List Batch} (hnodup : (batches.flatMap (·.slots)).Nodup) (s : Slot) :
    (batches.flatMap (·.notes arrange account)).filter (·.slot = s) =
      if s ∈ batches.flatMap (·.slots) then (account s).searched s ++ (account s).settled s
      else [] := by
  induction batches with
  | nil => rfl
  | cons batch rest ih =>
    rw [List.flatMap_cons, List.nodup_append] at hnodup
    obtain ⟨hhere, hrest, hdisjoint⟩ := hnodup
    have hperm := harrange batch.slots
    have hbatch : (batch.notes arrange account).filter (·.slot = s) =
        if s ∈ batch.slots then (account s).searched s ++ (account s).settled s else [] := by
      rw [notes, List.filter_append,
        Note.filter_flatMap (fun _ => Account.slot_eq.1) (hperm.nodup_iff.2 hhere),
        Note.filter_flatMap (fun _ => Account.slot_eq.2) hhere]
      simp only [hperm.mem_iff]
      split <;> rfl
    rw [List.flatMap_cons, List.flatMap_cons, List.filter_append, hbatch, ih hrest]
    by_cases hs : s ∈ batch.slots
    · have hlater : s ∉ rest.flatMap (·.slots) := fun h => hdisjoint s hs s h rfl
      rw [if_pos hs, if_neg hlater, if_pos (List.mem_append_left _ hs), List.append_nil]
    · simp only [hs, if_false, List.nil_append, List.mem_append, false_or]

end Metamatch
