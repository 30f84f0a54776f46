import Metamatch.Proofs.Run.Admission
import Metamatch.Proofs.Run.Calls
import Metamatch.Proofs.Run.Isolation
import Metamatch.Proofs.Scans

/-!
# Accounts of a run

* `Hearing`, `Account`: what is noted when the observers of a slot are called, and of the task of a
  matcher.
* `Progress.Since`: the notes between two states of a run.
-/

namespace Metamatch

variable {σ ε α : Type}

/-! ## Accounts -/

/-- The observers of a slot are called with its values, one after the other. Each call may crash. -/
structure Round where
  values : List Entity
  calls : List (Nat × Option Payload)

namespace Round

def crashes (round : Round) : List Payload := round.calls.filterMap Prod.snd

def notes (slot : Slot) (round : Round) : List Note :=
  round.calls.map fun call => ⟨slot, .call call.1 round.values call.2⟩

end Round

/-- A round of calls, each crash of which is put before the policy once. -/
structure Hearing extends Round where
  verdicts : List (Payload × Decision)
  judged : verdicts.map Prod.fst = toRound.crashes

namespace Hearing

/-- No observer is called. -/
def silent : Hearing := ⟨⟨[], []⟩, [], rfl⟩

def verdictNotes (slot : Slot) (hearing : Hearing) : List Note :=
  hearing.verdicts.map fun verdict =>
    ⟨slot, .verdict (TaskError.ofPayload verdict.1).explain.root verdict.2⟩

def notes (slot : Slot) (hearing : Hearing) : List Note :=
  hearing.toRound.notes slot ++ hearing.verdictNotes slot

end Hearing

/-- What became of the task of a matcher, after the visits of its search: it published what it
found, or it failed, with the verdict on that, before it was made up for. -/
inductive Account
  | found (visits : List Visit) (hearing : Hearing)
  | failed (visits : List Visit) (e : TaskError) (decision : Decision) (hearing : Hearing)

namespace Account

def visits : Account → List Visit
  | .found visits _ | .failed visits _ _ _ => visits

/-- The outcome of the task. -/
def outcome : Account → Except TaskError Unit
  | .found _ _ => .ok ()
  | .failed _ e _ _ => .error e

/-- What is noted while the task is executed. -/
def searched (slot : Slot) : Account → List Note
  | .found visits hearing => visits.flatMap (Visit.notes slot) ++ hearing.notes slot
  | .failed visits _ _ _ => visits.flatMap (Visit.notes slot)

/-- What is noted when the task is settled. -/
def settled (slot : Slot) : Account → List Note
  | .found _ _ => []
  | .failed _ e decision hearing =>
    ⟨slot, .verdict e.explain.root decision⟩ :: hearing.notes slot

/-- Two accounts of a task agree on what it did before it was settled. -/
structure Agrees (slot : Slot) (account account' : Account) : Prop where
  outcome : account'.outcome = account.outcome
  visits : account'.visits = account.visits
  searched : account'.searched slot = account.searched slot

theorem Agrees.refl (slot : Slot) (account : Account) : account.Agrees slot account :=
  ⟨rfl, rfl, rfl⟩

theorem exists_cons (task : Account) (account : Slot → Account) {s : Slot} {rest : List Slot}
    (hs : s ∉ rest) :
    ∃ account' : Slot → Account, account' s = task ∧ ∀ t ∈ rest, account' t = account t :=
  ⟨Function.update account s task, Function.update_self _ _ _,
    fun _ ht => Function.update_of_ne (ne_of_mem_of_not_mem ht hs) _ _⟩

end Account

/-- The notes of a batch: its tasks are executed in some order, then settled in slot order. -/
def Batch.notes (arrange : List Slot → List Slot) (account : Slot → Account) (batch : Batch) :
    List Note :=
  (arrange batch.slots).flatMap (fun s => (account s).searched s) ++
    batch.slots.flatMap fun s => (account s).settled s

theorem Batch.notes_congr {arrange : List Slot → List Slot}
    (harrange : ∀ items, (arrange items).Perm items) {account account' : Slot → Account}
    {batch : Batch} (h : ∀ s ∈ batch.slots, account s = account' s) :
    batch.notes arrange account = batch.notes arrange account' := by
  rw [notes, notes]
  congr 1
  · exact List.flatMap_congr fun s hs => by rw [h s ((harrange _).mem_iff.1 hs)]
  · exact List.flatMap_congr fun s hs => by rw [h s hs]

/-- The names that a scan for a matcher goes through. -/
def Node.tried (catalog : Catalog) (node : Node) : List String :=
  match node.kind with
  | .cls => Scan.namesToTry catalog node.constraints.name
  | .field | .method | .constructor | .text | .parameter => []

def Graph.tried (g : Graph) (catalog : Catalog) (slot : Slot) : List String :=
  (g.get? slot).elim [] (·.tried catalog)

/-- The visits of a search: it comes to the names that it may try from the first on, and if a
question for one of them crashes, so does the search. -/
structure Visit.Trail (names : List String) (outcome : Except TaskError Unit)
    (visits : List Visit) : Prop where
  names : visits.map Visit.name <+: names
  crashed : ∀ name payload, .crashed name payload ∈ visits → outcome = .error (.ofPayload payload)

theorem Visit.Trail.nil (names : List String) (outcome : Except TaskError Unit) :
    Trail names outcome [] :=
  ⟨List.nil_prefix, fun _ _ hmem => absurd hmem List.not_mem_nil⟩

theorem Visit.Trail.of_ok {names : List String} {visits : List Visit}
    (h : Trail names (.ok ()) visits) (outcome : Except TaskError Unit) :
    Trail names outcome visits :=
  ⟨h.names, fun name payload hmem => nomatch h.crashed name payload hmem⟩

/-- What the accounts of a batch tell: the outcomes of its tasks, and what their searches tried. -/
def Course.Told (c : Course σ) (ctx : RunContext σ) (g : Graph)
    (account : Slot → Account) : Prop :=
  ∀ s ∈ c.batch.slots, c.outcomes.lookup s = some (account s).outcome ∧
    Visit.Trail (g.tried ctx.catalog s) (account s).outcome (account s).visits

/-- The call of an observer for its slot. -/
def Note.call? (note : Note) : Option (Slot × Nat × List Entity) :=
  match note.entry with
  | .call number values _ => some (note.slot, number, values)
  | .load _ _ | .verdict _ _ => none

theorem Round.failures_eq_nil (slot : Slot) (round : Round) :
    (round.notes slot).filterMap Note.failure? = [] := by
  rw [List.filterMap_eq_nil_iff]
  intro note hnote
  obtain ⟨call, -, rfl⟩ := List.mem_map.1 hnote
  rfl

theorem Hearing.call?_eq_none {slot : Slot} (hearing : Hearing) :
    ∀ note ∈ hearing.verdictNotes slot, note.call? = none := by
  intro note hnote
  obtain ⟨told, -, rfl⟩ := List.mem_map.1 hnote
  rfl

theorem Visit.call?_eq_none {slot : Slot} {visits : List Visit} :
    ∀ note ∈ visits.flatMap (Visit.notes slot), note.call? = none := by
  intro note hnote
  obtain ⟨visit, -, hnote⟩ := List.mem_flatMap.1 hnote
  obtain ⟨entry, hentry, rfl⟩ := List.mem_map.1 hnote
  cases visit with
  | refused name e decision =>
    rcases List.mem_pair.1 hentry with rfl | rfl <;> rfl
  | crashed name payload | checked name cls answer =>
    cases List.mem_singleton.1 hentry
    rfl

/-! ## Searches -/

section Searches

open Trace (Since)

variable {host : Host σ} {start : Trace σ} {notes : List Note} {g : Graph} {slot : Slot}

/-- A walk leaves a trail. -/
theorem Scan.Walks.trail {Passes : ClassId → Except Mishap Bool → Prop} {matchFirst : Bool}
    {names : List String} {visits : List Visit} {outcome : Except TaskError (List Entity)}
    (h : Walks Passes matchFirst names visits outcome) :
    Visit.Trail names (outcome.map fun _ => ()) visits := by
  refine ⟨h.isPrefix, fun name payload hmem => ?_⟩
  induction h with
  | done => cases hmem
  | crashed payload' =>
    cases List.mem_singleton.1 hmem
    rfl
  | aborted e | failed _ | first _ _ => cases List.mem_singleton.1 hmem
  | skipped e _ ih | rejected _ _ ih =>
    rcases List.mem_cons.1 hmem with h | h
    · cases h
    · exact ih h
  | @kept _ _ _ _ outcome _ _ _ ih =>
    rcases List.mem_cons.1 hmem with h | h
    · cases h
    · rw [← ih h]
      cases outcome <;> rfl

/-- A search has left this trail. -/
def Trace.Visited (host : Host σ) (start : Trace σ) (notes : List Note) (slot : Slot)
    (names : List String) (outcome : Except TaskError Unit) (trace : Trace σ) : Prop :=
  ∃ visits, Visit.Trail names outcome visits ∧
    start.Since host (notes ++ visits.flatMap (Visit.notes slot)) trace

theorem Trace.Since.visited {trace : Trace σ} (h : start.Since host notes trace) (slot : Slot)
    (names : List String) (outcome : Except TaskError Unit) :
    start.Visited host notes slot names outcome trace :=
  ⟨[], .nil names outcome, by rwa [List.flatMap_nil, List.append_nil]⟩

/-- A scan for classes leaves the trail of its walk. -/
theorem Scan.classes_visited (h : host.Decides) (catalog : Catalog) (c : Constraints) :
    Leads (Since host start notes) (classes host catalog g slot c)
      (fun _ => start.Visited host notes slot (namesToTry catalog c.name) (.ok ()))
      fun e => start.Visited host notes slot (namesToTry catalog c.name) (.error e) := by
  have hread : ∀ {α : Type} (value : Except Payload α),
      Leads (Since host start notes) (Task.ofExcept value) (fun _ => Since host start notes)
        fun e => start.Visited host notes slot (namesToTry catalog c.name) (.error e) :=
    fun value => (Task.ofExcept_keeps value).weaken (fun _ ht => ht) (fun _ _ ht => ht)
      fun _ _ ht => ht.visited slot _ _
  unfold classes
  refine (hread _).bind fun superclass => (hread _).bind fun interfaces => ?_
  refine (walk_since h slot _ _ _).weaken (fun _ => id) ?_ ?_
  · exact fun values trace ⟨visits, hwalks, ht⟩ => ⟨visits, hwalks.trail, ht⟩
  · exact fun e trace ⟨visits, hwalks, ht⟩ => ⟨visits, hwalks.trail, ht⟩

theorem Scan.members_since (kind : Kind) (c : Constraints) :
    Leads (Since host start notes) (members host g kind c) (fun _ => Since host start notes)
      fun _ => Since host start notes := by
  unfold members
  refine (Task.ofExcept_keeps _).bind fun owner => ?_
  cases owner with
  | none => exact .pure fun _ ht => ht
  | some owner =>
    refine (Task.ofExcept_keeps _).bind fun valueType => ?_
    refine (Task.ofExcept_keeps _).bind fun parameterTypes => ?_
    have hask : Leads (Since host start notes) (Task.ask (kind.members host.resolver owner))
        (fun _ => Since host start notes) fun _ => Since host start notes :=
      (Task.ask_since fun world entries => (host.unnamed_answers world entries).members kind owner
        ).weaken (fun _ ht => ht) (fun _ _ ht => ht.2) fun _ _ ht => ht.2
    exact hask.bind fun _ => .pure fun _ ht => ht

theorem Run.search_visited {ctx : RunContext σ} (h : ctx.host.Decides) (node : Node) :
    Leads (Since ctx.host start notes) (search ctx g slot node)
      (fun _ => start.Visited ctx.host notes slot (node.tried ctx.catalog) (.ok ()))
      fun e => start.Visited ctx.host notes slot (node.tried ctx.catalog) (.error e) := by
  have hquiet : ∀ {task : Task σ (List Entity)}, Keeps (Since ctx.host start notes) task →
      Leads (Since ctx.host start notes) task
        (fun _ => start.Visited ctx.host notes slot (node.tried ctx.catalog) (.ok ()))
        fun e => start.Visited ctx.host notes slot (node.tried ctx.catalog) (.error e) :=
    fun htask => htask.weaken (fun _ ht => ht) (fun _ _ ht => ht.visited slot _ _)
      fun _ _ ht => ht.visited slot _ _
  unfold search scan
  split
  · exact hquiet (.pure fun _ ht => ht)
  · cases hkind : node.kind with
    | cls =>
      have hnames : node.tried ctx.catalog = Scan.namesToTry ctx.catalog node.constraints.name := by
        rw [Node.tried, hkind]
      rw [hnames]
      exact Scan.classes_visited h _ _
    | field | method | constructor => exact hquiet (Scan.members_since _ _)
    | text | parameter => exact hquiet (.pure fun _ ht => ht)

end Searches

/-! ## Notes between two states of a run -/

/-- Between two states of a run these notes were made: the verdicts among them are on record as
failures, and the calls of observers as notices. The matchers are as they were designed. -/
structure Progress.Since (host : Host σ) (start : Progress σ) (notes : List Note) (p : Progress σ) :
    Prop where
  trace : start.toTrace.Since host notes p.toTrace
  calls : p.notices.reverse.map Notice.call =
    start.notices.reverse.map Notice.call ++ notes.filterMap Note.call?
  design : ∀ s, (p.graph.get? s).map Node.design = (start.graph.get? s).map Node.design

open Progress (Since)

namespace Progress.Since

variable {host : Host σ} {start p q : Progress σ} {notes more : List Note}

theorem refl (host : Host σ) (p : Progress σ) : p.Since host [] p :=
  ⟨.refl host p.toTrace, (List.append_nil _).symm, fun _ => rfl⟩

theorem traced (h : start.Since host notes p) {trace : Trace σ}
    (htrace : start.toTrace.Since host (notes ++ more) trace)
    (hmore : ∀ note ∈ more, note.call? = none) :
    start.Since host (notes ++ more) { p with toTrace := trace } where
  trace := htrace
  calls := by
    rw [List.filterMap_append, List.filterMap_eq_nil_iff.2 hmore, List.append_nil]
    exact h.calls
  design := h.design

theorem changed (h : start.Since host notes p) {g : Graph}
    (hg : ∀ s, (g.get? s).map Node.design = (p.graph.get? s).map Node.design) (steps : List Step) :
    start.Since host notes { p with graph := g, steps } :=
  ⟨h.trace, h.calls, fun s => (hg s).trans (h.design s)⟩

theorem tried (h : start.Since host notes p) (catalog : Catalog) (s : Slot) :
    p.graph.tried catalog s = start.graph.tried catalog s := by
  have hdesign := h.design s
  unfold Graph.tried
  cases hnode : p.graph.get? s with
  | none =>
    rw [hnode, Option.map_none] at hdesign
    rw [Option.map_eq_none_iff.1 hdesign.symm]
  | some node =>
    rw [hnode, Option.map_some] at hdesign
    obtain ⟨first, hfirst, hsame⟩ := Option.map_eq_some_iff.1 hdesign.symm
    simp only [Node.design, Prod.mk.injEq] at hsame
    rw [hfirst, Option.elim_some, Option.elim_some, Node.tried, Node.tried, hsame.1, hsame.2.1]

end Progress.Since

namespace Run

variable {ctx : RunContext σ} {start p q : Progress σ} {notes : List Note} {slot : Slot}
  {number : Nat} {values : List Entity}

/-! ### Observers -/

theorem consult_since (h : ctx.host.Decides) (slot : Slot) (message : String) :
    Leads (Since ctx.host start notes) (consult ctx slot message)
      (fun _ p => ∃ decision,
        start.Since ctx.host (notes ++ [⟨slot, .verdict message decision⟩]) p)
      fun _ _ => False := by
  intro p hp
  obtain ⟨decision, trace, hconsult, htrace⟩ := hp.trace.consult h slot message
  unfold consult
  rw [hconsult]
  exact ⟨decision, hp.traced htrace (List.forall_mem_singleton.2 rfl)⟩

theorem observe_since (slot : Slot) (values : List Entity) (number : Nat) :
    Leads (Since ctx.host start notes)
      (observe ctx slot values number : Run σ ε (Option Payload))
      (fun crash? => Since ctx.host start (notes ++ [⟨slot, .call number values crash?⟩]))
      fun _ _ => False := by
  intro p hp
  have hnoted := ctx.host.observe_noted number values p.world
  have htrace := hp.trace.answered [⟨slot, .call number values _⟩] hnoted
    (List.forall_mem_singleton.2 rfl)
  refine ⟨htrace, ?_, hp.design⟩
  change (⟨slot, number, values, p.graph⟩ :: p.notices : List Notice).reverse.map Notice.call = _
  rw [List.reverse_cons, List.map_append, hp.calls, List.filterMap_append, List.append_assoc]
  rfl

theorem callObservers_since (slot : Slot) (values : List Entity) (numbers : List Nat) :
    Leads (Since ctx.host start notes)
      (callObservers ctx slot values numbers : Run σ ε (List Payload))
      (fun crashes p => ∃ calls, calls.map Prod.fst = numbers ∧
        crashes = Round.crashes ⟨values, calls⟩ ∧
        start.Since ctx.host (notes ++ Round.notes slot ⟨values, calls⟩) p)
      fun _ _ => False := by
  induction numbers generalizing notes with
  | nil => exact .pure fun p hp => ⟨[], rfl, rfl, (List.append_nil notes).symm ▸ hp⟩
  | cons number rest ih =>
    unfold callObservers
    refine (observe_since slot values number).bind fun crash? => ih.bind fun crashes => .pure ?_
    rintro p ⟨calls, rfl, rfl, hp⟩
    refine ⟨(number, crash?) :: calls, rfl, ?_, by rwa [List.append_assoc] at hp⟩
    cases crash? <;> rfl

theorem reportCrashes_since (h : ctx.host.Decides) (slot : Slot) (crashes : List Payload) :
    Leads (Since ctx.host start notes) (reportCrashes ctx slot crashes)
      (fun _ p => ∃ verdicts : List (Payload × Decision), verdicts.map Prod.fst = crashes ∧
        start.Since ctx.host (notes ++ verdicts.map fun verdict =>
          ⟨slot, .verdict (TaskError.ofPayload verdict.1).explain.root verdict.2⟩) p)
      fun _ _ => False := by
  induction crashes generalizing notes with
  | nil => exact .pure fun p hp => ⟨[], rfl, by rwa [List.map_nil, List.append_nil]⟩
  | cons payload rest ih =>
    refine (consult_since h slot _).bind fun _ => ?_
    rintro p ⟨decision, hp⟩
    refine ih.weaken (fun _ hp => hp) ?_ (fun _ _ => id) p hp
    rintro _ p ⟨verdicts, hverdicts, hp⟩
    refine ⟨(payload, decision) :: verdicts, ?_, by rwa [List.append_assoc] at hp⟩
    rw [List.map_cons, hverdicts]

/-! ### Publications -/

theorem publish_since (slot : Slot) (values : List Entity) (number : Nat) :
    Leads (Since ctx.host start notes) (publish ctx slot values number)
      (fun crashes p => ∃ calls, calls.map Prod.fst = p.graph.observers slot values.isEmpty ∧
        crashes = Round.crashes ⟨values, calls⟩ ∧
        start.Since ctx.host (notes ++ Round.notes slot ⟨values, calls⟩) p)
      fun _ => Since ctx.host start notes := by
  have hchange : Keeps (Since ctx.host start notes)
      (change (.publish slot values number) (·.publish slot values number) :
        Run σ SessionError Unit) := by
    refine change_keeps (fun p hp => hp.changed (fun _ => rfl) _) fun p g hp hg => ?_
    refine hp.changed (fun s => ?_) _
    have hget := congrArg (Option.map Prod.fst) (Graph.get?_publish hg s)
    rwa [Option.map_map, Option.map_map] at hget
  unfold publish
  refine hchange.bind fun _ => graph_leads.bind fun g => ?_
  rintro p ⟨rfl, hp⟩
  have hgraph : Leads (·.graph = p.graph)
      (callObservers ctx slot values (p.graph.observers slot values.isEmpty) :
        Run σ SessionError _)
      (fun _ q => q.graph = p.graph) fun _ _ => False :=
    observers_leads (fun _ _ hq => hq) _
  refine ((callObservers_since slot values _).and hgraph).weaken (fun _ => id) ?_
    (fun _ _ h => h.1.elim) p ⟨hp, rfl⟩
  rintro crashes q ⟨⟨calls, hnumbers, hcrashes, hq⟩, hsame⟩
  exact ⟨calls, by rw [hnumbers, hsame], hcrashes, hq⟩

theorem issue_since (h : ctx.host.Decides) {f : SessionError → ε} {f' : Payload → ε}
    (slot : Slot) (values : List Entity) (number : Nat) :
    Leads (Since ctx.host start notes)
      (do
        let crashes ← adapt f (publish ctx slot values number)
        adapt f' (reportCrashes ctx slot crashes))
      (fun _ p => ∃ hearing : Hearing, start.Since ctx.host (notes ++ hearing.notes slot) p)
      fun _ => Since ctx.host start notes := by
  refine Leads.bind (E := fun _ => Since ctx.host start notes)
    (adapt_leads (publish_since slot values number) fun _ _ hp => hp) fun crashes => ?_
  rintro p ⟨calls, -, rfl, hp⟩
  refine adapt_leads (E := fun _ _ => False) ((reportCrashes_since h slot _).weaken
    (fun _ hp => hp) ?_ fun _ _ => id) (fun _ _ => False.elim) p hp
  rintro _ p ⟨verdicts, hverdicts, hp⟩
  exact ⟨⟨⟨values, calls⟩, verdicts, hverdicts⟩, by rwa [List.append_assoc] at hp⟩

/-! ### Tasks -/

variable {ctx : RunContext σ} {start p q : Progress σ} {notes : List Note} {slot : Slot}
  {number : Nat}

theorem search_since (h : ctx.host.Decides) {g : Graph} {node : Node} :
    Leads (Since ctx.host start notes) (ofTask (search ctx g slot node))
      (fun _ p => ∃ visits, Visit.Trail (node.tried ctx.catalog) (.ok ()) visits ∧
        start.Since ctx.host (notes ++ visits.flatMap (Visit.notes slot)) p)
      fun e p => ∃ visits, Visit.Trail (node.tried ctx.catalog) (.error e) visits ∧
        start.Since ctx.host (notes ++ visits.flatMap (Visit.notes slot)) p := by
  intro p hp
  have hlift : ∀ outcome trace,
      start.toTrace.Visited ctx.host notes slot (node.tried ctx.catalog) outcome trace →
        ∃ visits, Visit.Trail (node.tried ctx.catalog) outcome visits ∧ start.Since ctx.host
          (notes ++ visits.flatMap (Visit.notes slot)) { p with toTrace := trace } :=
    fun outcome trace ⟨visits, hvisits, ht⟩ =>
      ⟨visits, hvisits, hp.traced ht Visit.call?_eq_none⟩
  exact ofTask_ends ((search_visited h node p.toTrace hp.trace).mono (fun _ => hlift _)
    fun _ => hlift _)

theorem evaluate_since (h : ctx.host.Decides) (number : Nat) (slot : Slot) :
    Leads (Since ctx.host start notes) (evaluate ctx number slot)
      (fun u p => ∃ account : Account, account.outcome = .ok u ∧
        Visit.Trail (start.graph.tried ctx.catalog slot) account.outcome account.visits ∧
        start.Since ctx.host (notes ++ account.searched slot) p)
      fun e p => ∃ account : Account, account.outcome = .error e ∧
        Visit.Trail (start.graph.tried ctx.catalog slot) account.outcome account.visits ∧
        start.Since ctx.host (notes ++ account.searched slot) p := by
  unfold evaluate
  refine graph_leads.bind fun g => ?_
  rintro p ⟨rfl, hp⟩
  have htried := hp.tried ctx.catalog slot
  cases hnode : p.graph.get? slot with
  | none => exact ⟨.found [] .silent, rfl, .nil _ _, (List.append_nil notes).symm ▸ hp⟩
  | some node =>
    rw [Graph.tried, hnode, Option.elim_some] at htried
    rw [← htried]
    -- the search fails, or its values are published; verdicts on observers cannot fail
    refine Leads.bind ((search_since h).weaken (fun _ hp => hp) (fun _ _ hp => hp) ?_)
      (fun values => ?_) p hp
    · rintro e p ⟨visits, hvisits, hp⟩
      exact ⟨.failed visits e .proceed .silent, rfl, hvisits, hp⟩
    · rintro p ⟨visits, hvisits, hp⟩
      refine (issue_since h slot values number).weaken (fun _ hp => hp) ?_ ?_ p hp
      · rintro _ p ⟨hearing, hp⟩
        exact ⟨.found visits hearing, rfl, hvisits, by rwa [List.append_assoc] at hp⟩
      · exact fun e p hp => ⟨.failed visits e .proceed .silent, rfl, hvisits.of_ok _, hp⟩

/-- **Tasks are noted one after the other**, in the order in which they are executed. -/
theorem execute_since (h : ctx.host.Decides) (number : Nat) {items : List Slot}
    (hnodup : items.Nodup) :
    Leads (Since ctx.host start notes) (execute ctx number items : Run σ ε _)
      (fun outcomes p => ∃ account : Slot → Account, (∀ s ∈ items,
          outcomes.lookup s = some (account s).outcome ∧
          Visit.Trail (start.graph.tried ctx.catalog s) (account s).outcome (account s).visits) ∧
        start.Since ctx.host (notes ++ items.flatMap fun s => (account s).searched s) p)
      fun _ _ => False := by
  induction items generalizing notes with
  | nil =>
    refine .pure fun p hp => ⟨fun _ => .found [] .silent, List.forall_mem_nil _, ?_⟩
    rwa [List.flatMap_nil, List.append_nil]
  | cons s rest ih =>
    obtain ⟨hs, hnodup⟩ := List.nodup_cons.1 hnodup
    have htask : Leads (Since ctx.host start notes) (contain (evaluate ctx number s) : Run σ ε _)
        (fun outcome p => ∃ account : Account, account.outcome = outcome ∧
          Visit.Trail (start.graph.tried ctx.catalog s) account.outcome account.visits ∧
          start.Since ctx.host (notes ++ account.searched s) p)
        fun _ _ => False := by
      refine (contain_leads (evaluate_since h number s)).weaken (fun _ hp => hp)
        (fun outcome p hp => ?_) fun _ _ => id
      cases outcome <;> exact hp
    unfold execute
    refine htask.bind fun outcome => ?_
    rintro p ⟨task, rfl, hvisits, hp⟩
    refine ((ih hnodup).bind fun outcomes => .pure ?_) p hp
    rintro q ⟨later, hlater, hq⟩
    obtain ⟨account, hhere, hrest⟩ := Account.exists_cons task later hs
    refine ⟨account, List.forall_mem_cons.2 ⟨?_, fun t ht => ?_⟩, ?_⟩
    · rw [hhere, List.lookup_cons, beq_self_eq_true]
      exact ⟨rfl, hvisits⟩
    · rw [hrest t ht, List.lookup_cons, beq_false_of_ne (ne_of_mem_of_not_mem ht hs)]
      exact hlater t ht
    · have hnotes : (rest.flatMap fun t => (account t).searched t) =
          rest.flatMap fun t => (later t).searched t :=
        List.flatMap_congr fun t ht => by rw [hrest t ht]
      rw [List.flatMap_cons, hhere, hnotes, ← List.append_assoc]
      exact hq

/-! ### Settlement -/

theorem settle_since (h : ctx.host.Decides) (number : Nat) (slot : Slot) (account : Account) :
    Leads (Since ctx.host start notes) (settle ctx number slot account.outcome)
      (fun _ p => ∃ account' : Account, account.Agrees slot account' ∧
        start.Since ctx.host (notes ++ account'.settled slot) p)
      fun _ _ => True := by
  cases account with
  | found visits hearing =>
    exact .pure fun p hp => ⟨_, .refl slot _, (List.append_nil notes).symm ▸ hp⟩
  | failed visits e decision hearing =>
    have hrecover : Leads (Since ctx.host start notes) (recover ctx number slot e)
        (fun _ p => ∃ account' : Account,
          (Account.failed visits e decision hearing).Agrees slot account' ∧
          start.Since ctx.host (notes ++ account'.settled slot) p)
        fun _ _ => True := by
      unfold recover
      refine Leads.bind (adapt_leads (consult_since h slot e.explain.root)
        fun _ _ => False.elim) fun _ => ?_
      rintro p ⟨decision, hp⟩
      refine graph_leads.bind (fun g => ?_) p hp
      rintro p ⟨-, hp⟩
      split
      · refine (issue_since h slot [] number).weaken (fun _ hp => hp) ?_ (fun _ _ _ => trivial) p hp
        rintro _ p ⟨hearing', hp⟩
        exact ⟨.failed visits e decision hearing', ⟨rfl, rfl, rfl⟩,
          by rwa [List.append_assoc] at hp⟩
      · exact ⟨.failed visits e decision .silent, ⟨rfl, rfl, rfl⟩, hp⟩
    cases e with
    | session e => exact fun _ _ => trivial
    | lookup e => exact hrecover
    | crashed message => exact hrecover

/-- **Failed tasks are noted one after the other**, in slot order. -/
theorem settleAll_since (h : ctx.host.Decides) (number : Nat) {items : List Slot}
    (hnodup : items.Nodup) {outcomes : List (Slot × Except TaskError Unit)}
    {account : Slot → Account}
    (houtcomes : ∀ s ∈ items, outcomes.lookup s = some (account s).outcome) :
    Leads (Since ctx.host start notes)
      (items.forM fun s => settle ctx number s ((outcomes.lookup s).getD (.ok ())))
      (fun _ p => ∃ account' : Slot → Account,
        (∀ s ∈ items, (account s).Agrees s (account' s)) ∧
        start.Since ctx.host (notes ++ items.flatMap fun s => (account' s).settled s) p)
      fun _ _ => True := by
  induction items generalizing notes with
  | nil =>
    refine .pure fun p hp => ⟨account, List.forall_mem_nil _, ?_⟩
    rwa [List.flatMap_nil, List.append_nil]
  | cons s rest ih =>
    obtain ⟨hs, hnodup⟩ := List.nodup_cons.1 hnodup
    rw [List.forall_mem_cons] at houtcomes
    rw [List.forM, houtcomes.1, Option.getD_some]
    refine (settle_since h number s (account s)).bind fun _ => ?_
    rintro p ⟨task, htask, hp⟩
    refine (ih hnodup houtcomes.2).weaken (fun _ hp => hp) ?_ (fun _ _ => id) p hp
    rintro _ q ⟨later, hagrees, hq⟩
    obtain ⟨account', hhere, hrest⟩ := Account.exists_cons task later hs
    refine ⟨account', List.forall_mem_cons.2 ⟨by rwa [hhere], fun t ht => ?_⟩, ?_⟩
    · rw [hrest t ht]
      exact hagrees t ht
    · have hnotes : (rest.flatMap fun t => (account' t).settled t) =
          rest.flatMap fun t => (later t).settled t :=
        List.flatMap_congr fun t ht => by rw [hrest t ht]
      rw [List.flatMap_cons, hhere, hnotes, ← List.append_assoc]
      exact hq

/-! ### Batches -/

variable {c : Course σ} {courses : List (Course σ)}

theorem Takes.nodup (h : Takes ctx p c) : c.batch.slots.Nodup := by
  obtain ⟨hslots, -⟩ := Prod.mk.injEq .. ▸ h.draws
  rw [← Except.ok.inj hslots]
  exact List.nodup_range.filter _

theorem Takes.since (h : Takes ctx p c) (hdecides : ctx.host.Decides)
    (harrange : ∀ items, (ctx.arrange items).Perm items) (hp : start.Since ctx.host notes p) :
    ∃ account, c.Told ctx start.graph account ∧
      start.Since ctx.host (notes ++ c.batch.notes ctx.arrange account) c.settled := by
  have hdrawn : start.Since ctx.host notes c.drawn := by
    obtain ⟨-, hdrawn⟩ := Prod.mk.injEq .. ▸ h.draws
    exact hdrawn ▸ ⟨hp.trace, hp.calls, hp.design⟩
  have hperm := harrange c.batch.slots
  obtain ⟨begun, htold, hexecuted⟩ :=
    (execute_since hdecides _ (hperm.nodup_iff.2 h.nodup)).ok hdrawn h.executes
  obtain ⟨account, hagrees, hsettled⟩ := (settleAll_since hdecides _ h.nodup fun s hs =>
    (htold s (hperm.mem_iff.2 hs)).1).ok hexecuted h.settles
  refine ⟨account, fun s hs => ?_, ?_⟩
  · rw [(hagrees s hs).outcome, (hagrees s hs).visits]
    exact htold s (hperm.mem_iff.2 hs)
  · have hsearched : ((ctx.arrange c.batch.slots).flatMap fun s => (begun s).searched s) =
        (ctx.arrange c.batch.slots).flatMap fun s => (account s).searched s :=
      List.flatMap_congr fun s hs => (hagrees s (hperm.mem_iff.1 hs)).searched.symm
    rw [List.append_assoc, hsearched] at hsettled
    exact hsettled

open Progress (At)

/-- No matcher is part of two batches. -/
theorem Courses.nodup {first : Graph} {ground : Ground} {pub : Publications}
    (h : Courses ctx p courses q) (harrange : ∀ items, (ctx.arrange items).Perm items)
    (hd : ∀ s ∈ ground.detached, pub s ≠ none) (hp : At ctx first ground pub p) :
    (courses.flatMap (·.batch.slots)).Nodup ∧
      ∀ s ∈ courses.flatMap (·.batch.slots), pub s = none := by
  induction h generalizing pub with
  | done => simp
  | @next p q c rest htakes _ ih =>
    obtain ⟨pub₁, hp₁, hgrows, hfates⟩ := htakes.fates harrange hd hp
    obtain ⟨hnodup, hunpublished⟩ := ih (fun s hs => hgrows.ne_none (hd s hs)) hp₁
    have hready := ((draw_leads c.batch.sweep c.batch.kind).ok hp htakes.draws).1
    rw [List.flatMap_cons]
    refine ⟨List.nodup_append.2 ⟨htakes.nodup, hnodup, ?_⟩, fun s hs => ?_⟩
    · rintro s hs _ ht rfl
      obtain ⟨published, hpublished, -⟩ := hfates s hs
      rw [hunpublished s ht] at hpublished
      cases hpublished
    · rcases List.mem_append.1 hs with hs | hs
      · exact (Ground.mem_ready.1 (hready ▸ hs)).1.unpublished
      · exact hgrows.eq_none (hunpublished s hs)

theorem Courses.since (h : Courses ctx p courses q) (hdecides : ctx.host.Decides)
    (harrange : ∀ items, (ctx.arrange items).Perm items)
    (hnodup : (courses.flatMap (·.batch.slots)).Nodup) (hp : start.Since ctx.host notes p) :
    ∃ account, (∀ c ∈ courses, c.Told ctx start.graph account) ∧
      start.Since ctx.host
        (notes ++ courses.flatMap (·.batch.notes ctx.arrange account)) q := by
  induction h generalizing notes with
  | done p =>
    refine ⟨fun _ => .found [] .silent, List.forall_mem_nil _, ?_⟩
    rwa [List.flatMap_nil, List.append_nil]
  | @next p q c rest htakes _ ih =>
    rw [List.flatMap_cons, List.nodup_append] at hnodup
    obtain ⟨-, hnodup, hdisjoint⟩ := hnodup
    obtain ⟨here, hhere, hsettled⟩ := htakes.since hdecides harrange hp
    obtain ⟨later, hlater, hq⟩ := ih hnodup hsettled
    classical
    let account : Slot → Account := fun s => if s ∈ c.batch.slots then here s else later s
    have haccount : ∀ s ∈ c.batch.slots, account s = here s := fun s hs => if_pos hs
    have hrest : ∀ c' ∈ rest, ∀ s ∈ c'.batch.slots, account s = later s := fun c' hc' s hs =>
      if_neg fun hs' => hdisjoint s hs' s (List.mem_flatMap.2 ⟨c', hc', hs⟩) rfl
    refine ⟨account, List.forall_mem_cons.2 ⟨fun s hs => ?_, fun c' hc' s hs => ?_⟩, ?_⟩
    · rw [haccount s hs]
      exact hhere s hs
    · rw [hrest c' hc' s hs]
      exact hlater c' hc' s hs
    · have hlists : (rest.flatMap fun c' => c'.batch.notes ctx.arrange account) =
          rest.flatMap fun c' => c'.batch.notes ctx.arrange later :=
        List.flatMap_congr fun c' hc' => Batch.notes_congr harrange (hrest c' hc')
      rw [List.flatMap_cons, Batch.notes_congr harrange haccount, hlists, ← List.append_assoc]
      exact hq

end Run

end Metamatch
