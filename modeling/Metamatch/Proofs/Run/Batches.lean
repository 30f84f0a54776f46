import Metamatch.Proofs.Determined
import Metamatch.Proofs.Run.Accounts

/-!
# Batches of determined tasks

No task of a batch reads what another one publishes. So with a host whose answers and verdicts are
always the same, each task of a batch does what it would do on its own.

* `Ground.Due`: a matcher whose references are published, with what the search for it comes to.
* `Ground.searched`: what that is for a steady host.
* `Note.Split`: notes by their calls and by the failures that no crash of an observer led to.
* `Progress.Stands`: the state of a run by its publications and such notes.
* `Run.execute_stands`, `Run.settleAll_stands`: all tasks of a batch, and their settlement.
* `Run.batch_stands`, `Run.batch_steady`: what a batch publishes and records, task by task.
-/

namespace Metamatch

variable {σ ε : Type}

/-! ## Searches in a batch -/

namespace Ground

variable {ground : Ground} {ctx : RunContext σ} {pub pub' : Publications} {s : Slot}

/-- The search for a matcher once given publications are out. -/
def search (ground : Ground) (ctx : RunContext σ) (pub : Publications) (s : Slot) :
    Task σ (List Entity) :=
  match (ground.after pub).get? s with
  | none => pure []
  | some node => Run.search ctx (ground.after pub) s node

theorem search_eq {node : Node} (h : (ground.after pub).get? s = some node) :
    ground.search ctx pub s = Run.search ctx (ground.after pub) s node := by
  rw [search, h]

/-- Publications that agree on the references of a matcher lead to one search. -/
theorem search_congr (hs : s ∉ ground.detached) (hr : ∀ d ∈ ground.refs s, pub d ≠ none)
    (h : ∀ d ∈ ground.refs s, pub' d = pub d) :
    ground.search ctx pub' s = ground.search ctx pub s := by
  unfold search
  rw [get?_after, get?_after]
  cases hold : ground.graph.get? s with
  | none => rfl
  | some old =>
    have hmissed : pub'.missed (ground.refs s) = pub.missed (ground.refs s) :=
      List.countP_congr fun d hd => by rw [h d hd]
    have hshares := shares_after hr h
    rw [refs_of_get? hold hs] at hshares
    change Run.search ctx (ground.after pub') s (old.after (ground.refs s) pub' (pub' s)) =
      Run.search ctx (ground.after pub) s (old.after (ground.refs s) pub (pub s))
    rw [search_after, search_after, hmissed, Run.scan_shares ctx hshares]

theorem finds_of_fixed {outcome : Except TaskError (List Entity)} {failures : List Failure}
    (h : (ground.search ctx pub s).Fixed outcome failures) (hs : s < ground.graph.size)
    (trace : Trace σ) :
    Run.Finds ctx (ground.after pub) s (outcome.toOption.getD []) := by
  obtain ⟨node, hnode⟩ := Graph.lt_size_iff.1 (size_after.symm ▸ hs)
  obtain ⟨world, ht⟩ := h trace
  rw [search_eq hnode] at ht
  exact ⟨node, trace, hnode, by rw [ht]⟩

theorem observers_after (empty : Bool) :
    (ground.after pub).observers s empty = ground.graph.observers s empty := by
  rw [Graph.observers_eq, Graph.observers_eq, get?_after, Option.map_map]
  rfl

end Ground

/-! ## Notes split -/

/-- The failure that goes on record for a crash. -/
def Payload.failure (verdict : String → Decision) (s : Slot) (payload : Payload) : Failure :=
  let message := (TaskError.ofPayload payload).explain.root
  ⟨s, message, verdict message⟩

/-- The failure that the crash of an observer leads to. -/
def Note.crash? (verdict : String → Decision) (note : Note) : Option Failure :=
  match note.entry with
  | .call _ _ crash? => crash?.map (Payload.failure verdict note.slot)
  | .load _ _ | .verdict _ _ => none

theorem Note.crash?_of_call? {verdict : String → Decision} {note : Note} (h : note.call? = none) :
    note.crash? verdict = none := by
  obtain ⟨slot, entry⟩ := note
  cases entry with
  | load | verdict => rfl
  | call => cases h

namespace Hearing

variable {verdict : String → Decision} {hearing : Hearing} {s : Slot}

theorem crash?_eq_nil : (hearing.verdictNotes s).filterMap (Note.crash? verdict) = [] :=
  List.filterMap_eq_nil_iff.2 fun note hnote =>
    Note.crash?_of_call? (hearing.call?_eq_none note hnote)

/-- The verdicts on crashes are those that a policy gives by the failure alone. -/
def Judged (verdict : String → Decision) (hearing : Hearing) : Prop :=
  ∀ told ∈ hearing.verdicts, told.2 = verdict (TaskError.ofPayload told.1).explain.root

theorem Judged.failures (h : hearing.Judged verdict) :
    (hearing.verdictNotes s).filterMap Note.failure? =
      (hearing.toRound.notes s).filterMap (Note.crash? verdict) := by
  have hcrashes : (hearing.toRound.notes s).filterMap (Note.crash? verdict) =
      hearing.toRound.crashes.map (Payload.failure verdict s) := by
    rw [Round.notes, List.filterMap_map, Round.crashes, List.map_filterMap]
    rfl
  rw [hcrashes, ← hearing.judged, List.map_map, verdictNotes, List.filterMap_map,
    ← List.filterMap_eq_map]
  refine List.filterMap_congr fun told htold => congrArg some ?_
  rw [h told htold]
  rfl

end Hearing

namespace Host.Judges

variable {host : Host σ} {verdict : String → Decision}

theorem decides (h : host.Judges verdict) : host.Decides :=
  fun text world => ⟨verdict text, h text world⟩

theorem decision_eq (h : host.Judges verdict) {text : String} {decision : Decision}
    (hreal : Entry.Real host (.verdict text decision)) : decision = verdict text := by
  obtain ⟨world, hworld⟩ := hreal
  exact Except.ok.inj (hworld.symm.trans (h text world))

theorem judged (h : host.Judges verdict) {hearing : Hearing} {s : Slot}
    (hreal : ∀ note ∈ hearing.verdictNotes s, note.entry.Real host) : hearing.Judged verdict :=
  fun _ htold => h.decision_eq (hreal _ (List.mem_map_of_mem htold))

end Host.Judges

/-- These calls were noted, and of the failures on record these are not due to a crash of an
observer. -/
structure Note.Split (verdict : String → Decision) (own : List Failure)
    (calls : List (Slot × Nat × List Entity)) (notes : List Note) : Prop where
  calls : notes.filterMap Note.call? = calls
  failures : (notes.filterMap Note.failure?).Perm (own ++ notes.filterMap (Note.crash? verdict))

namespace Note.Split

variable {verdict : String → Decision} {own own' : List Failure}
  {calls calls' : List (Slot × Nat × List Entity)} {notes more : List Note}

theorem append (h : Split verdict own calls notes) (h' : Split verdict own' calls' more) :
    Split verdict (own ++ own') (calls ++ calls') (notes ++ more) where
  calls := by rw [List.filterMap_append, h.calls, h'.calls]
  failures := by
    rw [List.filterMap_append, List.filterMap_append, List.append_assoc]
    refine (h.failures.append h'.failures).trans ?_
    rw [List.append_assoc]
    exact (List.perm_append_comm_assoc _ _ _).append_left own

theorem told (verdict : String → Decision) (s : Slot) (message : String) :
    Split verdict [⟨s, message, verdict message⟩] []
      [⟨s, .verdict message (verdict message)⟩] :=
  ⟨rfl, .refl _⟩

theorem of_quiet (h : ∀ note ∈ more, note.call? = none) :
    Split verdict (more.filterMap Note.failure?) [] more where
  calls := List.filterMap_eq_nil_iff.2 h
  failures := by
    have hcrashes : more.filterMap (Note.crash? verdict) = [] :=
      List.filterMap_eq_nil_iff.2 fun note hnote => crash?_of_call? (h note hnote)
    rw [hcrashes, List.append_nil]

theorem hearing {hearing : Hearing} (h : hearing.Judged verdict) (s : Slot) :
    Split verdict [] (hearing.calls.map fun call => (s, call.1, hearing.values))
      (hearing.notes s) where
  calls := by
    rw [Hearing.notes, List.filterMap_append, List.filterMap_eq_nil_iff.2 hearing.call?_eq_none,
      List.append_nil, Round.notes, List.filterMap_map, ← List.filterMap_eq_map]
    rfl
  failures := by
    rw [Hearing.notes, List.filterMap_append, List.filterMap_append, Round.failures_eq_nil,
      h.failures, Hearing.crash?_eq_nil, List.append_nil, List.nil_append]

end Note.Split

/-! ## One batch -/

section Batches

variable {ctx : RunContext σ} {start : Graph} {ground : Ground} {pub pub' : Publications}
  {base : Progress σ} {s : Slot} {values : List Entity} {number : Nat} {own : List Failure}
  {calls : List (Slot × Nat × List Entity)} {verdict : String → Decision}

/-- A run that stands at given publications. Since a state `base` it has made these calls, and
recorded these failures apart from those for crashes of observers. -/
structure Progress.Stands (ctx : RunContext σ) (start : Graph) (ground : Ground)
    (base : Progress σ) (verdict : String → Decision) (pub : Publications) (own : List Failure)
    (calls : List (Slot × Nat × List Entity)) (p : Progress σ) : Prop where
  standing : Progress.At ctx start ground pub p
  noted : ∃ notes, base.Since ctx.host notes p ∧ Note.Split verdict own calls notes

open Progress (At Stands)

namespace Run

theorem consult_stands (hverdict : ctx.host.Judges verdict) (s : Slot) (message : String) :
    Leads (Stands ctx start ground base verdict pub own calls) (consult ctx s message)
      (fun _ => Stands ctx start ground base verdict pub
        (own ++ [⟨s, message, verdict message⟩]) calls)
      fun _ _ => False := by
  rintro p ⟨hat, notes, hsince, hsplit⟩
  refine ((consult_leads s message).and (consult_since hverdict.decides s message)).weaken
    (fun _ => id) ?_ (fun _ _ h => h.2) p ⟨hat, hsince⟩
  rintro _ q ⟨hat, decision, hq⟩
  obtain rfl : decision = verdict message :=
    hverdict.decision_eq (hq.trace.noted.real _ (by simp))
  refine ⟨hat, _, hq, ?_⟩
  have hmore := hsplit.append (.told verdict s message)
  rwa [List.append_nil] at hmore

theorem issue_stands {f : SessionError → ε} {f' : Payload → ε} (hverdict : ctx.host.Judges verdict)
    (hs : ground.Ready pub s) (hf : s ∉ ground.detached → Finds ctx (ground.after pub) s values) :
    Leads (Stands ctx start ground base verdict pub own calls)
      (do
        let crashes ← adapt f (publish ctx s values number)
        adapt f' (reportCrashes ctx s crashes))
      (fun _ => Stands ctx start ground base verdict (pub.add s values number) own
        (calls ++ ground.graph.callsOf (s, values)))
      fun _ _ => False := by
  rintro p ⟨hat, notes, hsince, hsplit⟩
  refine ((adapt_leads (E := fun _ _ => False ∧ _)
    ((publish_leads hs hf).and (publish_since s values number)) fun _ _ => And.left).bind
      fun crashes => ?_) p ⟨hat, hsince⟩
  rintro q ⟨hat, round, hnumbers, rfl, hq⟩
  refine (adapt_leads ((reportCrashes_leads s _).and (reportCrashes_since hverdict.decides s _))
    fun _ _ => And.right).weaken (fun _ => id) ?_ (fun _ _ => id) q ⟨hat, hq⟩
  rintro _ r ⟨hat', verdicts, hverdicts, hr⟩
  set hearing : Hearing := ⟨⟨values, round⟩, verdicts, hverdicts⟩
  have hcalls : hearing.calls.map (fun call => (s, call.1, hearing.values)) =
      ground.graph.callsOf (s, values) := by
    rw [hat.graph, Ground.observers_after] at hnumbers
    rw [Graph.callsOf, ← hnumbers, List.map_map]
    rfl
  rw [List.append_assoc] at hr
  have hreal : ∀ note ∈ hearing.verdictNotes s, note.entry.Real ctx.host := fun note hnote =>
    hr.trace.noted.real _
      (List.mem_map_of_mem (List.mem_append_right _ (List.mem_append_right _ hnote)))
  have hmore := hsplit.append (.hearing (hverdict.judged hreal) s)
  rw [List.append_nil, hcalls] at hmore
  exact ⟨hat', _, hr, hmore⟩

end Run

/-! ### Tasks and their settlement -/

/-- What the search for a matcher comes to, with the failures that it records. -/
structure Searched where
  outcome : Except TaskError (List Entity)
  failures : List Failure

namespace Searched

/-- What the task publishes, nothing if the search failed. -/
def published? (number : Nat) (searched : Searched) : Option Published :=
  searched.outcome.toOption.map (⟨·, number⟩)

/-- What is published once the task is settled. -/
def published (number : Nat) (searched : Searched) : Published :=
  ⟨searched.outcome.toOption.getD [], number⟩

theorem published_of_ne_none {number : Nat} {searched : Searched}
    (h : searched.published? number ≠ none) :
    searched.published? number = some (searched.published number) := by
  rw [published?, published] at *
  cases ho : searched.outcome with
  | error e => simp [ho, Except.toOption] at h
  | ok values => rfl

/-- The failure of the task itself. -/
def refusal (verdict : String → Decision) (s : Slot) (searched : Searched) : List Failure :=
  match searched.outcome with
  | .ok _ => []
  | .error e => [⟨s, e.explain.root, verdict e.explain.root⟩]

/-- The calls that the task leads to. -/
def called (g : Graph) (s : Slot) (searched : Searched) : List (Slot × Nat × List Entity) :=
  searched.outcome.toOption.elim [] fun values => g.callsOf (s, values)

/-- The calls that its settlement leads to. -/
def recalled (g : Graph) (s : Slot) (searched : Searched) : List (Slot × Nat × List Entity) :=
  match searched.outcome with
  | .ok _ => []
  | .error _ => g.callsOf (s, [])

end Searched

namespace Publications

variable {items rest : List Slot} {f : Slot → Option Published}

/-- Other publications for the slots of a list. -/
def put (pub : Publications) (items : List Slot) (f : Slot → Option Published) : Publications :=
  fun t => if t ∈ items then f t else pub t

theorem put_self (h : f s = pub s) : pub.put [s] f = pub := by
  funext t
  by_cases ht : t = s
  · simp [put, ht, h]
  · simp [put, ht]

theorem put_add {published : Published} (h : f s = some published) :
    pub.put [s] f = pub.add s published.values published.sweep := by
  funext t
  by_cases ht : t = s
  · simp [put, add, ht, h]
  · simp [put, add, ht]

theorem put_nil : pub.put [] f = pub := by
  funext t
  simp [put]

theorem put_cons (hs : s ∉ rest) : (pub.put [s] f).put rest f = pub.put (s :: rest) f := by
  funext t
  by_cases ht : t = s
  · simp [put, ht, hs]
  · simp [put, ht]

theorem extends_put (h : ∀ s ∈ items, pub s ≠ none → f s = pub s) :
    pub.Extends (pub.put items f) := by
  intro s hs
  by_cases hi : s ∈ items
  · simp [put, hi, h s hi hs]
  · simp [put, hi]

end Publications

/-- A matcher whose references are published, with what the search for it comes to. -/
structure Ground.Due (ground : Ground) (ctx : RunContext σ) (found : Slot → Searched)
    (pub : Publications) (s : Slot) : Prop where
  inRange : s < ground.graph.size
  undetached : s ∉ ground.detached
  references : ∀ d ∈ ground.refs s, pub d ≠ none
  search : (ground.search ctx pub s).Fixed (found s).outcome (found s).failures

variable {found : Slot → Searched} {items : List Slot}

theorem Ground.Due.of_extends (h : ground.Due ctx found pub s) (hgrows : pub.Extends pub') :
    ground.Due ctx found pub' s where
  inRange := h.inRange
  undetached := h.undetached
  references d hd := hgrows.ne_none (h.references d hd)
  search := by
    rw [Ground.search_congr h.undetached h.references fun d hd => hgrows d (h.references d hd)]
    exact h.search

theorem Ground.Due.contained (h : ground.Due ctx found pub s) {e : TaskError}
    (houtcome : (found s).outcome = .error e) (trace : Trace σ) : e.Contained := by
  obtain ⟨node, hnode⟩ := Graph.lt_size_iff.1 (ground.size_after.symm ▸ h.inRange)
  have hfixed := h.search
  rw [Ground.search_eq hnode, houtcome] at hfixed
  obtain ⟨world, ht⟩ := hfixed trace
  have hcontained := Run.search_contained ctx (ground.after pub) s node trace trivial
  rwa [ht] at hcontained

theorem Ground.Due.ready (h : ground.Due ctx found pub s) (hs : pub s = none) :
    ground.Ready pub s := ⟨h.inRange, hs, h.references⟩

/-- What the search for a matcher comes to once given publications are out. -/
def Ground.searched (ground : Ground) (ctx : RunContext σ) (world : σ) (pub : Publications)
    (s : Slot) : Searched :=
  let outcome : Except TaskError (List Entity) × Trace σ := ground.search ctx pub s ⟨world, []⟩
  ⟨outcome.1, outcome.2.failures⟩

/-- With a steady host every search for a matcher comes to the same, with the same failures. -/
theorem Ground.searched_fixed {verdict : String → Decision} {world : σ} (hsteady : ctx.host.Steady)
    (hverdict : ctx.host.Judges verdict) (pub : Publications) (s : Slot) :
    (ground.search ctx pub s).Fixed (ground.searched ctx world pub s).outcome
      (ground.searched ctx world pub s).failures := by
  have hdetermined : (ground.search ctx pub s).Determined := by
    unfold search
    split
    · exact .pure []
    · exact hsteady.search_determined hverdict _ _
  obtain ⟨outcome, failures, h⟩ := hdetermined
  obtain ⟨world', ht⟩ := h ⟨world, []⟩
  have hsearched : ground.searched ctx world pub s = ⟨outcome, failures⟩ := by
    simp only [searched, ht, List.nil_append]
  rw [hsearched]
  exact h

theorem Ground.Ready.due {verdict : String → Decision} (h : ground.Ready pub s)
    (hsteady : ctx.host.Steady) (hverdict : ctx.host.Judges verdict) (hs : s ∉ ground.detached)
    (world : σ) : ground.Due ctx (ground.searched ctx world pub) pub s :=
  ⟨h.inRange, hs, h.references, searched_fixed hsteady hverdict pub s⟩

namespace Run

theorem search_stands (hverdict : ctx.host.Judges verdict) (h : ground.Due ctx found pub s)
    {node : Node} (hnode : (ground.after pub).get? s = some node) :
    Leads (Stands ctx start ground base verdict pub own calls)
      (ofTask (search ctx (ground.after pub) s node))
      (fun values p => (found s).outcome = .ok values ∧
        Stands ctx start ground base verdict pub (own ++ (found s).failures) calls p)
      fun e p => (found s).outcome = .error e ∧
        Stands ctx start ground base verdict pub (own ++ (found s).failures) calls p := by
  rintro p ⟨hat, notes, hsince, hsplit⟩
  have hfixed := h.search
  rw [Ground.search_eq hnode] at hfixed
  obtain ⟨world, ht⟩ := hfixed p.toTrace
  have hrun : ofTask (search ctx (ground.after pub) s node) p =
      ((found s).outcome, { p with world, failures := p.failures ++ (found s).failures }) := by
    simp only [ofTask, ExceptT.run, StateT.run, Id.run, ht]
  -- what the search notes is known from the failures that it leaves behind
  have hstands : ∀ (visits : List Visit) (q : Progress σ),
      q.failures = p.failures ++ (found s).failures → At ctx start ground pub q →
      base.Since ctx.host (notes ++ visits.flatMap (Visit.notes s)) q →
      Stands ctx start ground base verdict pub (own ++ (found s).failures) calls q := by
    intro visits q hfailures hat hq
    have hvisits : (visits.flatMap (Visit.notes s)).filterMap Note.failure? =
        (found s).failures := by
      have hall := hq.trace.failures
      rw [hfailures, hsince.trace.failures, List.filterMap_append, ← List.append_assoc,
        List.append_cancel_left_eq] at hall
      exact hall.symm
    have hquiet : Note.Split verdict _ [] (visits.flatMap (Visit.notes s)) :=
      .of_quiet Visit.call?_eq_none
    have hmore := hsplit.append hquiet
    rw [hvisits, List.append_nil] at hmore
    exact ⟨hat, _, hq, hmore⟩
  have hends := (quiet_leads (ofTask (search ctx (ground.after pub) s node))
    fun _ => ⟨rfl, rfl⟩).and (search_since hverdict.decides) p ⟨hat, hsince⟩
  rw [hrun] at hends ⊢
  cases houtcome : (found s).outcome with
  | error e =>
    rw [houtcome] at hends
    obtain ⟨hat, visits, -, hq⟩ := hends
    exact ⟨rfl, hstands visits _ rfl hat hq⟩
  | ok values =>
    rw [houtcome] at hends
    obtain ⟨hat, visits, -, hq⟩ := hends
    exact ⟨rfl, hstands visits _ rfl hat hq⟩

theorem evaluate_stands (hverdict : ctx.host.Judges verdict) (h : ground.Due ctx found pub s)
    (hs : pub s = none) :
    Leads (Stands ctx start ground base verdict pub own calls) (evaluate ctx number s)
      (fun _ p => ∃ values, (found s).outcome = .ok values ∧
        Stands ctx start ground base verdict (pub.add s values number) (own ++ (found s).failures)
          (calls ++ ground.graph.callsOf (s, values)) p)
      fun e p => (found s).outcome = .error e ∧
        Stands ctx start ground base verdict pub (own ++ (found s).failures) calls p := by
  unfold evaluate
  refine graph_leads.bind fun g => ?_
  rintro p ⟨hg, hp⟩
  obtain ⟨node, hnode⟩ := Graph.lt_size_iff.1 (ground.size_after.symm ▸ h.inRange)
  rw [hg, hp.standing.graph, hnode]
  refine ((search_stands hverdict h hnode).bind fun values => ?_) p hp
  rintro p ⟨hvalues, hp⟩
  have hfinds : Finds ctx (ground.after pub) s values := by
    have := Ground.finds_of_fixed h.search h.inRange p.toTrace
    rwa [hvalues] at this
  exact (issue_stands hverdict (h.ready hs) fun _ => hfinds).weaken (fun _ hq => hq)
    (fun _ q hq => ⟨values, hvalues, hq⟩) (fun _ _ => False.elim) p hp

/-- A task publishes what its search finds. -/
theorem task_stands (hverdict : ctx.host.Judges verdict) (h : ground.Due ctx found pub s)
    (hs : pub s = none) :
    Leads (Stands ctx start ground base verdict pub own calls)
      (contain (evaluate ctx number s) : Run σ ε _)
      (fun outcome p => outcome = (found s).outcome.map (fun _ => ()) ∧
        Stands ctx start ground base verdict (pub.put [s] fun t => (found t).published? number)
          (own ++ (found s).failures) (calls ++ (found s).called ground.graph s) p)
      fun _ _ => False := by
  refine (contain_leads (evaluate_stands hverdict h hs)).weaken (fun _ hp => hp)
    (fun outcome p hp => ?_) fun _ _ => id
  cases outcome with
  | ok _ =>
    obtain ⟨values, hvalues, hp⟩ := hp
    have hpublished : (found s).published? number = some ⟨values, number⟩ := by
      rw [Searched.published?, hvalues]
      rfl
    rw [Publications.put_add hpublished, Searched.called, hvalues]
    exact ⟨rfl, hp⟩
  | error e =>
    obtain ⟨he, hp⟩ := hp
    have hpublished : (found s).published? number = pub s := by
      rw [Searched.published?, he, hs]
      rfl
    have hcalled : (found s).called ground.graph s = [] := by
      rw [Searched.called, he]
      rfl
    rw [Publications.put_self hpublished, hcalled, List.append_nil, he]
    exact ⟨rfl, hp⟩

/-- **The tasks of a batch publish what their searches find**, in whatever order. -/
theorem execute_stands (hverdict : ctx.host.Judges verdict) (hnodup : items.Nodup)
    (h : ∀ s ∈ items, ground.Due ctx found pub s ∧ pub s = none) :
    Leads (Stands ctx start ground base verdict pub own calls)
      (execute ctx number items : Run σ ε _)
      (fun outcomes p =>
        outcomes = items.map (fun s => (s, (found s).outcome.map fun _ => ())) ∧
        Stands ctx start ground base verdict (pub.put items fun t => (found t).published? number)
          (own ++ items.flatMap fun s => (found s).failures)
          (calls ++ items.flatMap fun s => (found s).called ground.graph s) p)
      fun _ _ => False := by
  induction items generalizing pub own calls with
  | nil => exact .pure fun p hp => ⟨rfl, by simpa [Publications.put_nil] using hp⟩
  | cons s rest ih =>
    obtain ⟨hs, hnodup⟩ := List.nodup_cons.1 hnodup
    obtain ⟨hdue, hpub⟩ := h s List.mem_cons_self
    unfold execute
    refine (task_stands hverdict hdue hpub).bind fun outcome => ?_
    rintro p ⟨houtcome, hp⟩
    set pub₁ := pub.put [s] fun t => (found t).published? number with hpub₁
    have hgrows : pub.Extends pub₁ := by
      refine Publications.extends_put fun t ht hne => absurd ?_ hne
      rw [List.mem_singleton.1 ht, hpub]
    have hrest : ∀ t ∈ rest, ground.Due ctx found pub₁ t ∧ pub₁ t = none := by
      intro t ht
      obtain ⟨hdue, hpub⟩ := h t (List.mem_cons_of_mem s ht)
      have hts : t ∉ [s] := fun hmem => hs (List.mem_singleton.1 hmem ▸ ht)
      exact ⟨hdue.of_extends hgrows, by rw [hpub₁, Publications.put, if_neg hts, hpub]⟩
    refine ((ih hnodup hrest).bind fun outcomes => .pure ?_) p hp
    rintro q ⟨houtcomes, hq⟩
    rw [hpub₁, Publications.put_cons hs, List.append_assoc, List.append_assoc] at hq
    rw [houtcome, houtcomes]
    exact ⟨rfl, hq⟩

theorem recover_stands (hverdict : ctx.host.Judges verdict) (h : ground.Due ctx found pub s)
    (hs : pub s = none) {e : TaskError} (houtcome : (found s).outcome = .error e) :
    Leads (Stands ctx start ground base verdict pub own calls) (recover ctx number s e)
      (fun _ => Stands ctx start ground base verdict (pub.add s [] number)
        (own ++ [⟨s, e.explain.root, verdict e.explain.root⟩])
        (calls ++ ground.graph.callsOf (s, [])))
      fun _ _ => False := by
  intro p hp
  have hfinds : Finds ctx (ground.after pub) s [] := by
    have := Ground.finds_of_fixed h.search h.inRange p.toTrace
    rwa [houtcome] at this
  obtain ⟨node, hnode⟩ := Graph.lt_size_iff.1 h.inRange
  have hready : ((ground.after pub).get? s).any Node.isReady = true := by
    rw [Ground.get?_after, hnode]
    exact Ground.isReady_after.2 ⟨hs, h.references⟩
  unfold recover
  refine ((adapt_leads (consult_stands hverdict s _) fun _ _ => id).bind fun _ => ?_) p hp
  refine graph_leads.bind fun g => ?_
  rintro q ⟨hg, hq⟩
  rw [hg, hq.standing.graph, if_pos hready]
  exact issue_stands hverdict (h.ready hs) (fun _ => hfinds) q hq

theorem settle_stands (hverdict : ctx.host.Judges verdict) (h : ground.Due ctx found pub s)
    (hs : pub s = (found s).published? number) :
    Leads (Stands ctx start ground base verdict pub own calls)
      (settle ctx number s ((found s).outcome.map fun _ => ()))
      (fun _ => Stands ctx start ground base verdict
        (pub.put [s] fun t => (found t).published number)
        (own ++ (found s).refusal verdict s) (calls ++ (found s).recalled ground.graph s))
      fun _ _ => False := by
  intro p hp
  cases houtcome : (found s).outcome with
  | ok values =>
    have hpublished : some ((found s).published number) = pub s := by
      rw [hs]
      refine (Searched.published_of_ne_none ?_).symm
      simp [Searched.published?, houtcome, Except.toOption]
    rw [Publications.put_self hpublished, Searched.refusal, Searched.recalled, houtcome]
    exact (List.append_nil own).symm ▸ (List.append_nil calls).symm ▸ hp
  | error e =>
    have hpub : pub s = none := by
      rw [hs, Searched.published?, houtcome]
      rfl
    have hpublished : (found s).published number = ⟨[], number⟩ := by
      rw [Searched.published, houtcome]
      rfl
    have hcontained := h.contained houtcome p.toTrace
    rw [Publications.put_add rfl, hpublished, Searched.refusal, Searched.recalled, houtcome]
    cases e with
    | session e => exact absurd rfl (hcontained e)
    | lookup e => exact recover_stands hverdict h hpub houtcome p hp
    | crashed message => exact recover_stands hverdict h hpub houtcome p hp

/-- **Once a batch is settled, all its matchers are published.** -/
theorem settleAll_stands (hverdict : ctx.host.Judges verdict) (hnodup : items.Nodup)
    {outcomes : List (Slot × Except TaskError Unit)}
    (houtcomes : ∀ s ∈ items, outcomes.lookup s = some ((found s).outcome.map fun _ => ()))
    (h : ∀ s ∈ items, ground.Due ctx found pub s ∧ pub s = (found s).published? number) :
    Leads (Stands ctx start ground base verdict pub own calls)
      (items.forM fun s => settle ctx number s ((outcomes.lookup s).getD (.ok ())))
      (fun _ => Stands ctx start ground base verdict
        (pub.put items fun t => (found t).published number)
        (own ++ items.flatMap fun s => (found s).refusal verdict s)
        (calls ++ items.flatMap fun s => (found s).recalled ground.graph s))
      fun _ _ => False := by
  induction items generalizing pub own calls with
  | nil => exact .pure fun p hp => by simpa [Publications.put_nil] using hp
  | cons s rest ih =>
    obtain ⟨hs, hnodup⟩ := List.nodup_cons.1 hnodup
    obtain ⟨hdue, hpub⟩ := h s List.mem_cons_self
    rw [List.forM, houtcomes s List.mem_cons_self]
    refine (settle_stands hverdict hdue hpub).bind fun _ => ?_
    set pub₁ := pub.put [s] fun t => (found t).published number with hpub₁
    have hgrows : pub.Extends pub₁ := by
      refine Publications.extends_put fun t ht hne => ?_
      rw [List.mem_singleton.1 ht, hpub] at hne ⊢
      exact (Searched.published_of_ne_none hne).symm
    have hrest : ∀ t ∈ rest, ground.Due ctx found pub₁ t ∧
        pub₁ t = (found t).published? number := by
      intro t ht
      obtain ⟨hdue, hpub⟩ := h t (List.mem_cons_of_mem s ht)
      have hts : t ∉ [s] := fun hmem => hs (List.mem_singleton.1 hmem ▸ ht)
      exact ⟨hdue.of_extends hgrows, by rw [hpub₁, Publications.put, if_neg hts, hpub]⟩
    refine (ih hnodup (fun t ht => houtcomes t (List.mem_cons_of_mem s ht)) hrest).weaken
      (fun _ hq => hq) (fun _ q hq => ?_) fun _ _ => id
    rw [hpub₁, Publications.put_cons hs, List.append_assoc, List.append_assoc] at hq
    exact hq

/-- **A batch publishes what its searches find**, whatever the order of its tasks, and none of its
failures ends the run. -/
theorem batch_stands (harrange : ∀ items, (ctx.arrange items).Perm items)
    (hverdict : ctx.host.Judges verdict) {kind : Kind}
    (hitems : items = (ground.after pub).ready ctx.config.pruneUnconsumed kind)
    (h : ∀ s ∈ items, ground.Due ctx found pub s) :
    Leads (Stands ctx start ground base verdict pub own calls) (batch ctx number kind)
      (fun count p => count = items.length ∧
        Stands ctx start ground base verdict (pub.put items fun t => (found t).published number)
          (own ++ (ctx.arrange items).flatMap (fun s => (found s).failures) ++
            items.flatMap fun s => (found s).refusal verdict s)
          (calls ++ (ctx.arrange items).flatMap (fun s => (found s).called ground.graph s) ++
            items.flatMap fun s => (found s).recalled ground.graph s) p)
      fun _ _ => False := by
  have hdraw : Leads (Stands ctx start ground base verdict pub own calls) (draw ctx number kind)
      (fun ready p => ready = items ∧ Stands ctx start ground base verdict pub own calls p)
      fun _ _ => False := by
    rintro p ⟨hat, notes, hsince, hsplit⟩
    obtain ⟨hready, hat⟩ := draw_leads number kind p hat
    exact ⟨hready.trans hitems.symm, hat, notes, ⟨hsince.trace, hsince.calls, hsince.design⟩,
      hsplit⟩
  unfold batch
  refine hdraw.bind fun ready p ⟨hready, hp⟩ => ?_
  rw [hready]
  have hperm := harrange items
  have hnodup : items.Nodup := hitems ▸ Ground.nodup_ready
  have hpub : ∀ s ∈ items, pub s = none :=
    fun s hs => (Ground.mem_ready.1 (hitems ▸ hs)).1.unpublished
  refine ((execute_stands hverdict (hperm.nodup_iff.2 hnodup) fun s hs =>
    ⟨h s (hperm.mem_iff.1 hs), hpub s (hperm.mem_iff.1 hs)⟩).bind
      fun outcomes q ⟨houtcomes, hq⟩ => ?_) p hp
  set pub₁ := pub.put (ctx.arrange items) fun t => (found t).published? number with hpub₁
  have hgrows : pub.Extends pub₁ :=
    Publications.extends_put fun t ht hne => absurd (hpub t (hperm.mem_iff.1 ht)) hne
  have hsettled : pub₁.put items (fun t => (found t).published number) =
      pub.put items fun t => (found t).published number := by
    funext t
    by_cases ht : t ∈ items
    · simp [Publications.put, ht]
    · simp [Publications.put, ht, hpub₁, hperm.mem_iff]
  have hlookup : ∀ s ∈ items,
      outcomes.lookup s = some ((found s).outcome.map fun _ => ()) := by
    intro s hs
    rw [houtcomes]
    exact List.lookup_graph _ (hperm.mem_iff.2 hs)
  have hdue : ∀ s ∈ items, ground.Due ctx found pub₁ s ∧ pub₁ s = (found s).published? number :=
    fun s hs => ⟨(h s hs).of_extends hgrows, if_pos (hperm.mem_iff.2 hs)⟩
  refine ((settleAll_stands hverdict hnodup hlookup hdue).bind
    fun _ => .pure fun r hr => ⟨rfl, ?_⟩) q hq
  rwa [hsettled] at hr

/-- **With a steady host every batch does so**, once earlier values are published. -/
theorem batch_steady (harrange : ∀ items, (ctx.arrange items).Perm items)
    (hsteady : ctx.host.Steady) (hverdict : ctx.host.Judges verdict) {kind : Kind}
    (hitems : items = (ground.after pub).ready ctx.config.pruneUnconsumed kind)
    (hd : ∀ s ∈ ground.detached, pub s ≠ none) (world : σ) :
    Leads (Stands ctx start ground base verdict pub own calls) (batch ctx number kind)
      (fun count p => count = items.length ∧
        Stands ctx start ground base verdict
          (pub.put items fun s => (ground.searched ctx world pub s).published number)
          (own ++ (ctx.arrange items).flatMap
              (fun s => (ground.searched ctx world pub s).failures) ++
            items.flatMap fun s => (ground.searched ctx world pub s).refusal verdict s)
          (calls ++ (ctx.arrange items).flatMap
              (fun s => (ground.searched ctx world pub s).called ground.graph s) ++
            items.flatMap fun s => (ground.searched ctx world pub s).recalled ground.graph s) p)
      fun _ _ => False := by
  refine batch_stands harrange hverdict hitems fun s hs => ?_
  have hready := (Ground.mem_ready.1 (hitems ▸ hs)).1
  exact hready.due hsteady hverdict (fun hmem => hd s hmem hready.unpublished) world

end Run

theorem Ground.put_ready {prune : Bool} {kind : Kind} {f : Slot → Option Published}
    (hitems : items = (ground.after pub).ready prune kind) : pub.Extends (pub.put items f) :=
  Publications.extends_put fun _ hs hne =>
    absurd (mem_ready.1 (hitems ▸ hs)).1.unpublished hne

end Batches

end Metamatch
