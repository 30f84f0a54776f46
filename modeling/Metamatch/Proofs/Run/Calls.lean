import Metamatch.Proofs.Graph.Observers
import Metamatch.Proofs.Run.Finish
import Metamatch.Proofs.Run.Invariant

/-!
# Calls of observers

Every publication calls the observers of its slot, and nothing else calls any. So the calls of a
run are known from its steps, and which they are, apart from the order, from its last graph.

* `Host.Logs`: a host that keeps a log of the calls.
* `Session.log_execute`: the log says at the end of a run what is on record.
* `Step.notices`: the calls that a step leads to.
* `Session.notices_execute`: they are what is on record at the end of a run.
* `Recorded.map_call_slot_perm`: the calls for one slot are known from the last graph.
-/

namespace Metamatch

variable {σ ε α : Type}

/-- The slot, the observer and the values of a call. -/
def Notice.call (notice : Notice) : Slot × Nat × List Entity :=
  (notice.slot, notice.observer, notice.values)

/-! ## The log of a run -/

/-- The state of a host holds a log of the calls of observers, which nothing else changes. -/
structure Host.Logs (host : Host σ) (log : σ → List (Nat × List Entity)) : Prop where
  preserves : ∀ calls, host.Preserves (log · = calls)
  observe : ∀ number values world,
    log (host.observe number values world : Option Payload × σ).2 = log world ++ [(number, values)]

/-- The log goes on from `before` with the calls on record. -/
def Progress.Logged (log : σ → List (Nat × List Entity)) (before : List (Nat × List Entity))
    (p : Progress σ) : Prop :=
  log p.world = before ++ p.notices.reverse.map (·.call.2)

namespace Run

open Progress (Logged)

variable {ctx : RunContext σ} {log : σ → List (Nat × List Entity)}
  {before : List (Nat × List Entity)}

theorem logged_quiet {run : Run σ ε α}
    (h : ∀ p, (run p : Except ε α × Progress σ).2.notices = p.notices ∧
      log (run p : Except ε α × Progress σ).2.world = log p.world) :
    Keeps (Logged log before) run := by
  refine Keeps.of_state fun p hp => ?_
  rw [Logged, (h p).1, (h p).2]
  exact hp

theorem logged_ask {question : ExceptT ε (StateM σ) α}
    (h : ∀ calls, Keeps (log · = calls) question) :
    Keeps (Logged log before) (ask question : Run σ ε α) :=
  logged_quiet fun p =>
    ⟨rfl, (h (log p.world)).state (t := p.world) rfl⟩

theorem logged_change (change : Change) (f : Graph → Except ε Graph) :
    Keeps (Logged log before) (Run.change change f : Run σ ε Unit) :=
  change_keeps (fun _ hp => hp) fun _ _ hp _ => hp

theorem observe_logged (h : ctx.host.Logs log) (slot : Slot) (values : List Entity)
    (number : Nat) :
    Keeps (Logged log before) (observe ctx slot values number : Run σ ε (Option Payload)) := by
  intro p hp
  change log (ctx.host.observe number values p.world : Option Payload × σ).2 = _
  rw [h.observe, hp, List.reverse_cons, List.map_append, List.append_assoc]
  rfl

theorem logged_invariant (h : ctx.host.Logs log) (last : Option MatchResult) :
    Invariant ctx last (fun _ _ => True) (Logged log before) := by
  refine .of_keeps ?search ?gather ?reports ?consult ?draw ?detach ?publish
  case search =>
    refine fun g slot node => logged_quiet fun p => ⟨rfl, ?_⟩
    exact ((h.preserves (log p.world)).search slot node).state (t := p.toTrace) rfl
  case gather =>
    exact fun earlier g => logged_ask fun calls => (h.preserves calls).gather earlier g g.slots
  case reports =>
    exact fun prune nodes => logged_ask fun calls => (h.preserves calls).reports prune 0 nodes
  case consult =>
    refine fun slot message => logged_quiet fun p => ⟨rfl, ?_⟩
    have hjudge := (h.preserves (log p.world)).judge message
    exact (Task.consult_keeps hjudge slot).state (t := p.toTrace) rfl
  case draw => exact fun _ _ => logged_quiet fun _ => ⟨rfl, rfl⟩
  case detach => exact fun _ => logged_change _ _
  case publish =>
    exact fun slot values _ => publish_keeps (logged_change _ _) (observe_logged h slot values)

end Run

/-- **The log of a host holds the calls on record**, at the end of every run. -/
theorem Session.log_execute {session : Session} {arrange : List Slot → List Slot}
    {host : Host σ} {log : σ → List (Nat × List Entity)} (h : host.Logs log)
    (lists : List (List String)) (world : σ) :
    log (session.execute arrange lists host world).2.world =
      log world ++ (session.execute arrange lists host world).2.notices.reverse.map (·.call.2) :=
  session.execute_keeps (Run.logged_invariant h session.last) (List.append_nil _).symm

/-! ## Calls by the steps -/

/-- The calls that the publication of a slot with given values leads to in a graph. -/
def Graph.notices (g : Graph) (slot : Slot) (values : List Entity) : List Notice :=
  (g.observers slot values.isEmpty).map (⟨slot, ·, values, g⟩)

/-- The calls of observers that a step leads to. -/
def Step.notices (step : Step) : List Notice :=
  match step.change with
  | .detach _ => []
  | .publish slot values sweep =>
    (step.before.publish slot values sweep).toOption.elim [] (·.notices slot values)

theorem Step.notices_of_publish {before g : Graph} {slot : Slot} {values : List Entity}
    {sweep : Nat} (h : before.publish slot values sweep = .ok g) :
    Step.notices ⟨before, .publish slot values sweep⟩ = g.notices slot values := by
  simp only [notices, h, Except.toOption, Option.elim_some]

/-- The calls on record are those of the steps. -/
def Progress.Noted (p : Progress σ) : Prop :=
  p.notices.reverse = p.steps.reverse.flatMap Step.notices

namespace Run

open Progress (Noted)

variable {ctx : RunContext σ}

theorem noted_quiet {run : Run σ ε α}
    (h : ∀ p, (run p : Except ε α × Progress σ).2.notices = p.notices ∧
      (run p : Except ε α × Progress σ).2.steps = p.steps) :
    Keeps Noted run := by
  refine Keeps.of_state fun p hp => ?_
  rw [Noted, (h p).1, (h p).2]
  exact hp

theorem callObservers_noted (slot : Slot) (values : List Entity) (numbers : List Nat)
    (g : Graph) (steps : List Step) (noted : List Notice) :
    Leads (fun p => p.graph = g ∧ p.steps = steps ∧ p.notices.reverse = noted)
      (callObservers ctx slot values numbers : Run σ ε (List Payload))
      (fun _ p => p.graph = g ∧ p.steps = steps ∧
        p.notices.reverse = noted ++ numbers.map (⟨slot, ·, values, g⟩))
      fun _ _ => False := by
  induction numbers generalizing noted with
  | nil => exact .pure fun p hp => by simpa using hp
  | cons number rest ih =>
    have hcall : Leads (fun p => p.graph = g ∧ p.steps = steps ∧ p.notices.reverse = noted)
        (observe ctx slot values number : Run σ ε (Option Payload))
        (fun _ p => p.graph = g ∧ p.steps = steps ∧
          p.notices.reverse = noted ++ [⟨slot, number, values, g⟩])
        fun _ _ => False := by
      rintro p ⟨rfl, rfl, rfl⟩
      exact ⟨rfl, rfl, List.reverse_cons⟩
    unfold callObservers
    refine hcall.bind fun crash => (ih _).bind fun _ => .pure fun p hp => ?_
    simpa using hp

theorem publish_noted (slot : Slot) (values : List Entity) (sweep : Nat) :
    Keeps Noted (publish ctx slot values sweep) := by
  intro p hp
  unfold publish
  rw [bind_apply, change]
  cases hpublish : p.graph.publish slot values sweep with
  | error e =>
    have hstep : Step.notices ⟨p.graph, .publish slot values sweep⟩ = [] := by
      simp only [Step.notices, hpublish, Except.toOption, Option.elim_none]
    dsimp only [Ends]
    rw [Noted, List.reverse_cons, List.flatMap_append, List.flatMap_singleton, hstep,
      List.append_nil]
    exact hp
  | ok g =>
    refine ((callObservers_noted slot values (g.observers slot values.isEmpty) g
      (⟨p.graph, .publish slot values sweep⟩ :: p.steps) p.notices.reverse).weaken
      (fun _ hq => hq) ?_ fun _ _ => False.elim) _ ⟨rfl, rfl, rfl⟩
    rintro - q ⟨-, hsteps, hnotices⟩
    rw [Noted, hnotices, hsteps, List.reverse_cons, List.flatMap_append, List.flatMap_singleton,
      Step.notices_of_publish hpublish, hp]
    rfl

theorem detach_noted (slot : Slot) : Keeps Noted (detach slot : Run σ Payload Unit) := by
  have hnoted : ∀ (p : Progress σ) graph, p.Noted →
      Noted { p with graph, steps := ⟨p.graph, .detach slot⟩ :: p.steps } := by
    intro p graph hp
    rw [Noted, List.reverse_cons, List.flatMap_append, List.flatMap_singleton]
    exact hp.trans (List.append_nil _).symm
  exact detach_keeps (fun p => hnoted p p.graph) fun p => hnoted p _

theorem noted_invariant (ctx : RunContext σ) (last : Option MatchResult) :
    Invariant ctx last (fun _ _ => True) Noted := by
  refine .of_keeps (fun _ _ _ => ?_) (fun _ _ => ?_) (fun _ _ => ?_) (fun _ _ => ?_)
    (fun _ _ => ?_) detach_noted publish_noted
  all_goals exact noted_quiet fun _ => ⟨rfl, rfl⟩

end Run

/-- **The calls on record are those of the steps**, at the end of every run. -/
theorem Session.notices_execute (session : Session) (arrange : List Slot → List Slot)
    (lists : List (List String)) (host : Host σ) (world : σ) :
    (session.execute arrange lists host world).2.Noted :=
  session.execute_keeps (Run.noted_invariant _ session.last) rfl

/-! ## Calls by the last graph -/

/-- The slot that a change publishes, with the values. -/
def Change.published? : Change → Option (Slot × List Entity)
  | .publish slot values _ => some (slot, values)
  | .detach _ => none

/-- The calls that the publication of a slot leads to in a graph. -/
def Graph.callsOf (g : Graph) (published : Slot × List Entity) : List (Slot × Nat × List Entity) :=
  (g.observers published.1 published.2.isEmpty).map (published.1, ·, published.2)

namespace Recorded

variable {start g : Graph} {steps : List Step}

theorem observers_perm (h : Recorded start steps g) (s : Slot) (empty : Bool) :
    (g.observers s empty).Perm (start.observers s empty) := by
  induction steps generalizing g with
  | nil =>
    cases h
    exact .refl _
  | cons step rest ih =>
    obtain ⟨hturns, hrest⟩ := h
    obtain ⟨before, change⟩ := step
    cases change with
    | detach slot =>
      rw [← hturns.2]
      exact Graph.observers_detach.trans (ih hrest)
    | publish slot values sweep =>
      rw [Graph.observers_publish hturns]
      exact ih hrest

/-- The calls of steps are those of their publications, by the first graph. -/
theorem map_call_perm (h : Recorded start steps g) :
    ((steps.flatMap Step.notices).map Notice.call).Perm
      ((steps.filterMap (·.change.published?)).flatMap start.callsOf) := by
  induction steps generalizing g with
  | nil => exact .refl _
  | cons step rest ih =>
    obtain ⟨hturns, hrest⟩ := h
    have hperm := ih hrest
    obtain ⟨before, change⟩ := step
    cases change with
    | detach slot => exact hperm
    | publish slot values sweep =>
      have hcalls : (Step.notices ⟨before, .publish slot values sweep⟩).map Notice.call =
          g.callsOf (slot, values) := by
        rw [Step.notices_of_publish hturns, Graph.notices, List.map_map]
        rfl
      have hobservers : (g.observers slot values.isEmpty).Perm
          (start.observers slot values.isEmpty) := by
        rw [Graph.observers_publish hturns]
        exact hrest.observers_perm slot values.isEmpty
      rw [List.flatMap_cons, List.map_append, hcalls]
      exact (hobservers.map _).append hperm

theorem map_call_slot_perm (h : Recorded start steps g) {s : Slot}
    (hs : start.valuation s = none) :
    (((steps.flatMap Step.notices).filter (·.slot = s)).map Notice.call).Perm
      ((g.valuation s).toList.flatMap fun values => start.callsOf (s, values)) := by
  have hcalls : ∀ published : Slot × List Entity,
      (start.callsOf published).filter (·.1 = s) =
        if published.1 = s then start.callsOf (s, published.2) else [] := by
    rintro ⟨slot, values⟩
    split_ifs with hslot
    · subst hslot
      simp [Graph.callsOf]
    · simp [Graph.callsOf, hslot]
  have hfilter : ∀ steps : List Step,
      ((steps.filterMap (·.change.published?)).flatMap start.callsOf).filter (·.1 = s) =
        (steps.filterMap (·.change.valuesFor? s)).flatMap fun values =>
          start.callsOf (s, values) := by
    intro steps
    induction steps with
    | nil => rfl
    | cons step rest ih =>
      obtain ⟨before, change⟩ := step
      cases change with
      | detach slot => exact ih
      | publish slot values sweep =>
        have hvalues : (Change.publish slot values sweep).valuesFor? s =
            if slot = s then some values else none := rfl
        have hpublished : (Change.publish slot values sweep).published? = some (slot, values) := rfl
        simp only [List.filterMap_cons, hpublished, hvalues, List.flatMap_cons, List.filter_append,
          hcalls, ih]
        by_cases hslot : slot = s <;> simp [hslot]
  rw [← h.publications hs, ← hfilter]
  have hperm := h.map_call_perm.filter (·.1 = s)
  rw [List.filter_map] at hperm
  exact hperm

end Recorded

/-! ## A sample -/

namespace Sample

/-- The host of the sample, whose state is now the log of the calls of observers. -/
def recorder : Host (List (Nat × List Entity)) where
  resolver := { registry.resolver with constructors := fun _ => throw (.crash .other) }
  observe number values := modifyGet fun calls => (some .other, calls ++ [(number, values)])

theorem recorder_logs : recorder.Logs id where
  preserves calls := by
    have hkeeps : ∀ {α : Type} (answer : Except LookupError α),
        Keeps (id · = calls) (Call.ofExcept answer : Call (List (Nat × List Entity)) α) := by
      intro α answer log hlog
      cases answer <;> exact hlog
    constructor
    case constructors => exact fun _ _ hlog => hlog
    case judge => exact fun _ _ hlog => hlog
    all_goals exact fun _ => hkeeps _
  observe _ _ _ := rfl

end Sample

end Metamatch
