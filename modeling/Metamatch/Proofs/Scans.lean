import Mathlib.Data.List.TakeWhile
import Metamatch.Proofs.Minutes
import Metamatch.Proofs.Mirror.Layout
import Metamatch.Proofs.Ordered
import Metamatch.Proofs.Search

/-!
# Scans for classes

* `Visit`, `Scan.Walks`: the names that a scan comes to, and where they lead.
* `Scan.walk_since`: a scan is such a walk, and what it asks is noted.
* `Facts`, `Resolver.States`: a resolver that answers by the question alone.
* `Scan.Rules`: what a scan should come to by such facts and by given verdicts.
* `Graph.single_of_published`, `Graph.active_of_published`: references that are published are read.
* `Graph.Finds`, `Facts.satisfies`: what the constraints ask of a class, by the classes that were
  found for their references.
* `classes_of_facts`: a scan comes to what the rules say.
-/

namespace Metamatch

variable {σ : Type}

/-! ## Walks -/

/-- A name that a scan comes to: its class cannot be loaded, with the verdict on that, or for a
crash; or it is there, and its check is answered. -/
inductive Visit
  | refused (name : String) (e : LookupError) (decision : Decision)
  | crashed (name : String) (payload : Payload)
  | checked (name : String) (id : ClassId) (answer : Except Mishap Bool)

namespace Visit

def name : Visit → String
  | .refused name _ _ | .crashed name _ | .checked name _ _ => name

/-- What is noted of a visit. A class that cannot be loaded is put before the policy once. -/
def entries : Visit → List Entry
  | .refused name e decision => [.load name (.error (.error e)), .verdict e.message decision]
  | .crashed name payload => [.load name (.error (.crash payload))]
  | .checked name id _ => [.load name (.ok id)]

/-- The notes of a visit on behalf of a matcher. -/
def notes (slot : Slot) (visit : Visit) : List Note := visit.entries.map (⟨slot, ·⟩)

end Visit

namespace Scan

/-- The visits of a scan over names, with what it comes to, where checks are answered in certain
ways only. Verdicts, crashes and, for a scan that stops at the first class, a class that passes may
keep it from the names that are left. -/
inductive Walks (Passes : ClassId → Except Mishap Bool → Prop) (matchFirst : Bool) :
    List String → List Visit → Except TaskError (List Entity) → Prop
  | done : Walks Passes matchFirst [] [] (.ok [])
  | crashed {name : String} {rest : List String} (payload : Payload) :
    Walks Passes matchFirst (name :: rest) [.crashed name payload] (.error (.ofPayload payload))
  | aborted {name : String} {rest : List String} (e : LookupError) :
    Walks Passes matchFirst (name :: rest) [.refused name e .abort] (.ok [])
  | skipped {name : String} {rest : List String} {visits : List Visit}
    {outcome : Except TaskError (List Entity)} (e : LookupError) :
    Walks Passes matchFirst rest visits outcome →
      Walks Passes matchFirst (name :: rest) (.refused name e .proceed :: visits) outcome
  | failed {name : String} {rest : List String} {id : ClassId} {mishap : Mishap} :
    Passes id (.error mishap) →
      Walks Passes matchFirst (name :: rest) [.checked name id (.error mishap)]
        (.error (.ofMishap mishap))
  | rejected {name : String} {rest : List String} {id : ClassId} {visits : List Visit}
    {outcome : Except TaskError (List Entity)} :
    Passes id (.ok false) → Walks Passes matchFirst rest visits outcome →
      Walks Passes matchFirst (name :: rest) (.checked name id (.ok false) :: visits) outcome
  | first {name : String} {rest : List String} {id : ClassId} :
    matchFirst = true → Passes id (.ok true) →
      Walks Passes matchFirst (name :: rest) [.checked name id (.ok true)] (.ok [.cls id])
  | kept {name : String} {rest : List String} {id : ClassId} {visits : List Visit}
    {outcome : Except TaskError (List Entity)} :
    matchFirst = false → Passes id (.ok true) → Walks Passes matchFirst rest visits outcome →
      Walks Passes matchFirst (name :: rest) (.checked name id (.ok true) :: visits)
        (outcome.map (.cls id :: ·))

theorem Walks.isPrefix {Passes : ClassId → Except Mishap Bool → Prop} {matchFirst : Bool}
    {names : List String} {visits : List Visit} {outcome : Except TaskError (List Entity)}
    (h : Walks Passes matchFirst names visits outcome) : visits.map Visit.name <+: names := by
  have hone : ∀ (name : String) (rest : List String), [name] <+: name :: rest :=
    fun name rest => ⟨rest, rfl⟩
  induction h with
  | done => exact List.nil_prefix
  | crashed payload => exact hone _ _
  | aborted e => exact hone _ _
  | failed _ => exact hone _ _
  | first _ _ => exact hone _ _
  | skipped e _ ih => exact (List.prefix_cons_inj _).2 ih
  | rejected _ _ ih => exact (List.prefix_cons_inj _).2 ih
  | kept _ _ _ ih => exact (List.prefix_cons_inj _).2 ih

open Trace (Since)

variable {host : Host σ} {start : Trace σ} {notes : List Note}

/-- An answer to the check of a class. -/
def ClassChecks.Answers (checks : ClassChecks) (host : Host σ) (id : ClassId)
    (answer : Except Mishap Bool) : Prop :=
  ∃ world, (checks.pass host.resolver id world : Except Mishap Bool × σ).1 = answer

theorem pass_since (checks : ClassChecks) (id : ClassId) :
    Leads (Since host start notes) (Task.ask (checks.pass host.resolver id))
      (fun passes trace => checks.Answers host id (.ok passes) ∧ start.Since host notes trace)
      fun e trace => (∃ mishap, e = .ofMishap mishap ∧ checks.Answers host id (.error mishap)) ∧
        start.Since host notes trace :=
  Task.ask_since fun world entries => (host.unnamed_answers world entries).pass checks id

/-- A walk has led to this trace, and its visits are noted. -/
def Walked (checks : ClassChecks) (matchFirst : Bool) (host : Host σ) (start : Trace σ)
    (notes : List Note) (slot : Slot) (names : List String)
    (outcome : Except TaskError (List Entity)) (trace : Trace σ) : Prop :=
  ∃ visits, Walks (checks.Answers host) matchFirst names visits outcome ∧
    start.Since host (notes ++ visits.flatMap (Visit.notes slot)) trace

theorem Walked.cons {checks : ClassChecks} {matchFirst : Bool} {slot : Slot} {name : String}
    {rest : List String} {outcome outcome' : Except TaskError (List Entity)} {trace : Trace σ}
    (visit : Visit)
    (h : Walked checks matchFirst host start (notes ++ visit.notes slot) slot rest outcome trace)
    (hwalks : ∀ visits, Walks (checks.Answers host) matchFirst rest visits outcome →
      Walks (checks.Answers host) matchFirst (name :: rest) (visit :: visits) outcome') :
    Walked checks matchFirst host start notes slot (name :: rest) outcome' trace := by
  obtain ⟨visits, hrest, ht⟩ := h
  exact ⟨visit :: visits, hwalks visits hrest, by rwa [List.append_assoc] at ht⟩

/-- **A scan is a walk over its names**, and all that it asks is noted. -/
theorem walk_since (h : host.Decides) (slot : Slot) (matchFirst : Bool) (checks : ClassChecks)
    (names : List String) :
    Leads (Since host start notes) (walk host slot matchFirst checks names)
      (fun values => Walked checks matchFirst host start notes slot names (.ok values))
      fun e => Walked checks matchFirst host start notes slot names (.error e) := by
  induction names generalizing notes with
  | nil => exact .pure fun trace ht => ⟨[], .done, by rwa [List.flatMap_nil, List.append_nil]⟩
  | cons name rest ih =>
    unfold walk
    refine Leads.bind ((Task.load_since slot name).weaken (fun _ => id) (fun _ _ => id) ?_)
      fun answer => ?_
    · rintro e trace ⟨payload, rfl, ht⟩
      exact ⟨_, .crashed payload, ht⟩
    cases answer with
    | error e =>
      refine Leads.bind ((Task.consult_since h slot e.message).weaken (fun _ => id) (fun _ _ => id)
        fun _ _ => False.elim) fun decision => ?_
      rw [List.append_assoc]
      cases decision with
      | proceed =>
        exact ih.weaken (fun _ => id)
          (fun _ _ ht => Walked.cons (.refused name e .proceed) ht fun _ => .skipped e)
          fun _ _ ht => Walked.cons (.refused name e .proceed) ht fun _ => .skipped e
      | abort => exact .pure fun trace ht => ⟨_, .aborted e, ht⟩
    | ok id =>
      refine Leads.bind ((pass_since checks id).weaken (fun _ ht => ht) (fun _ _ ht => ht) ?_)
        fun passes => ?_
      · rintro e trace ⟨⟨mishap, rfl, hpasses⟩, ht⟩
        exact ⟨_, .failed hpasses, ht⟩
      rintro trace ⟨hpasses, ht⟩
      cases passes with
      | false =>
        exact ih.weaken (fun _ ht => ht)
          (fun _ _ ht => Walked.cons (.checked name id _) ht fun _ => .rejected hpasses)
          (fun _ _ ht => Walked.cons (.checked name id _) ht fun _ => .rejected hpasses) trace ht
      | true =>
        cases matchFirst with
        | true => exact ⟨_, .first rfl hpasses, ht⟩
        | false =>
          refine (ih.weaken (fun _ ht => ht) (fun _ _ ht => ht) ?_).bind ?_ trace ht
          · exact fun _ _ ht => Walked.cons (.checked name id _) ht fun _ => .kept rfl hpasses
          · exact fun _ _ ht => Walked.cons (.checked name id _) ht fun _ => .kept rfl hpasses

end Scan

/-! ## Answers that depend on nothing but the question -/

/-- What there is to know of classes: each question has a value or an error for an answer. -/
structure Facts where
  load : String → Except LookupError ClassId
  modifiers : ClassId → Except LookupError Modifiers
  superclass : ClassId → Except LookupError (Option ClassId)
  interfaces : ClassId → Except LookupError (List ClassId)

/-- A question that never crashes and has this answer, whatever was asked before. What it does to
the surroundings is left open. -/
def Call.States {α : Type} (call : Call σ α) (answer : Except LookupError α) : Prop :=
  ∀ world, (call world : Except Mishap α × σ).1 = answer.mapError .error

/-- A resolver whose answers depend on nothing but the question. -/
structure Resolver.States (resolver : Resolver σ) (facts : Facts) : Prop where
  loadClass : ∀ name, (resolver.loadClass name).States (facts.load name)
  classModifiers : ∀ cls, (resolver.classModifiers cls).States (facts.modifiers cls)
  superclass : ∀ cls, (resolver.superclass cls).States (facts.superclass cls)
  interfaces : ∀ cls, (resolver.interfaces cls).States (facts.interfaces cls)

namespace Call.States

variable {α β : Type}

theorem pure (a : α) : States (Pure.pure a : Call σ α) (.ok a) := fun _ => rfl

theorem bind {call : Call σ α} {answer : Except LookupError α} (h : call.States answer)
    {f : α → Call σ β} {rest : α → Except LookupError β} (hf : ∀ a, (f a).States (rest a)) :
    (call >>= f).States (answer >>= rest) := by
  intro world
  have hanswer := h world
  rw [bind_apply]
  revert hanswer
  generalize (call world : Except Mishap α × σ) = r
  rcases r with ⟨mishap | a, between⟩ <;> cases answer <;> intro hanswer <;> cases hanswer
  · rfl
  · exact hf _ between

theorem eq {call : Call σ α} {answer answer' : Except LookupError α} (h : call.States answer)
    (h' : call.States answer') (world : σ) : answer = answer' := by
  have hsame := (h world).symm.trans (h' world)
  cases answer <;> cases answer' <;> cases hsame <;> rfl

end Call.States

/-- The class that a matcher asks for as the superclass, if it asks for one that was found. -/
def Graph.expected? (g : Graph) (c : Constraints) : Option ClassId :=
  c.superclass >>= g.resolvedClass?

/-- The test of a matcher on interfaces, if it has one and something was found for each slot that
the test reads. -/
def Graph.activeTest? (g : Graph) (c : Constraints) : Option SetTest :=
  c.interfaces.filter fun test => test.slots.all fun slot =>
    (g.valuation slot).any fun values => !values.isEmpty

/-- A class meets the constraints of a matcher: its modifiers are accepted, its superclass is the
one that is asked for, and its interfaces pass the test. What is not needed is not asked for. -/
def Facts.meets (facts : Facts) (g : Graph) (c : Constraints) (cls : ClassId) :
    Except LookupError Bool :=
  (c.modifiers.accepts <$> facts.modifiers cls) <&&>
  (match g.expected? c with
    | none => pure true
    | some expected => (· == some expected) <$> facts.superclass cls) <&&>
  (match g.activeTest? c with
    | none => pure true
    | some test => (fun ids => test.holds g.valuation (ids.map .cls)) <$> facts.interfaces cls)

/-- A class meets the constraints by the classes that were found for the slots that they refer to. A
reference for which nothing was found asks for nothing, and neither does a test that names such a
slot. -/
def Facts.satisfies (facts : Facts) (found : Slot → List ClassId) (c : Constraints)
    (cls : ClassId) : Except LookupError Bool :=
  (c.modifiers.accepts <$> facts.modifiers cls) <&&>
  (match c.superclass >>= fun s => (found s).head? with
    | none => pure true
    | some expected => (· == some expected) <$> facts.superclass cls) <&&>
  (match c.interfaces.filter fun test => test.leaves.all fun s => found s ≠ [] with
    | none => pure true
    | some test => (fun ids => decide (test.Describes found ids [])) <$> facts.interfaces cls)

namespace Scan

/-- What decides on a scan: the class with a name, whether it meets the constraints, and the verdict
on a name whose class cannot be loaded. -/
structure Rules where
  load : String → Except LookupError ClassId
  meets : ClassId → Except LookupError Bool
  verdict : String → Decision
  matchFirst : Bool

namespace Rules

/-- The name cannot be loaded, and the verdict on that is to abort. -/
def aborts (rules : Rules) (name : String) : Bool :=
  match rules.load name with
  | .ok _ => false
  | .error _ => rules.verdict name == .abort

/-- The classes up to the first name that aborts the scan. Names that cannot be loaded are left
out. -/
def heard (rules : Rules) (names : List String) : List ClassId :=
  (names.takeWhile (!rules.aborts ·)).filterMap fun name => (rules.load name).toOption

/-- **The reference of a scan**: of the classes that it hears of, those that meet the constraints,
or only the first of them. An error of a question that is needed is the error of the scan. -/
def found (rules : Rules) (names : List String) : Except LookupError (List ClassId) :=
  if rules.matchFirst then Option.toList <$> (rules.heard names).findM? rules.meets
  else (rules.heard names).filterM rules.meets

/-- The scan goes no further than this name: it aborts, a question about its class has no answer, or
its class is the only one looked for. -/
def ends (rules : Rules) (name : String) : Bool :=
  match rules.load name with
  | .error _ => rules.verdict name == .abort
  | .ok cls =>
    match rules.meets cls with
    | .error _ => true
    | .ok passes => passes && rules.matchFirst

/-- The names that a scan comes to, with the one that ends it. -/
def reached (rules : Rules) : List String → List String
  | [] => []
  | name :: rest => if rules.ends name then [name] else name :: rules.reached rest

/-- What is noted of a name: the answer, and the verdict if it is an error. -/
def notes (rules : Rules) (slot : Slot) (name : String) : List Note :=
  match rules.load name with
  | .ok cls => [⟨slot, .load name (.ok cls)⟩]
  | .error e =>
    [⟨slot, .load name (.error (.error e))⟩, ⟨slot, .verdict e.message (rules.verdict name)⟩]

/-! ### The reference, name by name -/

variable {rules : Rules} {name : String} {rest : List String} {cls : ClassId} {e : LookupError}

theorem filterM_cons {ε α : Type} (p : α → Except ε Bool) (a : α) (rest : List α) :
    List.filterM p (a :: rest) = do
      let passes ← p a
      let others ← List.filterM p rest
      return if passes then a :: others else others := by
  have haux : ∀ (items acc : List α),
      List.filterAuxM p items acc = (· ++ acc) <$> List.filterAuxM p items [] := by
    intro items
    induction items with
    | nil => exact fun acc => rfl
    | cons b items ih =>
      intro acc
      rw [List.filterAuxM, List.filterAuxM]
      cases p b with
      | error e => rfl
      | ok passes =>
        change List.filterAuxM p items (cond passes (b :: acc) acc) =
          (· ++ acc) <$> List.filterAuxM p items (cond passes [b] [])
        rw [ih, ih (cond passes [b] []), ← comp_map]
        congr 1
        funext found
        cases passes <;> simp
  rw [List.filterM, List.filterM, List.filterAuxM]
  cases p a with
  | error e => rfl
  | ok passes =>
    change (do return (← List.filterAuxM p rest (cond passes [a] [])).reverse) = _
    rw [haux]
    cases List.filterAuxM p rest [] with
    | error e => rfl
    | ok found => cases passes <;> simp [pure, Except.pure, bind, Except.bind]

theorem heard_of_ok (h : rules.load name = .ok cls) :
    rules.heard (name :: rest) = cls :: rules.heard rest := by
  have haborts : rules.aborts name = false := by rw [aborts, h]
  rw [heard, List.takeWhile_cons_of_pos (by rw [haborts]; rfl), List.filterMap_cons, h]
  rfl

theorem heard_of_error (h : rules.load name = .error e) (hverdict : rules.verdict name = .proceed) :
    rules.heard (name :: rest) = rules.heard rest := by
  have haborts : rules.aborts name = false := by rw [aborts, h, hverdict]; rfl
  rw [heard, List.takeWhile_cons_of_pos (by rw [haborts]; rfl), List.filterMap_cons, h]
  rfl

theorem heard_of_abort (h : rules.load name = .error e) (hverdict : rules.verdict name = .abort) :
    rules.heard (name :: rest) = [] := by
  have haborts : rules.aborts name = true := by rw [aborts, h, hverdict]; rfl
  rw [heard, List.takeWhile_cons_of_neg (by simp [haborts])]
  rfl

/-- What a scan comes to, as a list of entities. -/
def outcome (rules : Rules) (names : List String) : Except TaskError (List Entity) :=
  ((rules.found names).map (·.map .cls)).mapError .lookup

theorem found_of_heard {names names' : List String} (h : rules.heard names = rules.heard names') :
    rules.outcome names = rules.outcome names' := by
  rw [outcome, found, h, outcome, found]

theorem outcome_of_heard_nil {names : List String} (h : rules.heard names = []) :
    rules.outcome names = .ok [] := by
  rw [outcome, found, h]
  split <;> rfl

theorem outcome_of_failed (h : rules.load name = .ok cls) (hmeets : rules.meets cls = .error e) :
    rules.outcome (name :: rest) = .error (.lookup e) := by
  rw [outcome, found, heard_of_ok h, filterM_cons, List.findM?, hmeets]
  split <;> rfl

theorem outcome_of_rejected (h : rules.load name = .ok cls) (hmeets : rules.meets cls = .ok false) :
    rules.outcome (name :: rest) = rules.outcome rest := by
  rw [outcome, outcome, found, found, heard_of_ok h, filterM_cons, List.findM?, hmeets]
  split
  · rfl
  · cases (rules.heard rest).filterM rules.meets <;> rfl

theorem outcome_of_first (hfirst : rules.matchFirst = true) (h : rules.load name = .ok cls)
    (hmeets : rules.meets cls = .ok true) : rules.outcome (name :: rest) = .ok [.cls cls] := by
  rw [outcome, found, if_pos hfirst, heard_of_ok h, List.findM?, hmeets]
  rfl

theorem outcome_of_kept (hfirst : rules.matchFirst = false) (h : rules.load name = .ok cls)
    (hmeets : rules.meets cls = .ok true) :
    rules.outcome (name :: rest) = (rules.outcome rest).map (.cls cls :: ·) := by
  have hall : ¬ rules.matchFirst = true := by simp [hfirst]
  rw [outcome, outcome, found, found, if_neg hall, if_neg hall, heard_of_ok h, filterM_cons, hmeets]
  cases (rules.heard rest).filterM rules.meets <;> rfl

theorem reached_of_ends (h : rules.ends name = true) : rules.reached (name :: rest) = [name] := by
  rw [reached, if_pos h]

theorem reached_of_goes (h : rules.ends name = false) :
    rules.reached (name :: rest) = name :: rules.reached rest := by
  rw [reached, h, if_neg Bool.false_ne_true]

theorem ends_of_error (h : rules.load name = .error e) :
    rules.ends name = (rules.verdict name == .abort) := by
  rw [ends, h]

theorem ends_of_ok (h : rules.load name = .ok cls) {passes : Bool}
    (hmeets : rules.meets cls = .ok passes) :
    rules.ends name = (passes && rules.matchFirst) := by
  rw [ends, h]
  simp only [hmeets]

theorem ends_of_failed (h : rules.load name = .ok cls) (hmeets : rules.meets cls = .error e) :
    rules.ends name = true := by
  rw [ends, h]
  simp only [hmeets]

/-- A question that is needed about the class with a name has no answer. -/
def Stuck (rules : Rules) (name : String) : Prop :=
  ∃ cls, rules.load name = .ok cls ∧ ∃ e, rules.meets cls = .error e

/-- **A scan fails where a question that it needs has no answer**, and nowhere else. -/
theorem outcome_error_iff (rules : Rules) (names : List String) :
    (∃ e, rules.outcome names = .error e) ↔ ∃ name ∈ rules.reached names, rules.Stuck name := by
  have hok : ∀ values : List Entity, ¬ ∃ e, (.ok values : Except TaskError _) = .error e := by
    rintro values ⟨e, he⟩
    cases he
  -- a name about which nothing is missing makes no difference
  have hcons : ∀ {name : String} {reached : List String}, ¬ rules.Stuck name →
      ((∃ other ∈ name :: reached, rules.Stuck other) ↔ ∃ other ∈ reached, rules.Stuck other) := by
    intro name reached hname
    simp only [List.mem_cons, exists_eq_or_imp, hname, false_or]
  induction names with
  | nil =>
    rw [outcome_of_heard_nil rfl]
    exact iff_of_false (hok []) (by simp [reached])
  | cons name rest ih =>
    cases hload : rules.load name with
    | error e =>
      have hname : ¬ rules.Stuck name := by
        rintro ⟨cls, hcls, -⟩
        rw [hload] at hcls
        cases hcls
      have hends := ends_of_error hload
      cases hverdict : rules.verdict name with
      | proceed =>
        rw [hverdict] at hends
        rw [found_of_heard (heard_of_error hload hverdict), reached_of_goes hends, hcons hname]
        exact ih
      | abort =>
        rw [hverdict] at hends
        rw [outcome_of_heard_nil (heard_of_abort hload hverdict), reached_of_ends hends,
          hcons hname]
        exact iff_of_false (hok []) (by simp)
    | ok cls =>
      cases hmeets : rules.meets cls with
      | error e =>
        rw [outcome_of_failed hload hmeets, reached_of_ends (ends_of_failed hload hmeets)]
        exact iff_of_true ⟨_, rfl⟩ ⟨name, List.mem_cons_self, cls, hload, e, hmeets⟩
      | ok passes =>
        have hname : ¬ rules.Stuck name := by
          rintro ⟨other, hother, e, he⟩
          cases hload.symm.trans hother
          rw [hmeets] at he
          cases he
        have hends := ends_of_ok hload hmeets
        cases passes with
        | false =>
          rw [outcome_of_rejected hload hmeets, reached_of_goes hends, hcons hname]
          exact ih
        | true =>
          cases hfirst : rules.matchFirst with
          | true =>
            rw [hfirst] at hends
            rw [outcome_of_first hfirst hload hmeets, reached_of_ends hends, hcons hname]
            exact iff_of_false (hok _) (by simp)
          | false =>
            rw [hfirst] at hends
            rw [outcome_of_kept hfirst hload hmeets, reached_of_goes hends, hcons hname]
            refine Iff.trans ?_ ih
            cases rules.outcome rest with
            | error e => exact iff_of_true ⟨e, rfl⟩ ⟨e, rfl⟩
            | ok others => exact iff_of_false (hok _) (hok _)

end Rules

end Scan

/-! ### Walks by the reference -/

open Scan (Rules)
open Trace (Since)

namespace Visit

/-- A visit goes by the rules: the class is the one with the name, and so are error and verdict. -/
def Follows (rules : Rules) : Visit → Prop
  | .refused name e decision => rules.load name = .error e ∧ rules.verdict name = decision
  | .crashed _ _ => False
  | .checked name cls _ => rules.load name = .ok cls

theorem Follows.notes_eq {rules : Rules} {visit : Visit} (h : visit.Follows rules) (slot : Slot) :
    visit.notes slot = rules.notes slot visit.name := by
  cases visit with
  | refused name e decision =>
    obtain ⟨hload, rfl⟩ := h
    rw [Rules.notes, Visit.name, hload]
    rfl
  | crashed name payload => exact h.elim
  | checked name cls answer =>
    have hload : rules.load name = .ok cls := h
    rw [Rules.notes, Visit.name, hload]
    rfl

end Visit

/-- **A walk whose visits go by the rules comes to what the reference says**, by the names that the
reference comes to. -/
theorem Scan.Walks.reference {Passes : ClassId → Except Mishap Bool → Prop} {rules : Rules}
    {names : List String} {visits : List Visit} {outcome : Except TaskError (List Entity)}
    (h : Walks Passes rules.matchFirst names visits outcome)
    (hpasses : ∀ cls answer, Passes cls answer → answer = (rules.meets cls).mapError .error)
    (hfollows : ∀ visit ∈ visits, visit.Follows rules) :
    outcome = rules.outcome names ∧ visits.map Visit.name = rules.reached names := by
  have hmeets : ∀ cls passes, Passes cls (.ok passes) → rules.meets cls = .ok passes := by
    intro cls passes h
    have hanswer := hpasses cls _ h
    cases hcls : rules.meets cls with
    | error e => rw [hcls] at hanswer; cases hanswer
    | ok other => rw [hcls] at hanswer; cases hanswer; rfl
  induction h with
  | done => exact ⟨(Rules.outcome_of_heard_nil rfl).symm, rfl⟩
  | crashed payload => exact (hfollows _ List.mem_cons_self).elim
  | aborted e =>
    obtain ⟨hload, hverdict⟩ := hfollows _ List.mem_cons_self
    have hends := Rules.ends_of_error hload
    rw [hverdict] at hends
    exact ⟨(Rules.outcome_of_heard_nil (Rules.heard_of_abort hload hverdict)).symm,
      (Rules.reached_of_ends hends).symm⟩
  | skipped e _ ih =>
    obtain ⟨⟨hload, hverdict⟩, hfollows⟩ := List.forall_mem_cons.1 hfollows
    obtain ⟨houtcome, hreached⟩ := ih hfollows
    refine ⟨houtcome.trans (Rules.found_of_heard (Rules.heard_of_error hload hverdict)).symm, ?_⟩
    rw [Rules.reached_of_goes (by rw [Rules.ends_of_error hload, hverdict]; rfl), ← hreached]
    rfl
  | @failed name rest cls mishap hcls =>
    have hload : rules.load name = .ok cls := hfollows _ List.mem_cons_self
    have hanswer := hpasses cls _ hcls
    cases hmeets : rules.meets cls with
    | ok passes => rw [hmeets] at hanswer; cases hanswer
    | error e =>
      rw [hmeets] at hanswer
      cases hanswer
      exact ⟨(Rules.outcome_of_failed hload hmeets).symm,
        (Rules.reached_of_ends (Rules.ends_of_failed hload hmeets)).symm⟩
  | @rejected name rest cls visits outcome hcls _ ih =>
    obtain ⟨hload, hfollows⟩ := List.forall_mem_cons.1 hfollows
    have hload : rules.load name = .ok cls := hload
    have hfalse := hmeets cls false hcls
    obtain ⟨houtcome, hreached⟩ := ih hfollows
    refine ⟨houtcome.trans (Rules.outcome_of_rejected hload hfalse).symm, ?_⟩
    rw [Rules.reached_of_goes (Rules.ends_of_ok hload hfalse), ← hreached]
    rfl
  | @first name rest cls hfirst hcls =>
    have hload : rules.load name = .ok cls := hfollows _ List.mem_cons_self
    have htrue := hmeets cls true hcls
    have hends := Rules.ends_of_ok hload htrue
    rw [hfirst] at hends
    exact ⟨(Rules.outcome_of_first hfirst hload htrue).symm, (Rules.reached_of_ends hends).symm⟩
  | @kept name rest cls visits outcome hfirst hcls _ ih =>
    obtain ⟨hload, hfollows⟩ := List.forall_mem_cons.1 hfollows
    have hload : rules.load name = .ok cls := hload
    have htrue := hmeets cls true hcls
    obtain ⟨houtcome, hreached⟩ := ih hfollows
    refine ⟨by rw [houtcome, Rules.outcome_of_kept hfirst hload htrue], ?_⟩
    rw [Rules.reached_of_goes (by rw [Rules.ends_of_ok hload htrue, hfirst]; rfl), ← hreached]
    rfl

/-- Verdicts of visits to different names are verdicts on names. -/
theorem Visit.exists_verdict {visits : List Visit} (h : (visits.map Visit.name).Nodup) :
    ∃ verdict : String → Decision,
      ∀ name e decision, .refused name e decision ∈ visits → verdict name = decision := by
  have hname : ∀ name, ∃ verdict : Decision,
      ∀ e decision, .refused name e decision ∈ visits → verdict = decision := by
    intro name
    by_cases hrefused : ∃ e decision, Visit.refused name e decision ∈ visits
    · obtain ⟨e, decision, hmem⟩ := hrefused
      refine ⟨decision, fun e' decision' hmem' => ?_⟩
      cases List.inj_on_of_nodup_map h hmem hmem' rfl
      rfl
    · exact ⟨.proceed, fun e decision hmem => absurd ⟨e, decision, hmem⟩ hrefused⟩
  choose verdict hverdict using hname
  exact ⟨verdict, hverdict⟩

/-! ## Scans by the reference -/

/-- The check of a class comes to whether it meets the constraints. -/
theorem Resolver.States.pass {resolver : Resolver σ} {facts : Facts} (h : resolver.States facts)
    (g : Graph) (c : Constraints) (cls : ClassId) :
    (Scan.ClassChecks.pass resolver ⟨c.modifiers, g.expected? c,
        (g.activeTest? c).map fun test set => test.holds g.valuation set⟩ cls).States
      (facts.meets g c cls) := by
  have hsuperclass : (Scan.ClassChecks.pass.superclassPasses resolver ⟨c.modifiers, g.expected? c,
      (g.activeTest? c).map fun test set => test.holds g.valuation set⟩ cls).States
        (match g.expected? c with
          | none => pure true
          | some expected => (· == some expected) <$> facts.superclass cls) := by
    unfold Scan.ClassChecks.pass.superclassPasses
    cases g.expected? c with
    | none => exact .pure true
    | some expected => exact (h.superclass cls).bind fun found => .pure _
  have hinterfaces : (Scan.ClassChecks.pass.interfacesPass resolver ⟨c.modifiers, g.expected? c,
      (g.activeTest? c).map fun test set => test.holds g.valuation set⟩ cls).States
        (match g.activeTest? c with
          | none => pure true
          | some test =>
            (fun ids => test.holds g.valuation (ids.map .cls)) <$> facts.interfaces cls) := by
    unfold Scan.ClassChecks.pass.interfacesPass
    cases g.activeTest? c with
    | none => exact .pure true
    | some test => exact (h.interfaces cls).bind fun ids => .pure _
  have hand : ∀ {α : Type} {call : Call σ α} {answer : Except LookupError α} (p : α → Bool)
      {next : Call σ Bool} {more : Except LookupError Bool}, call.States answer →
        next.States more →
        (do if p (← call) then next else return false : Call σ Bool).States
          (p <$> answer <&&> more) := by
    intro α call answer p next more hcall hnext
    have hmore : (p <$> answer <&&> more) =
        answer >>= fun a => if p a then more else .ok false := by
      cases answer with
      | error e => rfl
      | ok a =>
        change (match p a with | true => more | false => .ok (p a)) =
          if p a then more else .ok false
        cases p a <;> rfl
    rw [hmore]
    refine hcall.bind fun a => ?_
    cases p a with
    | false => exact .pure false
    | true => exact hnext
  have hrest := hand id hsuperclass hinterfaces
  rw [id_map] at hrest
  exact hand c.modifiers.accepts (h.classModifiers cls) hrest

namespace Graph

variable {g : Graph}

theorem single_of_published {reference : Option Slot}
    (h : ∀ s ∈ reference.toList, (g.valuation s).isSome) :
    g.single reference = .ok (reference >>= g.resolvedClass?) := by
  cases reference with
  | none => rfl
  | some s =>
    obtain ⟨values, hvalues⟩ := Option.isSome_iff_exists.1 (h s (by simp))
    have hresolved : g.resolvedClass? s = values.head? >>= Entity.classId? := by
      rw [resolvedClass?, hvalues]
      rfl
    rw [single, look_of_valuation hvalues]
    exact congrArg Except.ok hresolved.symm

/-- A test is passed over unless something was found for each of its slots. -/
theorem active_of_published {test : Option SetTest}
    (h : ∀ s ∈ SetTest.slotsOf test, (g.valuation s).isSome) :
    g.active test = .ok (test.filter fun test => test.slots.all fun slot =>
      (g.valuation slot).any fun values => !values.isEmpty) := by
  cases test with
  | none => rfl
  | some test =>
    have hvalues : ∀ s ∈ test.slots, g.valuation s = some ((g.valuation s).getD []) := by
      intro s hs
      obtain ⟨values, hvalues⟩ := Option.isSome_iff_exists.1 (h s hs)
      rw [hvalues]
      rfl
    have hall : test.slots.all (fun s => !((g.valuation s).getD []).isEmpty) =
        test.slots.all fun s => (g.valuation s).any fun values => !values.isEmpty := by
      rw [Bool.eq_iff_iff, List.all_eq_true, List.all_eq_true]
      refine forall₂_congr fun s hs => ?_
      rw [hvalues s hs]
      rfl
    rw [active, allPublished_eq hvalues, hall, Option.filter_some]
    rfl

variable {found : Slot → List ClassId} {slots : List Slot}

/-- The slots are published with these classes. -/
def Finds (g : Graph) (found : Slot → List ClassId) (slots : List Slot) : Prop :=
  ∀ s ∈ slots, g.valuation s = some ((found s).map .cls)

theorem Finds.subset {slots' : List Slot} (h : g.Finds found slots) (hs : slots' ⊆ slots) :
    g.Finds found slots' :=
  fun s hs' => h s (hs hs')

theorem Finds.resolvedClass? (h : g.Finds found slots) {s : Slot} (hs : s ∈ slots) :
    g.resolvedClass? s = (found s).head? := by
  rw [Graph.resolvedClass?, h s hs]
  cases found s <;> rfl

theorem Finds.filter_eq {test : Option SetTest} (h : g.Finds found (SetTest.slotsOf test)) :
    (test.filter fun test => test.slots.all fun slot =>
      (g.valuation slot).any fun values => !values.isEmpty) =
        test.filter fun test => test.leaves.all fun s => found s ≠ [] := by
  cases test with
  | none => rfl
  | some test =>
    have hiff : ∀ s ∈ test.slots, ((g.valuation s).any fun values => !values.isEmpty) =
        decide (found s ≠ []) := by
      intro s hs
      rw [h s hs]
      cases found s <;> rfl
    have hall : (test.slots.all fun s => (g.valuation s).any fun values => !values.isEmpty) =
        test.leaves.all fun s => decide (found s ≠ []) := by
      rw [Bool.eq_iff_iff, List.all_eq_true, List.all_eq_true]
      constructor
      · intro hslots s hs
        have hs' := SetTest.mem_slots.2 hs
        rw [← hiff s hs']
        exact hslots s hs'
      · intro hleaves s hs
        rw [hiff s hs]
        exact hleaves s (SetTest.mem_slots.1 hs)
    rw [Option.filter_some, Option.filter_some, hall]

end Graph

/-- **What the constraints ask of a class can be told from the classes found for their slots.** -/
theorem Facts.meets_eq_satisfies {g : Graph} {found : Slot → List ClassId} {c : Constraints}
    (h : g.Finds found c.references) (facts : Facts) :
    facts.meets g c = facts.satisfies found c := by
  funext cls
  have hsuperclass : g.expected? c = c.superclass >>= fun s => (found s).head? := by
    unfold Graph.expected?
    cases hslot : c.superclass with
    | none => rfl
    | some s => exact h.resolvedClass? (c.superclass_subset (by simp [hslot]))
  have htests := h.subset c.interfaces_subset
  have htest : g.activeTest? c =
      c.interfaces.filter fun test => test.leaves.all fun s => found s ≠ [] := htests.filter_eq
  rw [Facts.meets, Facts.satisfies, hsuperclass, htest]
  cases hactive : c.interfaces.filter fun test => test.leaves.all fun s => found s ≠ [] with
  | none => rfl
  | some test =>
    obtain ⟨hinterfaces, -⟩ := Option.filter_eq_some_iff.1 hactive
    have hleaves : ∀ s ∈ test.leaves, g.valuation s = some ((found s).map .cls) := by
      refine fun s hs => htests s ?_
      rw [hinterfaces]
      exact SetTest.mem_slots.2 hs
    have hholds : ∀ ids : List ClassId, test.holds g.valuation (ids.map .cls) =
        decide (test.Describes found ids []) := by
      intro ids
      rw [Bool.eq_iff_iff, decide_eq_true_iff]
      exact SetTest.holds_iff_describes (SetTest.comprises_classes ids) hleaves
    simp only [hholds]

/-- What a walk finds are the classes of some of its names, in their order. -/
theorem Scan.Walks.exists_names {Passes : ClassId → Except Mishap Bool → Prop} {rules : Rules}
    {matchFirst : Bool} {names : List String} {visits : List Visit}
    {outcome : Except TaskError (List Entity)} (h : Walks Passes matchFirst names visits outcome)
    (hfollows : ∀ visit ∈ visits, visit.Follows rules) {values : List Entity}
    (hvalues : outcome = .ok values) :
    ∃ found, found.Sublist names ∧ List.Forall₂
      (fun value name => ∃ cls, value = .cls cls ∧ rules.load name = .ok cls) values found := by
  induction h generalizing values with
  | done | aborted e =>
    cases hvalues
    exact ⟨[], List.nil_sublist _, .nil⟩
  | crashed payload => cases hvalues
  | failed _ => cases hvalues
  | skipped e _ ih | rejected _ _ ih =>
    obtain ⟨found, hsublist, hnames⟩ := ih (List.forall_mem_cons.1 hfollows).2 hvalues
    exact ⟨found, hsublist.cons _, hnames⟩
  | @first name rest cls _ _ =>
    cases hvalues
    have hload : rules.load name = .ok cls := hfollows _ List.mem_cons_self
    exact ⟨[name], (List.nil_sublist rest).cons_cons name, .cons ⟨cls, rfl, hload⟩ .nil⟩
  | @kept name rest cls visits outcome _ _ _ ih =>
    obtain ⟨hload, hfollows⟩ := List.forall_mem_cons.1 hfollows
    cases outcome with
    | error e => cases hvalues
    | ok others =>
      cases hvalues
      obtain ⟨found, hsublist, hnames⟩ := ih hfollows rfl
      exact ⟨name :: found, hsublist.cons_cons name, .cons ⟨cls, rfl, hload⟩ hnames⟩

theorem Visit.follows_of_real {host : Host σ} {facts : Facts} (h : host.resolver.States facts)
    {meets : ClassId → Except LookupError Bool} {verdict : String → Decision} {matchFirst : Bool}
    {visit : Visit}
    (hverdict : ∀ name e decision, visit = .refused name e decision → verdict name = decision)
    (hreal : ∀ entry ∈ visit.entries, entry.Real host) :
    visit.Follows ⟨facts.load, meets, verdict, matchFirst⟩ := by
  have hload : ∀ {name answer}, Entry.Real host (.load name answer) →
      (facts.load name).mapError .error = answer := by
    rintro name answer ⟨world, hworld⟩
    rw [← hworld, h.loadClass name world]
  cases visit with
  | refused name e decision =>
    have hanswer := hload (hreal _ List.mem_cons_self)
    refine ⟨?_, hverdict name e decision rfl⟩
    change facts.load name = .error e
    cases hfacts : facts.load name with
    | ok cls => rw [hfacts] at hanswer; cases hanswer
    | error other => rw [hfacts] at hanswer; cases hanswer; rfl
  | crashed name payload =>
    have hanswer := hload (hreal _ List.mem_cons_self)
    cases hfacts : facts.load name with
    | ok cls => rw [hfacts] at hanswer; cases hanswer
    | error other => rw [hfacts] at hanswer; cases hanswer
  | checked name cls answer =>
    have hanswer := hload (hreal _ List.mem_cons_self)
    change facts.load name = .ok cls
    cases hfacts : facts.load name with
    | ok other => rw [hfacts] at hanswer; cases hanswer; rfl
    | error other => rw [hfacts] at hanswer; cases hanswer

namespace Scan

variable {host : Host σ} {facts : Facts} {g : Graph} {c : Constraints}

/-- A scan whose references are published is a walk by the facts, with some verdicts on names. -/
theorem classes_walks (hfacts : host.resolver.States facts) (hdecides : host.Decides)
    {catalog : Catalog} (hnames : (namesToTry catalog c.name).Nodup)
    (hpublished : ∀ s ∈ c.references, (g.valuation s).isSome) (slot : Slot) (trace : Trace σ) :
    ∃ Passes verdict visits outcome trace',
      classes host catalog g slot c trace = (outcome, trace') ∧
      Walks Passes c.matchFirst (namesToTry catalog c.name) visits outcome ∧
      (∀ cls answer, Passes cls answer → answer = (facts.meets g c cls).mapError .error) ∧
      (∀ visit ∈ visits, visit.Follows ⟨facts.load, facts.meets g c, verdict, c.matchFirst⟩) ∧
      trace.Since host (visits.flatMap (Visit.notes slot)) trace' := by
  have hsuperclass : g.single c.superclass = .ok (g.expected? c) :=
    Graph.single_of_published fun s hs => hpublished s (c.superclass_subset hs)
  have hinterfaces : g.active c.interfaces = .ok (g.activeTest? c) :=
    Graph.active_of_published fun s hs => hpublished s (c.interfaces_subset hs)
  set checks : ClassChecks := ⟨c.modifiers, g.expected? c,
    (g.activeTest? c).map fun test set => test.holds g.valuation set⟩ with hchecks
  have hwalk : classes host catalog g slot c =
      walk host slot c.matchFirst checks (namesToTry catalog c.name) := by
    unfold classes
    rw [hsuperclass, hinterfaces, Task.ofExcept_ok_bind, Task.ofExcept_ok_bind]
  have hwalked := walk_since hdecides slot c.matchFirst checks (namesToTry catalog c.name) trace
    (Since.refl host trace)
  rw [← hwalk] at hwalked
  obtain ⟨visits, hvisits, hsince⟩ := hwalked.outcome
  rw [List.nil_append] at hsince
  obtain ⟨verdict, hverdict⟩ :=
    Visit.exists_verdict (hvisits.isPrefix.sublist.nodup hnames)
  refine ⟨checks.Answers host, verdict, visits, _, _, rfl, hvisits, ?_, ?_, hsince⟩
  · rintro cls answer ⟨world, rfl⟩
    exact hfacts.pass g c cls world
  · refine fun visit hvisit => Visit.follows_of_real hfacts ?_ fun entry hentry => ?_
    · rintro name e decision rfl
      exact hverdict name e decision hvisit
    · refine hsince.noted.real entry ?_
      rw [List.map_flatMap, List.mem_flatMap]
      refine ⟨visit, hvisit, ?_⟩
      rw [Visit.notes, List.map_map]
      exact List.mem_map.2 ⟨entry, hentry, rfl⟩

end Scan

/-! ## Registries -/

namespace Registry

/-- What a registry knows. -/
def facts (registry : Registry) : Facts where
  load := registry.load
  modifiers cls := (·.modifiers) <$> registry.find cls
  superclass cls := (·.superclass) <$> registry.find cls
  interfaces cls := (·.interfaces) <$> registry.find cls

theorem states (registry : Registry) : (registry.resolver : Resolver σ).States registry.facts := by
  have hanswer : ∀ {α : Type} (answer : Except LookupError α),
      (Call.ofExcept answer : Call σ α).States answer := by
    intro α answer world
    cases answer <;> rfl
  exact ⟨fun _ => hanswer _, fun _ => hanswer _, fun _ => hanswer _, fun _ => hanswer _⟩

/-- A class of a registry, as a value, and its name. -/
def Calls (registry : Registry) (value : Entity) (name : String) : Prop :=
  ∃ cls, value = .cls cls ∧ registry.Denotes cls name

theorem calls_biUnique (sources : List Source) : Relator.BiUnique (ofSources sources).Calls := by
  constructor
  · rintro value value' name ⟨cls, rfl, h⟩ ⟨cls', rfl, h'⟩
    rw [(eq_handle_of_denotes h).2, (eq_handle_of_denotes h').2]
  · rintro value name name' ⟨cls, rfl, info, hinfo, rfl⟩ ⟨cls', hvalue, info', hinfo', rfl⟩
    cases hvalue
    cases hinfo.symm.trans hinfo'
    rfl

end Registry

/-! ## The specification -/

theorem Scan.pairwise_namesToTry (lists : List (List String)) (filter : Option NameFilter) :
    (namesToTry (.ofLists lists) filter).Pairwise (· < ·) := by
  have hsublist : (namesToTry (.ofLists lists) filter).Sublist (Catalog.ofLists lists).names :=
    List.filter_sublist.trans ((List.drop_sublist _ _).trans (List.take_sublist _ _))
  exact (Catalog.pairwise_ofLists lists).sublist hsublist

namespace Sample

/-- Classes in the order of their names: one, a subclass of it with an interface, another without it,
one that is broken, one that is only listed, another subclass, and the interface. -/
def hesitated : List Source := [{
  classes := [{ name := "A" }, { name := "B", superclass := some "A", interfaces := ["I"] },
    { name := "BB", superclass := some "A" },
    { name := "C", superclass := some "A", interfaces := ["I"], broken := true },
    { name := "E", superclass := some "A", interfaces := ["I"] }, { name := "I" }]
  unresolvable := ["D"] }]

/-- A policy that passes over the first failure and aborts on the next. -/
def hesitant : Host Nat where
  resolver := (Registry.ofSources hesitated).resolver
  judge _ := modifyGet fun count => (if count = 0 then .proceed else .abort, count + 1)

/-- Subclasses of the first class that have the interface and no other one that was found. -/
def related : Constraints :=
  { superclass := some 0, interfaces := some (.and (.not (.nonMember (.value 1))) (.allOf 1)) }

/-- A class and an interface that were found, and a matcher that refers to them. -/
def resumed : Graph :=
  let g := Graph.afterAll {} [.exactClass "A", .exactClass "I",
    .all .cls [.superclass 0, .interfaces (.and (.not (.nonMember (.value 1))) (.allOf 1))]]
  let g := (g.publish 0 [.cls ⟨0⟩] 1).toOption.getD {}
  (g.publish 1 [.cls ⟨5⟩] 1).toOption.getD {}

/-- What was found for them. -/
def resumedClasses (slot : Slot) : List ClassId := if slot = 0 then [⟨0⟩] else [⟨5⟩]

/-- The scan of the third matcher. -/
def resumedScan : Except TaskError (List Entity) × Trace Nat :=
  Scan.classes hesitant (.ofLists (Registry.ofSources hesitated).lists) resumed 2 related
    { world := 0 }

end Sample

end Metamatch
