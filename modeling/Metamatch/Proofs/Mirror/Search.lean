import Metamatch.Proofs.Mirror.Graph
import Metamatch.Run

/-!
# Searches that mirror each other

* `Candidate.Mirrors`: members declared alike.
* `Resolver.Mirrors`: resolvers whose answers mirror each other.
* `Host.Mirrors.walk`, `Resolver.Mirrors.members`: so do the candidates that are found with them.
* `Resolver.Mirrors.describe`, `Resolver.Mirrors.locate`: they give the same names to mirrors, and
  find mirrors by the same name.
-/

namespace Metamatch

variable {σ τ ε α β : Type} {C : ClassId → ClassId → Prop} {R : σ → τ → Prop} {Q : α → β → Prop}

/-! ## Members -/

/-- Members that are declared alike, over classes that correspond. -/
structure Candidate.Mirrors (C : ClassId → ClassId → Prop) (candidate candidate' : Candidate) :
    Prop where
  entity : candidate.entity.Mirrors C candidate'.entity
  name : candidate'.name = candidate.name
  modifiers : candidate'.modifiers = candidate.modifiers
  valueType : Option.Rel C candidate.valueType candidate'.valueType
  parameters : Option.Rel (List.Forall₂ C) candidate.parameters candidate'.parameters

theorem Candidate.Mirrors.refl (candidate : Candidate) : candidate.Mirrors Eq candidate where
  entity := .refl _
  name := rfl
  modifiers := rfl
  valueType := optionRel_refl _
  parameters := by
    rw [List.forall₂_eq_eq_eq]
    exact optionRel_refl _

/-! ## Questions -/

/-- Resolvers whose answers to corresponding questions mirror each other, where the states of their
surroundings are related. -/
structure Resolver.Mirrors (C : ClassId → ClassId → Prop) (R : σ → τ → Prop) (resolver : Resolver σ)
    (resolver' : Resolver τ) : Prop where
  loadClass : ∀ name, Lockstep R C (resolver.loadClass name) (resolver'.loadClass name)
  className : ∀ a b, C a b → Lockstep R Eq (resolver.className a) (resolver'.className b)
  classModifiers : ∀ a b, C a b →
    Lockstep R Eq (resolver.classModifiers a) (resolver'.classModifiers b)
  superclass : ∀ a b, C a b →
    Lockstep R (Option.Rel C) (resolver.superclass a) (resolver'.superclass b)
  interfaces : ∀ a b, C a b →
    Lockstep R (List.Forall₂ C) (resolver.interfaces a) (resolver'.interfaces b)
  members : ∀ kind a b, C a b →
    Lockstep R (List.Forall₂ (Candidate.Mirrors C)) (Kind.members resolver kind a)
      (Kind.members resolver' kind b)

theorem Call.attempt_lockstep {call : Call σ α} {call' : Call τ β} (h : Lockstep R Q call call') :
    Lockstep R (Agree Q) call.attempt call'.attempt := by
  intro t u hR
  obtain ⟨hagree, hR'⟩ := h t u hR
  revert hagree hR'
  simp only [attempt, ExceptT.run, StateT.run, Id.run]
  generalize (call t : Except Mishap α × σ) = r
  generalize (call' u : Except Mishap β × τ) = r'
  rcases r with ⟨outcome, t'⟩
  rcases r' with ⟨outcome', u'⟩
  intro hagree hR'
  cases hagree with
  | ok hab => exact ⟨.ok (.ok hab), hR'⟩
  | error e =>
    cases e with
    | error e => exact ⟨.ok (.error e), hR'⟩
    | crash payload => exact ⟨.error payload, hR'⟩

theorem Call.ofExcept_lockstep {answer : Except LookupError α} {answer' : Except LookupError β}
    (h : Agree Q answer answer') :
    Lockstep R Q (ofExcept answer : Call σ α) (ofExcept answer' : Call τ β) := by
  cases h with
  | ok hab => exact .pure hab
  | error e => exact .throw _

/-- Traces with the same failures on record. -/
structure Trace.Mirrors (R : σ → τ → Prop) (trace : Trace σ) (trace' : Trace τ) : Prop where
  world : R trace.world trace'.world
  failures : trace'.failures = trace.failures

namespace Trace.Mirrors

variable {trace : Trace σ} {trace' : Trace τ}

theorem ask (h : trace.Mirrors R trace') {x : ExceptT ε (StateM σ) α} {y : ExceptT ε (StateM τ) β}
    (hxy : Lockstep R Q x y) : Agree Q (trace.ask x).1 (trace'.ask y).1 ∧
      (trace.ask x).2.Mirrors R (trace'.ask y).2 := by
  obtain ⟨hagree, hR⟩ := hxy trace.world trace'.world h.world
  exact ⟨hagree, hR, h.failures⟩

theorem consult (h : trace.Mirrors R trace') {host : Host σ} {host' : Host τ}
    (hjudge : ∀ message, Lockstep R Eq (host.judge message) (host'.judge message)) (slot : Slot)
    (message : String) :
    Agree Eq (trace.consult host slot message).1 (trace'.consult host' slot message).1 ∧
      (trace.consult host slot message).2.Mirrors R (trace'.consult host' slot message).2 := by
  obtain ⟨hagree, hR⟩ := hjudge message trace.world trace'.world h.world
  revert hagree hR
  simp only [Trace.consult, ExceptT.run, StateT.run, Id.run]
  generalize (host.judge message trace.world : Except Payload Decision × σ) = r
  generalize (host'.judge message trace'.world : Except Payload Decision × τ) = r'
  rcases r with ⟨outcome, t⟩
  rcases r' with ⟨outcome', u⟩
  intro hagree hR
  cases hagree with
  | ok hdecision =>
    cases hdecision
    exact ⟨.ok rfl, hR, by rw [h.failures]⟩
  | error e => exact ⟨.error e, hR, h.failures⟩

end Trace.Mirrors

namespace Task

theorem ask_lockstep {call : Call σ α} {call' : Call τ β} (h : Lockstep R Q call call') :
    Lockstep (Trace.Mirrors R) Q (ask call) (ask call') := by
  intro trace trace' htrace
  obtain ⟨hagree, hworld⟩ := htrace.ask h
  exact ⟨hagree.mapError _, hworld⟩

theorem attempt_lockstep {call : Call σ α} {call' : Call τ β} (h : Lockstep R Q call call') :
    Lockstep (Trace.Mirrors R) (Agree Q) (attempt call) (attempt call') := by
  intro trace trace' htrace
  obtain ⟨hagree, hworld⟩ := htrace.ask (Call.attempt_lockstep h)
  exact ⟨hagree.mapError _, hworld⟩

theorem consult_lockstep {host : Host σ} {host' : Host τ}
    (hjudge : ∀ message, Lockstep R Eq (host.judge message) (host'.judge message)) (slot : Slot)
    (message : String) :
    Lockstep (Trace.Mirrors R) Eq (consult host slot message) (consult host' slot message) := by
  intro trace trace' htrace
  obtain ⟨hagree, hworld⟩ := htrace.consult hjudge slot message
  exact ⟨hagree.mapError _, hworld⟩

theorem ofExcept_lockstep {value : Except Payload α} {value' : Except Payload β}
    (h : Agree Q value value') :
    Lockstep (Trace.Mirrors R) Q (ofExcept value) (ofExcept value') :=
  fun _ _ htrace => ⟨h.mapError _, htrace⟩

end Task

/-! ## Scans -/

/-- Hosts with resolvers whose answers mirror each other, which come to the same verdicts, and whose
observers neither crash nor concern what relates their states. -/
structure Host.Mirrors (C : ClassId → ClassId → Prop) (R : σ → τ → Prop) (host : Host σ)
    (host' : Host τ) : Prop where
  resolver : host.resolver.Mirrors C R host'.resolver
  judge : ∀ message, Lockstep R Eq (host.judge message) (host'.judge message)
  calm : ∀ number values t,
    (host.observe number values t : Option Payload × σ).1 = none
  calm' : ∀ number values u,
    (host'.observe number values u : Option Payload × τ).1 = none
  apart : ∀ number values t u, R t u → R (host.observe number values t : Option Payload × σ).2 u
  apart' : ∀ number values t u, R t u → R t (host'.observe number values u : Option Payload × τ).2

/-- Tests on entities that do not tell mirrors apart. -/
abbrev Entity.TestsAlike (C : ClassId → ClassId → Prop) (test test' : List Entity → Bool) : Prop :=
  ∀ set set', List.Forall₂ (Entity.Mirrors C) set set' → test set = test' set'

namespace Scan

/-- Checks that do not tell classes apart that correspond. -/
structure ClassChecks.Mirrors (C : ClassId → ClassId → Prop) (checks checks' : ClassChecks) :
    Prop where
  modifiers : checks'.modifiers = checks.modifiers
  superclass : Option.Rel C checks.superclass checks'.superclass
  interfaces : Option.Rel (Entity.TestsAlike C) checks.interfaces checks'.interfaces

/-- Checks that do not tell members apart that are declared alike. -/
structure MemberChecks.Mirrors (C : ClassId → ClassId → Prop) (checks checks' : MemberChecks) :
    Prop where
  modifiers : checks'.modifiers = checks.modifiers
  name : checks'.name = checks.name
  valueType : Option.Rel C checks.valueType checks'.valueType
  parameterCount : checks'.parameterCount = checks.parameterCount
  parameterTypes : Option.Rel (Entity.TestsAlike C) checks.parameterTypes checks'.parameterTypes

theorem parameterSet_mirrors {types types' : List ClassId} (h : List.Forall₂ C types types') :
    List.Forall₂ (Entity.Mirrors C) (parameterSet types) (parameterSet types') := by
  refine List.rel_flatten (forall₂_mapIdx h fun index type type' htype => ?_)
  exact .cons (.cls htype) (.cons (.parameter index htype) .nil)

theorem pass_mirrors (hC : Relator.BiUnique C) {checks checks' : MemberChecks}
    (h : checks.Mirrors C checks') {candidate candidate' : Candidate}
    (hcandidate : candidate.Mirrors C candidate') :
    checks.pass candidate = checks'.pass candidate' := by
  have htypes : List.Forall₂ C (candidate.parameters.getD []) (candidate'.parameters.getD []) :=
    optionRel_getD hcandidate.parameters .nil
  have hvalueType : checks.valueType.all (fun type => candidate.valueType == some type) =
      checks'.valueType.all fun type => candidate'.valueType == some type :=
    optionRel_all h.valueType fun _ _ htype => optionRel_beq hC hcandidate.valueType (.some htype)
  have hparameterTypes :
      checks.parameterTypes.all (fun test => test (parameterSet (candidate.parameters.getD []))) =
        checks'.parameterTypes.all fun test =>
          test (parameterSet (candidate'.parameters.getD [])) :=
    optionRel_all h.parameterTypes fun _ _ htest => htest _ _ (parameterSet_mirrors htypes)
  unfold MemberChecks.pass
  dsimp only
  rw [hvalueType, hparameterTypes, htypes.length_eq, h.modifiers, h.name, h.parameterCount,
    hcandidate.modifiers, hcandidate.name]

theorem select_mirrors (hC : Relator.BiUnique C) {checks checks' : MemberChecks}
    (h : checks.Mirrors C checks') (matchFirst : Bool) {candidates candidates' : List Candidate}
    (hcandidates : List.Forall₂ (Candidate.Mirrors C) candidates candidates') :
    List.Forall₂ (Entity.Mirrors C) (select matchFirst checks candidates)
      (select matchFirst checks' candidates') := by
  have hfound : List.Forall₂ (Entity.Mirrors C) ((candidates.filter checks.pass).map (·.entity))
      ((candidates'.filter checks'.pass).map (·.entity)) := by
    refine List.rel_map (R := Candidate.Mirrors C) (fun _ _ => Candidate.Mirrors.entity) ?_
    refine List.rel_filter (fun candidate candidate' hcandidate => ?_) hcandidates
    exact Bool.eq_iff_iff.1 (pass_mirrors hC h hcandidate)
  unfold select
  cases matchFirst with
  | true => exact List.forall₂_take 1 hfound
  | false => exact hfound

end Scan

namespace Resolver.Mirrors

variable {resolver : Resolver σ} {resolver' : Resolver τ}

theorem pass (h : resolver.Mirrors C R resolver') (hC : Relator.BiUnique C)
    {checks checks' : Scan.ClassChecks} (hchecks : checks.Mirrors C checks') {a b : ClassId}
    (hab : C a b) : Lockstep R Eq (checks.pass resolver a) (checks'.pass resolver' b) := by
  obtain ⟨modifiers, superclass, interfaces⟩ := checks
  obtain ⟨modifiers', superclass', interfaces'⟩ := checks'
  obtain ⟨hmodifiers, hsuperclass, hinterfaces⟩ := hchecks
  dsimp only at hmodifiers hsuperclass hinterfaces
  subst hmodifiers
  unfold Scan.ClassChecks.pass
  refine (h.classModifiers a b hab).bindEq fun found => ?_
  split_ifs
  · refine Lockstep.bindEq ?_ fun passes => ?_
    · unfold Scan.ClassChecks.pass.superclassPasses
      cases hsuperclass with
      | none => exact .pure rfl
      | some hexpected =>
        refine (h.superclass a b hab).bind fun found found' hfound => .pure ?_
        exact optionRel_beq hC hfound (.some hexpected)
    · split_ifs
      · unfold Scan.ClassChecks.pass.interfacesPass
        cases hinterfaces with
        | none => exact .pure rfl
        | some htest =>
          refine (h.interfaces a b hab).bind fun found found' hfound => .pure ?_
          exact htest _ _ (List.rel_map (R := C) (fun _ _ => Entity.Mirrors.cls) hfound)
      · exact .pure rfl
  · exact .pure rfl

end Resolver.Mirrors

namespace Host.Mirrors

variable {host : Host σ} {host' : Host τ} {g g' : Graph}

theorem walk (h : host.Mirrors C R host') (hC : Relator.BiUnique C) (slot : Slot)
    (matchFirst : Bool) {checks checks' : Scan.ClassChecks} (hchecks : checks.Mirrors C checks')
    (names : List String) :
    Lockstep (Trace.Mirrors R) (List.Forall₂ (Entity.Mirrors C))
      (Scan.walk host slot matchFirst checks names)
      (Scan.walk host' slot matchFirst checks' names) := by
  induction names with
  | nil => exact .pure .nil
  | cons name rest ih =>
    unfold Scan.walk
    refine (Task.attempt_lockstep (h.resolver.loadClass name)).bind fun answer answer' hanswer => ?_
    cases hanswer with
    | error e =>
      refine (Task.consult_lockstep h.judge slot e.message).bindEq fun decision => ?_
      cases decision with
      | proceed => exact ih
      | abort => exact .pure .nil
    | @ok a b hab =>
      refine (Task.ask_lockstep (h.resolver.pass hC hchecks hab)).bindEq fun passes => ?_
      split_ifs
      · exact .pure (.cons (.cls hab) .nil)
      · exact ih.bind fun _ _ hrest => .pure (.cons (.cls hab) hrest)
      · exact ih

theorem testsAlike (hC : Relator.BiUnique C) (hg : g.Mirrors C g') (test : Option SetTest) :
    Option.Rel (Entity.TestsAlike C) (test.map fun test set => test.holds g.valuation set)
      (test.map fun test set => test.holds g'.valuation set) :=
  optionRel_map (optionRel_refl test) fun test _ heq set set' hset => by
    rw [← heq]
    exact test.holds_mirrors hC hg.valuation hset

theorem classes (h : host.Mirrors C R host') (hC : Relator.BiUnique C) (hg : g.Mirrors C g')
    (catalog : Catalog) (slot : Slot) (c : Constraints) :
    Lockstep (Trace.Mirrors R) (List.Forall₂ (Entity.Mirrors C))
      (Scan.classes host catalog g slot c) (Scan.classes host' catalog g' slot c) := by
  unfold Scan.classes
  rw [hg.active]
  refine (Task.ofExcept_lockstep (hg.single c.superclass)).bind fun superclass superclass' hsuper => ?_
  refine (Task.ofExcept_lockstep (.refl _)).bindEq fun interfaces => ?_
  refine h.walk hC slot _ ?_ _
  exact ⟨rfl, hsuper, testsAlike hC hg interfaces⟩

theorem members (h : host.Mirrors C R host') (hC : Relator.BiUnique C) (hg : g.Mirrors C g')
    (kind : Kind) (c : Constraints) :
    Lockstep (Trace.Mirrors R) (List.Forall₂ (Entity.Mirrors C)) (Scan.members host g kind c)
      (Scan.members host' g' kind c) := by
  unfold Scan.members
  rw [hg.active]
  refine (Task.ofExcept_lockstep (hg.single c.declaringClass)).bind fun owner owner' howner => ?_
  cases howner with
  | none => exact .pure .nil
  | some howner =>
    refine (Task.ofExcept_lockstep (hg.single c.valueType)).bind fun type type' htype => ?_
    refine (Task.ofExcept_lockstep (.refl _)).bindEq fun test => ?_
    refine (Task.ask_lockstep (h.resolver.members kind _ _ howner)).bind
      fun candidates candidates' hcandidates => .pure ?_
    refine Scan.select_mirrors hC ?_ _ hcandidates
    exact ⟨rfl, rfl, htype, rfl, testsAlike hC hg test⟩

end Host.Mirrors

/-! ## Names -/

/-- The same slot with values that mirror each other. -/
structure Seed.Mirrors (C : ClassId → ClassId → Prop) (seed seed' : Slot × List Entity) : Prop where
  slot : seed'.1 = seed.1
  values : List.Forall₂ (Entity.Mirrors C) seed.2 seed'.2

namespace Resolver.Mirrors

variable {resolver : Resolver σ} {resolver' : Resolver τ}

theorem signature (h : resolver.Mirrors C R resolver') {candidate candidate' : Candidate}
    (hcandidate : candidate.Mirrors C candidate') :
    Lockstep R Eq (candidate.signature resolver) (candidate'.signature resolver') := by
  unfold Candidate.signature
  refine (Lockstep.optionMapM hcandidate.parameters fun _ _ htypes =>
    Lockstep.mapM htypes h.className).bind fun parameters parameters' hparameters => ?_
  refine (Lockstep.optionMapM hcandidate.valueType h.className).bind
    fun valueType valueType' hvalueType => ?_
  rw [List.forall₂_eq_eq_eq] at hparameters
  rw [optionRel_eq hparameters, optionRel_eq hvalueType, hcandidate.name]
  exact .pure rfl

theorem describe (h : resolver.Mirrors C R resolver') (hC : Relator.BiUnique C) {a b : Entity}
    (hab : a.Mirrors C b) : Lockstep R Eq (a.describe resolver) (b.describe resolver') := by
  have hfind : ∀ {candidates candidates'},
      List.Forall₂ (Candidate.Mirrors C) candidates candidates' → Option.Rel (Candidate.Mirrors C)
        (candidates.find? (·.entity == a)) (candidates'.find? (·.entity == b)) := by
    intro candidates candidates' hcandidates
    refine forall₂_find? hcandidates fun candidate candidate' hcandidate => ?_
    rw [Bool.eq_iff_iff, beq_iff_eq, beq_iff_eq]
    exact hcandidate.entity.eq_iff hC hab
  cases hab with
  | cls hclass | parameter _ hclass => exact (h.className _ _ hclass).bindEq fun _ => .pure rfl
  | field _ hclass | method _ hclass | constructor _ hclass =>
    unfold Entity.describe
    refine (h.members _ _ _ hclass).bind fun candidates candidates' hcandidates => ?_
    have hfound := hfind hcandidates
    revert hfound
    generalize candidates.find? _ = found
    generalize candidates'.find? _ = found'
    intro hfound
    cases hfound with
    | none => exact .pure rfl
    | some hcandidate =>
      refine (h.className _ _ hclass).bindEq fun cls => ?_
      exact (h.signature hcandidate).bindEq fun member => .pure rfl

theorem findSigned (h : resolver.Mirrors C R resolver') (signature : String)
    {candidates candidates' : List Candidate}
    (hcandidates : List.Forall₂ (Candidate.Mirrors C) candidates candidates') :
    Lockstep R (Option.Rel (Entity.Mirrors C))
      (EntityName.findSigned resolver signature candidates)
      (EntityName.findSigned resolver' signature candidates') := by
  induction hcandidates with
  | nil => exact .pure .none
  | cons hcandidate _ ih =>
    unfold EntityName.findSigned
    refine (h.signature hcandidate).bindEq fun found => ?_
    split
    · exact .pure (.some hcandidate.entity)
    · exact ih

theorem locate (h : resolver.Mirrors C R resolver') (name : EntityName) (like : Entity) :
    Lockstep R (Option.Rel (Entity.Mirrors C)) (name.locate resolver like)
      (name.locate resolver' like) := by
  unfold EntityName.locate
  refine (h.loadClass name.cls).bind fun a b hclass => ?_
  split <;> first
    | exact .pure (.some (.cls hclass))
    | exact .pure (.some (.parameter _ hclass))
    | exact .pure .none
    | exact (h.members _ a b hclass).bind fun _ _ => h.findSigned _

theorem locateAll (h : resolver.Mirrors C R resolver') (items : List (Entity × EntityName)) :
    Lockstep R (Option.Rel (List.Forall₂ (Entity.Mirrors C)))
      (EntityName.locateAll resolver items) (EntityName.locateAll resolver' items) := by
  induction items with
  | nil => exact .pure (.some .nil)
  | cons item rest ih =>
    obtain ⟨value, name⟩ := item
    unfold EntityName.locateAll
    refine (Call.attempt_lockstep (h.locate name value)).bind fun answer answer' hanswer => ?_
    cases hanswer with
    | error e => exact .pure .none
    | ok hlocated =>
      cases hlocated with
      | none => exact .pure .none
      | some hvalue =>
        refine ih.bind fun values values' hvalues => .pure ?_
        exact optionRel_map hvalues fun _ _ => .cons hvalue

theorem relocate (h : resolver.Mirrors C R resolver') (report : Report) :
    Lockstep R (Option.Rel (List.Forall₂ (Entity.Mirrors C))) (report.relocate resolver)
      (report.relocate resolver') := by
  unfold Report.relocate
  split_ifs
  · exact h.locateAll _
  · exact .pure .none

theorem gather (h : resolver.Mirrors C R resolver') (last : MatchResult) {g g' : Graph}
    (hg : g.Mirrors C g') (slots : List Slot) :
    Lockstep R (List.Forall₂ (Seed.Mirrors C)) (Seed.gather resolver last g slots)
      (Seed.gather resolver' last g' slots) := by
  induction slots with
  | nil => exact .pure .nil
  | cons slot rest ih =>
    have hoffer : (g'.get? slot).bind last.offer? = (g.get? slot).bind last.offer? := by
      rcases hg.lookup slot with ⟨hs, hs'⟩ | ⟨node, node', hs, hs', hnode⟩
      · rw [hs, hs']
      · rw [hs, hs', Option.bind_some, Option.bind_some, MatchResult.offer?, MatchResult.offer?,
          hnode.key, hnode.kind]
    unfold Seed.gather
    rw [hoffer]
    split
    · exact ih
    · next report _ =>
      refine (h.relocate report).bind fun values values' hvalues => ?_
      cases hvalues with
      | none => exact ih
      | some hvalues =>
        exact ih.bind fun seeds seeds' hseeds => .pure (.cons ⟨rfl, hvalues⟩ hseeds)

/-! ## Reports -/

theorem describeAll (h : resolver.Mirrors C R resolver') (hC : Relator.BiUnique C)
    {values values' : List Entity} (hvalues : List.Forall₂ (Entity.Mirrors C) values values') :
    Lockstep R Eq (Entity.describeAll resolver values) (Entity.describeAll resolver' values') := by
  induction hvalues with
  | nil => exact .pure rfl
  | cons hvalue _ ih =>
    unfold Entity.describeAll
    refine (Call.attempt_lockstep (h.describe hC hvalue)).bind fun answer answer' hanswer => ?_
    cases hanswer.eq
    split
    · exact ih.bindEq fun _ => .pure rfl
    · exact .pure rfl
    · exact .pure rfl

end Resolver.Mirrors

/-- Reports that differ at most in the handles of classes. -/
structure Report.Mirrors (C : ClassId → ClassId → Prop) (report report' : Report) : Prop where
  slot : report'.slot = report.slot
  kind : report'.kind = report.kind
  key : report'.key = report.key
  outcome : report'.outcome = report.outcome
  sweep : report'.sweep = report.sweep
  values : List.Forall₂ (Entity.Mirrors C) report.values report'.values
  names : report'.names = report.names

namespace Node.Mirrors

variable {node node' : Node}

theorem values (h : node.Mirrors C node') : List.Forall₂ (Entity.Mirrors C)
    (node.published.elim [] Published.values) (node'.published.elim [] Published.values) :=
  optionRel_elim h.published .nil fun _ _ => Published.Mirrors.values

theorem outcome (h : node.Mirrors C node') (prune : Bool) :
    node'.outcome prune = node.outcome prune := by
  have hpublished := h.published
  unfold Node.outcome
  rw [Node.isPruned, Node.isPruned, h.pending]
  revert hpublished
  generalize node.published = published
  generalize node'.published = published'
  intro hpublished
  cases hpublished with
  | none => rfl
  | some hpublished =>
    dsimp only
    rw [forall₂_isEmpty hpublished.values]

theorem sweep (h : node.Mirrors C node') :
    node'.published.map (·.sweep) = node.published.map (·.sweep) :=
  (optionRel_eq (optionRel_map h.published fun _ _ hpublished => hpublished.sweep.symm)).symm

theorem report (h : node.Mirrors C node') (hC : Relator.BiUnique C) {resolver : Resolver σ}
    {resolver' : Resolver τ} (hresolver : resolver.Mirrors C R resolver') (prune : Bool)
    (slot : Slot) :
    Lockstep R (Report.Mirrors C) (node.report resolver prune slot)
      (node'.report resolver' prune slot) := by
  unfold Node.report
  dsimp only
  rw [h.key]
  split
  · refine (hresolver.describeAll hC h.values).bindEq fun names => .pure ?_
    exact ⟨rfl, h.kind, rfl, h.outcome prune, h.sweep, h.values, rfl⟩
  · refine Lockstep.bindEq (.pure rfl) fun names => .pure ?_
    exact ⟨rfl, h.kind, rfl, h.outcome prune, h.sweep, h.values, rfl⟩

end Node.Mirrors

theorem Node.reports_lockstep (hC : Relator.BiUnique C) {resolver : Resolver σ}
    {resolver' : Resolver τ} (hresolver : resolver.Mirrors C R resolver') (prune : Bool)
    {nodes nodes' : List Node} (hnodes : List.Forall₂ (Node.Mirrors C) nodes nodes')
    (slot : Slot) :
    Lockstep R (List.Forall₂ (Report.Mirrors C)) (Node.reports resolver prune slot nodes)
      (Node.reports resolver' prune slot nodes') := by
  induction hnodes generalizing slot with
  | nil => exact .pure .nil
  | cons hnode _ ih =>
    unfold Node.reports
    refine (hnode.report hC hresolver prune slot).bind fun here here' hhere => ?_
    exact (ih (slot + 1)).bind fun others others' hothers => .pure (.cons hhere hothers)

end Metamatch
