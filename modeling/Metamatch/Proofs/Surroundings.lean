import Metamatch.Proofs.Computation
import Metamatch.Run

/-!
# The surroundings of a run

A run asks its surroundings one question after the other. What is true of every single one is true
of what the run makes of them.

* `Resolver.Answers`: what every question to a resolver leads to.
* `Host.Preserves`: a condition on the surroundings that neither answers nor verdicts affect.
* `Host.Preserves.search`, `Host.Preserves.gather`, `Host.Preserves.reports`: nor do searches, the
  values of an earlier result, and reports.
-/

namespace Metamatch

variable {σ α : Type}

/-! ## Answers -/

theorem Call.attempt_leads {call : Call σ α} {P : σ → Prop} {Q : α → σ → Prop}
    {E : Mishap → σ → Prop} (h : Leads P call Q E) :
    Leads P call.attempt (fun answer u => Ends Q (fun e => E (.error e)) (answer, u))
      fun payload => E (.crash payload) := by
  intro world hw
  have hcall := h world hw
  revert hcall
  simp only [attempt, ExceptT.run, StateT.run, Id.run]
  generalize (call world : Except Mishap α × σ) = r
  rcases r with ⟨(e | payload) | a, u⟩ <;> exact id

/-- Every question asked where `P` holds is answered, and `P` holds on, or fails with `E`. -/
structure Resolver.Answers (resolver : Resolver σ) (P : σ → Prop) (E : Mishap → σ → Prop) : Prop
    where
  loadClass : ∀ name, Leads P (resolver.loadClass name) (fun _ => P) E
  className : ∀ id, Leads P (resolver.className id) (fun _ => P) E
  classModifiers : ∀ id, Leads P (resolver.classModifiers id) (fun _ => P) E
  superclass : ∀ id, Leads P (resolver.superclass id) (fun _ => P) E
  interfaces : ∀ id, Leads P (resolver.interfaces id) (fun _ => P) E
  fields : ∀ id, Leads P (resolver.fields id) (fun _ => P) E
  methods : ∀ id, Leads P (resolver.methods id) (fun _ => P) E
  constructors : ∀ id, Leads P (resolver.constructors id) (fun _ => P) E

namespace Resolver.Answers

variable {resolver : Resolver σ} {P : σ → Prop} {E : Mishap → σ → Prop}

theorem pass (h : resolver.Answers P E) (checks : Scan.ClassChecks) (id : ClassId) :
    Leads P (checks.pass resolver id) (fun _ => P) E := by
  have hpure : ∀ answer, Leads P (pure answer : Call σ Bool) (fun _ => P) E :=
    fun _ => .pure fun _ hw => hw
  unfold Scan.ClassChecks.pass
  refine (h.classModifiers id).bind fun modifiers => ?_
  split
  · refine Leads.bind (Q := fun _ => P) ?_ fun passes => ?_
    · unfold Scan.ClassChecks.pass.superclassPasses
      split
      · exact hpure true
      · exact (h.superclass id).bind fun _ => hpure _
    · split
      · unfold Scan.ClassChecks.pass.interfacesPass
        split
        · exact hpure true
        · exact (h.interfaces id).bind fun _ => hpure _
      · exact hpure false
  · exact hpure false

theorem members (h : resolver.Answers P E) (kind : Kind) (owner : ClassId) :
    Leads P (kind.members resolver owner) (fun _ => P) E := by
  cases kind with
  | field => exact (h.fields owner).bind fun _ => .pure fun _ hw => hw
  | method => exact (h.methods owner).bind fun _ => .pure fun _ hw => hw
  | constructor => exact (h.constructors owner).bind fun _ => .pure fun _ hw => hw
  | cls | text | parameter => exact .pure fun _ hw => hw

theorem signature (h : resolver.Answers P E) (candidate : Candidate) :
    Leads P (candidate.signature resolver) (fun _ => P) E := by
  have hnames : ∀ ids : List ClassId,
      Leads P (ids.mapM resolver.className) (fun _ => P) E := by
    intro ids
    induction ids with
    | nil => exact .pure fun _ hw => hw
    | cons id rest ih =>
      rw [List.mapM_cons]
      exact (h.className id).bind fun name => ih.bind fun names => .pure fun _ hw => hw
  unfold Candidate.signature
  refine Leads.bind (Q := fun _ => P) ?_ fun parameters => Leads.bind (Q := fun _ => P) ?_
    fun valueType => .pure fun _ hw => hw
  · cases candidate.parameters with
    | none => exact .pure fun _ hw => hw
    | some types => exact (hnames types).bind fun _ => .pure fun _ hw => hw
  · cases candidate.valueType with
    | none => exact .pure fun _ hw => hw
    | some type => exact (h.className type).bind fun _ => .pure fun _ hw => hw

theorem locate (h : resolver.Answers P E) (name : EntityName) (like : Entity) :
    Leads P (name.locate resolver like) (fun _ => P) E := by
  have hsigned : ∀ (signature : String) (candidates : List Candidate),
      Leads P (EntityName.findSigned resolver signature candidates) (fun _ => P) E := by
    intro signature candidates
    induction candidates with
    | nil => exact .pure fun _ hw => hw
    | cons candidate rest ih =>
      unfold EntityName.findSigned
      refine (h.signature candidate).bind fun found => ?_
      split
      · exact .pure fun _ hw => hw
      · exact ih
  unfold EntityName.locate
  refine (h.loadClass name.cls).bind fun id => ?_
  split <;> first
    | exact .pure fun _ hw => hw
    | exact (h.members _ id).bind fun members => hsigned _ members

theorem describe (h : resolver.Answers P E) (entity : Entity) :
    Leads P (entity.describe resolver) (fun _ => P) E := by
  unfold Entity.describe
  split <;> first
    | exact (h.className _).bind fun _ => .pure fun _ hw => hw
    | refine (h.members _ _).bind fun candidates => ?_
      split
      · exact .pure fun _ hw => hw
      · next candidate _ =>
        refine (h.className _).bind fun cls => ?_
        exact (h.signature candidate).bind fun _ => .pure fun _ hw => hw

end Resolver.Answers

/-! ## Surroundings that keep a condition -/

/-- A condition on the state of a host that neither answers nor verdicts affect. Observers may. -/
structure Host.Preserves (host : Host σ) (P : σ → Prop) : Prop where
  loadClass : ∀ name, Keeps P (host.resolver.loadClass name)
  className : ∀ id, Keeps P (host.resolver.className id)
  classModifiers : ∀ id, Keeps P (host.resolver.classModifiers id)
  superclass : ∀ id, Keeps P (host.resolver.superclass id)
  interfaces : ∀ id, Keeps P (host.resolver.interfaces id)
  fields : ∀ id, Keeps P (host.resolver.fields id)
  methods : ∀ id, Keeps P (host.resolver.methods id)
  constructors : ∀ id, Keeps P (host.resolver.constructors id)
  judge : ∀ message, Keeps P (host.judge message)

theorem Host.Preserves.answers {host : Host σ} {P : σ → Prop} (h : host.Preserves P) :
    host.resolver.Answers P fun _ => P :=
  { h with }

theorem Call.attempt_keeps {P : σ → Prop} {call : Call σ α} (h : Keeps P call) :
    Keeps P call.attempt :=
  (attempt_leads h).weaken (fun _ hw => hw) (fun answer _ hw => by cases answer <;> exact hw)
    fun _ _ hw => hw

/-- A condition on the surroundings, as one on a trace. -/
def Trace.Within (P : σ → Prop) (trace : Trace σ) : Prop := P trace.world

namespace Task

variable {P : σ → Prop} {call : Call σ α}

theorem ask_keeps (h : Keeps P call) : Keeps (Trace.Within P) (ask call) :=
  fun trace ht => ask_ends (h trace.world ht)

theorem attempt_keeps (h : Keeps P call) : Keeps (Trace.Within P) (attempt call) :=
  fun trace ht => attempt_ends (Call.attempt_keeps h trace.world ht)

theorem consult_keeps {host : Host σ} {message : String} (h : Keeps P (host.judge message))
    (slot : Slot) : Keeps (Trace.Within P) (consult host slot message) :=
  fun trace ht => consult_ends (h trace.world ht)

theorem ofExcept_keeps {P : Trace σ → Prop} (value : Except Payload α) :
    Keeps P (ofExcept value : Task σ α) := by
  intro trace ht
  cases value <;> exact ht

end Task

namespace Host.Preserves

variable {host : Host σ} {P : σ → Prop} {g : Graph} {c : Constraints}

theorem walk (h : host.Preserves P) (slot : Slot) (matchFirst : Bool)
    (checks : Scan.ClassChecks) (names : List String) :
    Keeps (Trace.Within P) (Scan.walk host slot matchFirst checks names) := by
  induction names with
  | nil => exact .pure fun _ ht => ht
  | cons name rest ih =>
    unfold Scan.walk
    refine (Task.attempt_keeps (h.loadClass name)).bind fun answer => ?_
    cases answer with
    | error e =>
      refine (Task.consult_keeps (h.judge e.message) slot).bind fun decision => ?_
      cases decision with
      | proceed => exact ih
      | abort => exact .pure fun _ ht => ht
    | ok id =>
      refine (Task.ask_keeps (h.answers.pass checks id)).bind fun passes => ?_
      split
      · split
        · exact .pure fun _ ht => ht
        · exact ih.bind fun _ => .pure fun _ ht => ht
      · exact ih

theorem scanMembers (h : host.Preserves P) (kind : Kind) :
    Keeps (Trace.Within P) (Scan.members host g kind c) := by
  unfold Scan.members
  refine (Task.ofExcept_keeps _).bind fun owner => ?_
  cases owner with
  | none => exact .pure fun _ ht => ht
  | some owner =>
    refine (Task.ofExcept_keeps _).bind fun valueType => ?_
    refine (Task.ofExcept_keeps _).bind fun parameterTypes => ?_
    exact (Task.ask_keeps (h.answers.members kind owner)).bind fun _ => .pure fun _ ht => ht

theorem search {ctx : RunContext σ} (h : ctx.host.Preserves P) (slot : Slot) (node : Node) :
    Keeps (Trace.Within P) (Run.search ctx g slot node) := by
  have hclasses : ∀ c, Keeps (Trace.Within P) (Scan.classes ctx.host ctx.catalog g slot c) := by
    intro c
    unfold Scan.classes
    refine (Task.ofExcept_keeps _).bind fun superclass => ?_
    refine (Task.ofExcept_keeps _).bind fun interfaces => ?_
    exact h.walk slot _ _ _
  unfold Run.search Run.scan
  split
  · exact .pure fun _ ht => ht
  · split
    · exact hclasses _
    · exact h.scanMembers _
    · exact h.scanMembers _
    · exact h.scanMembers _
    · exact .pure fun _ ht => ht
    · exact .pure fun _ ht => ht

theorem gather (h : host.Preserves P) (last : MatchResult) (g : Graph) (slots : List Slot) :
    Keeps P (Seed.gather host.resolver last g slots) := by
  have hlocate : ∀ items, Keeps P (EntityName.locateAll host.resolver items) := by
    intro items
    induction items with
    | nil => exact .pure fun _ hw => hw
    | cons item rest ih =>
      unfold EntityName.locateAll
      refine (Call.attempt_keeps (h.answers.locate item.2 item.1)).bind fun answer => ?_
      split
      · exact ih.bind fun _ => .pure fun _ hw => hw
      · exact .pure fun _ hw => hw
      · exact .pure fun _ hw => hw
  have hrelocate : ∀ report : Report, Keeps P (report.relocate host.resolver) := by
    intro report
    unfold Report.relocate
    split
    · exact hlocate _
    · exact .pure fun _ hw => hw
  induction slots with
  | nil => exact .pure fun _ hw => hw
  | cons s rest ih =>
    unfold Seed.gather
    split
    · exact ih
    · next report _ =>
      refine (hrelocate report).bind fun found => ?_
      cases found with
      | none => exact ih
      | some values => exact ih.bind fun _ => .pure fun _ hw => hw

theorem reports (h : host.Preserves P) (prune : Bool) (slot : Slot) (nodes : List Node) :
    Keeps P (Node.reports host.resolver prune slot nodes) := by
  have hdescribe : ∀ values, Keeps P (Entity.describeAll host.resolver values) := by
    intro values
    induction values with
    | nil => exact .pure fun _ hw => hw
    | cons value rest ih =>
      unfold Entity.describeAll
      refine (Call.attempt_keeps (h.answers.describe value)).bind fun answer => ?_
      split
      · exact ih.bind fun _ => .pure fun _ hw => hw
      · exact .pure fun _ hw => hw
      · exact .pure fun _ hw => hw
  induction nodes generalizing slot with
  | nil => exact .pure fun _ hw => hw
  | cons node rest ih =>
    unfold Node.reports
    refine Leads.bind (Q := fun _ => P) ?_ fun here => (ih _).bind fun _ => .pure fun _ hw => hw
    unfold Node.report
    dsimp only
    split
    · exact (hdescribe _).bind fun _ => .pure fun _ hw => hw
    · exact Leads.bind (Q := fun _ => P) (.pure fun _ hw => hw) fun _ => .pure fun _ hw => hw

end Host.Preserves

end Metamatch
