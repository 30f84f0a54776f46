import Metamatch.Proofs.Surroundings

/-!
# Minutes of the surroundings

The policy is told of what went wrong, and the failures of a run are what it said. To tell that
nothing is lost or made up, the answers that failures go back to are noted one by one, with the
verdicts on them.

* `Entry`, `Note`: an answer of the surroundings, and the matcher that it concerns.
* `Host.Minuted`: surroundings that keep minutes of such answers.
* `Host.Noted`: the answers on the way from one state of the surroundings to another.
* `Host.Noted.minuted`: minutes hold them and no others.
* `Trace.Since`: the notes between two traces, of which the verdicts are the failures on record.
-/

namespace Metamatch

variable {σ ε α : Type}

/-! ## Entries -/

/-- An answer that a failure may go back to: the answer to a question for a class by its name, the
call of an observer, which may have crashed, or a verdict on the text of a failure. -/
inductive Entry
  | load (name : String) (answer : Except Mishap ClassId)
  | call (number : Nat) (values : List Entity) (crash? : Option Payload)
  | verdict (text : String) (decision : Decision)

/-- An entry with the matcher that it concerns. -/
structure Note where
  slot : Slot
  entry : Entry

/-- A verdict is on record as a failure of its matcher. -/
def Note.failure? (note : Note) : Option Failure :=
  match note.entry with
  | .verdict text decision => some ⟨note.slot, text, decision⟩
  | .load _ _ | .call _ _ _ => none

/-- A question that is not noted takes the surroundings from one state to another: any but one for a
class by its name. -/
inductive Resolver.Asked (resolver : Resolver σ) : σ → σ → Prop
  | className (id : ClassId) (world : σ) :
    Asked resolver world (resolver.className id world : Except Mishap String × σ).2
  | classModifiers (id : ClassId) (world : σ) :
    Asked resolver world (resolver.classModifiers id world : Except Mishap Modifiers × σ).2
  | superclass (id : ClassId) (world : σ) :
    Asked resolver world (resolver.superclass id world : Except Mishap (Option ClassId) × σ).2
  | interfaces (id : ClassId) (world : σ) :
    Asked resolver world (resolver.interfaces id world : Except Mishap (List ClassId) × σ).2
  | fields (id : ClassId) (world : σ) :
    Asked resolver world (resolver.fields id world : Except Mishap (List FieldInfo) × σ).2
  | methods (id : ClassId) (world : σ) :
    Asked resolver world (resolver.methods id world : Except Mishap (List MethodInfo) × σ).2
  | constructors (id : ClassId) (world : σ) :
    Asked resolver world (resolver.constructors id world : Except Mishap (List ConstructorInfo) × σ).2

/-- A resolver that knows no class by its name, and else answers as another one. -/
def Resolver.unnamed (resolver : Resolver σ) : Resolver σ :=
  { resolver with loadClass := fun _ => throw (.crash .other) }

theorem Resolver.Asked.keeps {resolver : Resolver σ} {world world' : σ} {P : σ → Prop}
    (h : resolver.Asked world world') (hP : resolver.unnamed.Answers P fun _ => P) (hw : P world) :
    P world' := by
  cases h with
  | className id => exact Keeps.state (hP.className id) hw
  | classModifiers id => exact Keeps.state (hP.classModifiers id) hw
  | superclass id => exact Keeps.state (hP.superclass id) hw
  | interfaces id => exact Keeps.state (hP.interfaces id) hw
  | fields id => exact Keeps.state (hP.fields id) hw
  | methods id => exact Keeps.state (hP.methods id) hw
  | constructors id => exact Keeps.state (hP.constructors id) hw

namespace Host

/-- A policy that never crashes. Its verdicts may depend on the history. -/
def Decides (host : Host σ) : Prop :=
  ∀ text world, ∃ decision, (host.judge text world : Except Payload Decision × σ).1 = .ok decision

/-- The state of a host holds minutes of the answers, to which nothing else adds. -/
structure Minuted (host : Host σ) (minutes : σ → List Entry) : Prop where
  loadClass : ∀ name world,
    minutes (host.resolver.loadClass name world : Except Mishap ClassId × σ).2 = minutes world ++
      [.load name (host.resolver.loadClass name world : Except Mishap ClassId × σ).1]
  others : ∀ entries,
    host.resolver.unnamed.Answers (minutes · = entries) fun _ => (minutes · = entries)
  judge : ∀ text world,
    minutes (host.judge text world : Except Payload Decision × σ).2 = minutes world ++
      ((host.judge text world : Except Payload Decision × σ).1.toOption.map (.verdict text)).toList
  observe : ∀ number values world,
    minutes (host.observe number values world : Option Payload × σ).2 = minutes world ++
      [.call number values (host.observe number values world : Option Payload × σ).1]

end Host

/-- An answer that a host gives in some state. -/
def Entry.Real (host : Host σ) : Entry → Prop
  | .load name answer =>
    ∃ world, (host.resolver.loadClass name world : Except Mishap ClassId × σ).1 = answer
  | .call number values crash? =>
    ∃ world, (host.observe number values world : Option Payload × σ).1 = crash?
  | .verdict text decision =>
    ∃ world, (host.judge text world : Except Payload Decision × σ).1 = .ok decision

/-- From one state to another, a host gives these answers, one after the other, each in the state
that the one before it has left. Between them it answers at most questions that are not noted. -/
inductive Host.Noted (host : Host σ) : σ → List Entry → σ → Prop
  | refl (world : σ) : Noted host world [] world
  | load (name : String) {world : σ} {entries : List Entry} {world' : σ} :
    Noted host (host.resolver.loadClass name world : Except Mishap ClassId × σ).2 entries world' →
      Noted host world
        (.load name (host.resolver.loadClass name world : Except Mishap ClassId × σ).1 :: entries)
        world'
  | call (number : Nat) (values : List Entity) {world : σ} {entries : List Entry} {world' : σ} :
    Noted host (host.observe number values world : Option Payload × σ).2 entries world' →
      Noted host world (.call number values
        (host.observe number values world : Option Payload × σ).1 :: entries) world'
  | verdict {text : String} {decision : Decision} {world : σ} {entries : List Entry} {world' : σ} :
    (host.judge text world : Except Payload Decision × σ).1 = .ok decision →
      Noted host (host.judge text world : Except Payload Decision × σ).2 entries world' →
        Noted host world (.verdict text decision :: entries) world'
  | other {world between : σ} {entries : List Entry} {world' : σ} :
    host.resolver.Asked world between → Noted host between entries world' →
      Noted host world entries world'

namespace Host

variable {host : Host σ} {world between world' : σ} {entries more : List Entry}

theorem Noted.trans (h : host.Noted world entries between) (h' : host.Noted between more world') :
    host.Noted world (entries ++ more) world' := by
  induction h with
  | refl => exact h'
  | load name _ ih => exact .load name (ih h')
  | call number values _ ih => exact .call number values (ih h')
  | verdict hjudge _ ih => exact .verdict hjudge (ih h')
  | other hasked _ ih => exact .other hasked (ih h')

theorem Noted.real (h : host.Noted world entries world') : ∀ entry ∈ entries, entry.Real host := by
  induction h with
  | refl => exact List.forall_mem_nil _
  | load name _ ih => exact List.forall_mem_cons.2 ⟨⟨_, rfl⟩, ih⟩
  | call number values _ ih => exact List.forall_mem_cons.2 ⟨⟨_, rfl⟩, ih⟩
  | verdict hjudge _ ih => exact List.forall_mem_cons.2 ⟨⟨_, hjudge⟩, ih⟩
  | other _ _ ih => exact ih

/-- Minutes that the host keeps go on with what is noted. -/
theorem Noted.minuted (h : host.Noted world entries world') {minutes : σ → List Entry}
    (hminutes : host.Minuted minutes) : minutes world' = minutes world ++ entries := by
  induction h with
  | refl => exact (List.append_nil _).symm
  | load name _ ih => rw [ih, hminutes.loadClass, List.append_assoc, List.singleton_append]
  | call number values _ ih => rw [ih, hminutes.observe, List.append_assoc, List.singleton_append]
  | verdict hjudge _ ih =>
    rw [ih, hminutes.judge, hjudge, List.append_assoc]
    rfl
  | other hasked _ ih => rw [ih, hasked.keeps (hminutes.others _) rfl]

variable (host)

theorem load_noted (name : String) (world : σ) :
    host.Noted world [.load name (host.resolver.loadClass name world : Except Mishap ClassId × σ).1]
      (host.resolver.loadClass name world : Except Mishap ClassId × σ).2 :=
  .load name (.refl _)

theorem observe_noted (number : Nat) (values : List Entity) (world : σ) :
    host.Noted world
      [.call number values (host.observe number values world : Option Payload × σ).1]
      (host.observe number values world : Option Payload × σ).2 :=
  .call number values (.refl _)

variable {host}

/-- A policy that never crashes comes to a verdict, which is noted. -/
theorem Decides.judge_noted (h : host.Decides) (text : String) (world : σ) :
    ∃ decision world', host.judge text world = (.ok decision, world') ∧
      host.Noted world [.verdict text decision] world' := by
  obtain ⟨decision, hdecision⟩ := h text world
  exact ⟨decision, (host.judge text world : Except Payload Decision × σ).2, Prod.ext hdecision rfl,
    .verdict hdecision (.refl _)⟩

theorem unnamed_answers (host : Host σ) (world : σ) (entries : List Entry) :
    host.resolver.unnamed.Answers (host.Noted world entries) fun _ =>
      host.Noted world entries := by
  have hquiet : ∀ {between after : σ}, host.Noted world entries between →
      host.resolver.Asked between after → host.Noted world entries after := by
    intro between after hw hasked
    have hstep := hw.trans (.other hasked (.refl after))
    rwa [List.append_nil] at hstep
  constructor
  case loadClass => exact fun _ _ hw => hw
  case className => exact fun id => Keeps.of_state fun w hw => hquiet hw (.className id w)
  case classModifiers => exact fun id => Keeps.of_state fun w hw => hquiet hw (.classModifiers id w)
  case superclass => exact fun id => Keeps.of_state fun w hw => hquiet hw (.superclass id w)
  case interfaces => exact fun id => Keeps.of_state fun w hw => hquiet hw (.interfaces id w)
  case fields => exact fun id => Keeps.of_state fun w hw => hquiet hw (.fields id w)
  case methods => exact fun id => Keeps.of_state fun w hw => hquiet hw (.methods id w)
  case constructors => exact fun id => Keeps.of_state fun w hw => hquiet hw (.constructors id w)

end Host

/-! ## Traces -/

/-- Between two traces these notes were made: the verdicts among them are on record as failures. -/
structure Trace.Since (host : Host σ) (start : Trace σ) (notes : List Note) (trace : Trace σ) : Prop
    where
  failures : trace.failures = start.failures ++ notes.filterMap Note.failure?
  noted : host.Noted start.world (notes.map (·.entry)) trace.world

namespace Trace.Since

variable {host : Host σ} {start trace trace' : Trace σ} {notes more : List Note}

theorem refl (host : Host σ) (trace : Trace σ) : trace.Since host [] trace :=
  ⟨(List.append_nil _).symm, .refl trace.world⟩

theorem trans (h : start.Since host notes trace) (h' : trace.Since host more trace') :
    start.Since host (notes ++ more) trace' where
  failures := by
    rw [h'.failures, h.failures, List.filterMap_append, List.append_assoc]
  noted := by
    rw [List.map_append]
    exact h.noted.trans h'.noted

theorem answered (h : start.Since host notes trace) (more : List Note) {world : σ}
    (hnoted : host.Noted trace.world (more.map (·.entry)) world)
    (hmore : ∀ note ∈ more, note.failure? = none) :
    start.Since host (notes ++ more) { trace with world } := by
  refine h.trans ⟨?_, hnoted⟩
  rw [List.filterMap_eq_nil_iff.2 hmore, List.append_nil]

theorem consult (h : start.Since host notes trace) (hdecides : host.Decides) (slot : Slot)
    (text : String) : ∃ decision trace', trace.consult host slot text = (.ok decision, trace') ∧
      start.Since host (notes ++ [⟨slot, .verdict text decision⟩]) trace' := by
  obtain ⟨decision, world, hjudge, hnoted⟩ := hdecides.judge_noted text trace.world
  exact ⟨decision, _, Trace.consult_of_judge hjudge, h.trans ⟨rfl, hnoted⟩⟩

end Trace.Since

namespace Task

open Trace (Since)

variable {host : Host σ} {start : Trace σ} {notes : List Note}

theorem ask_since {call : Call σ α}
    (h : ∀ world entries, Keeps (host.Noted world entries) call) :
    Leads (Since host start notes) (ask call)
      (fun a trace => (∃ world, (call world : Except Mishap α × σ).1 = .ok a) ∧
        start.Since host notes trace)
      fun e trace => (∃ mishap, e = .ofMishap mishap ∧
        ∃ world, (call world : Except Mishap α × σ).1 = .error mishap) ∧
        start.Since host notes trace := by
  intro trace ht
  have hnoted := h start.world _ trace.world ht.noted
  refine ask_ends ((hnoted.and (.self _)).mono ?_ ?_)
  · rintro a world ⟨hnoted, hcall⟩
    exact ⟨⟨trace.world, congrArg Prod.fst hcall⟩, ht.failures, hnoted⟩
  · rintro mishap world ⟨hnoted, hcall⟩
    exact ⟨⟨mishap, rfl, trace.world, congrArg Prod.fst hcall⟩, ht.failures, hnoted⟩

theorem load_since (slot : Slot) (name : String) :
    Leads (Since host start notes) (attempt (host.resolver.loadClass name))
      (fun answer => Since host start
        (notes ++ [⟨slot, .load name (answer.mapError .error)⟩]))
      fun e trace => ∃ payload, e = .ofPayload payload ∧
        Since host start (notes ++ [⟨slot, .load name (.error (.crash payload))⟩]) trace := by
  intro trace ht
  have hsince : ∀ answer world,
      host.Noted trace.world [.load name answer] world →
        start.Since host (notes ++ [⟨slot, .load name answer⟩]) { trace with world } :=
    fun answer world hnoted => ht.answered _ hnoted (List.forall_mem_singleton.2 rfl)
  have hload : Leads (· = trace.world) (host.resolver.loadClass name)
      (fun id => host.Noted trace.world [.load name (.ok id)])
      fun mishap => host.Noted trace.world [.load name (.error mishap)] := by
    rintro _ rfl
    exact .of_outcome (S := fun answer => host.Noted trace.world [.load name answer])
      (host.load_noted name trace.world)
  refine attempt_ends ((Call.attempt_leads hload trace.world rfl).mono ?_ ?_)
  · rintro (e | id) world hnoted
    · exact hsince _ world hnoted
    · exact hsince _ world hnoted
  · exact fun payload world hnoted => ⟨payload, rfl, hsince _ world hnoted⟩

theorem consult_since (h : host.Decides) (slot : Slot) (text : String) :
    Leads (Since host start notes) (consult host slot text)
      (fun decision => Since host start (notes ++ [⟨slot, .verdict text decision⟩]))
      fun _ _ => False := by
  intro trace ht
  obtain ⟨decision, trace', hconsult, hsince⟩ := ht.consult h slot text
  unfold consult
  rw [hconsult]
  exact hsince

end Task

end Metamatch
