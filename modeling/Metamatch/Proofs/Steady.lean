import Metamatch.Proofs.Computation
import Metamatch.Registry
import Metamatch.Seed
import Metamatch.Sweep

/-!
# Hosts with fixed answers

* `Alike`, `Constant`: outcomes that do not depend on the surroundings.
* `Host.Steady`: a host whose answers and verdicts are always the same.
* `Host.Steady.scan_alike`: with such a host a scan always comes to the same.
* `Host.Steady.gather_leads`: and so do the values of an earlier result, whatever the order.
-/

namespace Metamatch

variable {σ τ ε α β : Type}

/-- The outcomes of two computations are the same, whatever states they start from. -/
def Alike (x y : ExceptT ε (StateM τ) α) : Prop :=
  ∀ t u, (x t : Except ε α × τ).1 = (y u : Except ε α × τ).1

/-- The outcome of a computation does not depend on the state that it starts from. -/
abbrev Constant (x : ExceptT ε (StateM τ) α) : Prop := Alike x x

namespace Alike

theorem pure (a : α) : Alike (Pure.pure a : ExceptT ε (StateM τ) α) (Pure.pure a) := fun _ _ => rfl

theorem bind {x y : ExceptT ε (StateM τ) α} {f g : α → ExceptT ε (StateM τ) β} (hx : Alike x y)
    (hf : ∀ a, Alike (f a) (g a)) : Alike (x >>= f) (y >>= g) := by
  intro t u
  have h := hx t u
  rw [bind_apply, bind_apply]
  revert h
  generalize (x t : Except ε α × τ) = r
  generalize (y u : Except ε α × τ) = r'
  rcases r with ⟨e | a, t'⟩ <;> rcases r' with ⟨e' | a', u'⟩ <;> intro h <;> cases h
  · rfl
  · exact hf a t' u'

theorem map {x y : ExceptT ε (StateM τ) α} (hx : Alike x y) (f : α → β) :
    Alike (f <$> x) (f <$> y) := by
  intro t u
  rw [map_apply, map_apply, hx t u]

end Alike

/-- A host whose resolver answers by the arguments alone, if only with an error or a crash, and
whose verdicts depend on nothing but the failure. Observers may do as they like. -/
structure Host.Steady (host : Host σ) : Prop where
  loadClass : ∀ name, Constant (host.resolver.loadClass name)
  className : ∀ id, Constant (host.resolver.className id)
  classModifiers : ∀ id, Constant (host.resolver.classModifiers id)
  superclass : ∀ id, Constant (host.resolver.superclass id)
  interfaces : ∀ id, Constant (host.resolver.interfaces id)
  fields : ∀ id, Constant (host.resolver.fields id)
  methods : ∀ id, Constant (host.resolver.methods id)
  constructors : ∀ id, Constant (host.resolver.constructors id)
  judge : ∀ message, Constant (host.judge message)

theorem Call.ofExcept_constant (answer : Except LookupError α) :
    Constant (Call.ofExcept answer : Call σ α) := by
  intro _ _
  cases answer <;> rfl

theorem Call.attempt_constant {call : Call σ α} (h : Constant call) : Constant call.attempt := by
  intro world world'
  have h := h world world'
  simp only [Call.attempt, ExceptT.run, StateT.run, Id.run]
  revert h
  generalize (call world : Except Mishap α × σ) = r
  generalize (call world' : Except Mishap α × σ) = r'
  rcases r with ⟨(e | payload) | a, u⟩ <;> rcases r' with ⟨_ | _, u'⟩ <;> intro h <;> cases h <;>
    rfl

theorem Registry.steady {host : Host σ} (registry : Registry)
    (hresolver : host.resolver = registry.resolver)
    (hjudge : ∀ message, Constant (host.judge message)) : host.Steady := by
  constructor
  case judge => exact hjudge
  all_goals
    intro _
    rw [hresolver]
    exact Call.ofExcept_constant _

namespace Task

variable {call : Call σ α}

theorem ask_constant (h : Constant call) : Constant (ask call) := by
  intro trace trace'
  exact congrArg (Except.mapError TaskError.ofMishap) (h trace.world trace'.world)

theorem attempt_constant (h : Constant call) : Constant (attempt call) := by
  intro trace trace'
  exact congrArg (Except.mapError TaskError.ofPayload)
    (Call.attempt_constant h trace.world trace'.world)

theorem consult_alike {host : Host σ} {message : String} (h : Constant (host.judge message))
    (slot slot' : Slot) : Alike (consult host slot message) (consult host slot' message) := by
  intro trace trace'
  refine congrArg (Except.mapError TaskError.ofPayload) ?_
  have h := h trace.world trace'.world
  simp only [ExceptT.run, StateT.run, Id.run]
  revert h
  generalize (host.judge message trace.world : Except Payload Decision × σ) = r
  generalize (host.judge message trace'.world : Except Payload Decision × σ) = r'
  rcases r with ⟨_ | _, u⟩ <;> rcases r' with ⟨_ | _, u'⟩ <;> intro h <;> cases h <;> rfl

theorem ofExcept_constant (value : Except Payload α) :
    Constant (ofExcept value : Task σ α) := fun _ _ => rfl

end Task

namespace Host.Steady

variable {host : Host σ} {g : Graph} {c : Constraints}

theorem pass_constant (h : host.Steady) (checks : Scan.ClassChecks) (id : ClassId) :
    Constant (checks.pass host.resolver id) := by
  unfold Scan.ClassChecks.pass
  refine (h.classModifiers id).bind fun modifiers => ?_
  split
  · refine Alike.bind ?_ fun passes => ?_
    · unfold Scan.ClassChecks.pass.superclassPasses
      split
      · exact .pure true
      · exact (h.superclass id).bind fun _ => .pure _
    · split
      · unfold Scan.ClassChecks.pass.interfacesPass
        split
        · exact .pure true
        · exact (h.interfaces id).bind fun _ => .pure _
      · exact .pure false
  · exact .pure false

theorem walk_alike (h : host.Steady) (slot slot' : Slot) (matchFirst : Bool)
    (checks : Scan.ClassChecks) (names : List String) :
    Alike (Scan.walk host slot matchFirst checks names)
      (Scan.walk host slot' matchFirst checks names) := by
  induction names with
  | nil => exact .pure []
  | cons name rest ih =>
    unfold Scan.walk
    refine (Task.attempt_constant (h.loadClass name)).bind fun answer => ?_
    cases answer with
    | error e =>
      refine (Task.consult_alike (h.judge e.message) slot slot').bind fun decision => ?_
      cases decision with
      | proceed => exact ih
      | abort => exact .pure []
    | ok id =>
      refine (Task.ask_constant (h.pass_constant checks id)).bind fun passes => ?_
      split
      · split
        · exact .pure _
        · exact ih.bind fun _ => .pure _
      · exact ih

theorem classes_alike (h : host.Steady) (catalog : Catalog) (slot slot' : Slot) :
    Alike (Scan.classes host catalog g slot c) (Scan.classes host catalog g slot' c) := by
  unfold Scan.classes
  refine (Task.ofExcept_constant _).bind fun superclass => ?_
  refine (Task.ofExcept_constant _).bind fun interfaces => ?_
  exact h.walk_alike slot slot' _ _ _

theorem candidates_constant (h : host.Steady) (kind : Kind) (owner : ClassId) :
    Constant (kind.members host.resolver owner) := by
  cases kind with
  | field => exact (h.fields owner).map _
  | method => exact (h.methods owner).map _
  | constructor => exact (h.constructors owner).map _
  | cls | text | parameter => exact .pure []

theorem members_constant (h : host.Steady) (kind : Kind) :
    Constant (Scan.members host g kind c) := by
  unfold Scan.members
  refine (Task.ofExcept_constant _).bind fun owner => ?_
  cases owner with
  | none => exact .pure []
  | some owner =>
    refine (Task.ofExcept_constant _).bind fun valueType => ?_
    refine (Task.ofExcept_constant _).bind fun parameterTypes => ?_
    exact (Task.ask_constant (h.candidates_constant kind owner)).bind fun _ => .pure _

/-- What a scan comes to depends neither on the surroundings nor on the slot of its matcher. -/
theorem scan_alike {ctx : RunContext σ} (h : ctx.host.Steady) (slot slot' : Slot) (node : Node) :
    Alike (Run.scan ctx g slot node) (Run.scan ctx g slot' node) := by
  unfold Run.scan
  split
  · exact h.classes_alike ctx.catalog slot slot'
  · exact h.members_constant _
  · exact h.members_constant _
  · exact h.members_constant _
  · exact .pure []
  · exact .pure []

/-! ## Values of an earlier result -/

theorem mapM_className_constant (h : host.Steady) (ids : List ClassId) :
    Constant (ids.mapM host.resolver.className) := by
  induction ids with
  | nil => exact .pure []
  | cons id rest ih =>
    rw [List.mapM_cons]
    exact (h.className id).bind fun name => ih.bind fun names => .pure (name :: names)

theorem signature_constant (h : host.Steady) (candidate : Candidate) :
    Constant (candidate.signature host.resolver) := by
  unfold Candidate.signature
  refine Alike.bind ?_ fun parameters => Alike.bind ?_ fun valueType => .pure _
  · cases candidate.parameters with
    | none => exact .pure none
    | some types => exact (h.mapM_className_constant types).map some
  · cases candidate.valueType with
    | none => exact .pure none
    | some type => exact (h.className type).map some

theorem findSigned_constant (h : host.Steady) (signature : String) (candidates : List Candidate) :
    Constant (EntityName.findSigned host.resolver signature candidates) := by
  induction candidates with
  | nil => exact .pure none
  | cons candidate rest ih =>
    unfold EntityName.findSigned
    refine (h.signature_constant candidate).bind fun found => ?_
    split
    · exact .pure _
    · exact ih

theorem locate_constant (h : host.Steady) (name : EntityName) (like : Entity) :
    Constant (name.locate host.resolver like) := by
  unfold EntityName.locate
  refine (h.loadClass name.cls).bind fun id => ?_
  split <;> first
    | exact .pure _
    | exact (h.candidates_constant _ id).bind fun members => h.findSigned_constant _ members

theorem locateAll_constant (h : host.Steady) (items : List (Entity × EntityName)) :
    Constant (EntityName.locateAll host.resolver items) := by
  induction items with
  | nil => exact .pure _
  | cons item rest ih =>
    unfold EntityName.locateAll
    refine (Call.attempt_constant (h.locate_constant item.2 item.1)).bind fun answer => ?_
    split
    · exact ih.bind fun _ => .pure _
    · exact .pure none
    · exact .pure none

theorem relocate_constant (h : host.Steady) (report : Report) :
    Constant (report.relocate host.resolver) := by
  unfold Report.relocate
  split
  · exact h.locateAll_constant _
  · exact .pure none

end Host.Steady

theorem Alike.leads {x : ExceptT ε (StateM τ) α} (h : Constant x) (t : τ) :
    Leads (fun _ => True) x (fun a _ => (x t : Except ε α × τ).1 = .ok a)
      fun e _ => (x t : Except ε α × τ).1 = .error e := by
  intro u _
  have hu := h t u
  revert hu
  generalize (x u : Except ε α × τ) = r
  rcases r with ⟨e | a, u'⟩ <;> exact id

namespace Seed

/-- The values that the offer to a slot comes to. -/
def located (resolver : Resolver σ) (world : σ) (last : MatchResult) (g : Graph) (s : Slot) :
    Except Payload (Option (List Entity)) :=
  match (g.get? s).bind last.offer? with
  | none => .ok none
  | some report => (report.relocate resolver world : Except Payload (Option (List Entity)) × σ).1

/-- Each of the slots takes over what is located for it, and no other slot does. -/
structure Takes (located : Slot → Except Payload (Option (List Entity))) (slots : List Slot)
    (seeds : List (Slot × List Entity)) : Prop where
  taken : ∀ s ∈ slots, located s = .ok (seeds.lookup s)
  other : ∀ s ∉ slots, seeds.lookup s = none

namespace Takes

variable {located : Slot → Except Payload (Option (List Entity))} {slots : List Slot}
  {seeds : List (Slot × List Entity)} {s : Slot}

theorem skip (h : Takes located slots seeds) (hs : located s = .ok none) :
    Takes located (s :: slots) seeds where
  taken := by
    refine List.forall_mem_cons.2 ⟨?_, h.taken⟩
    by_cases hmem : s ∈ slots
    · exact h.taken s hmem
    · rw [hs, h.other s hmem]
  other t ht := h.other t fun hmem => ht (List.mem_cons_of_mem s hmem)

theorem cons (h : Takes located slots seeds) {values : List Entity}
    (hs : located s = .ok (some values)) :
    Takes located (s :: slots) ((s, values) :: seeds) where
  taken t ht := by
    by_cases hts : t = s
    · rw [hts, hs, List.lookup_cons_self]
    · rw [List.lookup_cons, beq_false_of_ne hts]
      exact h.taken t ((List.mem_cons.1 ht).resolve_left hts)
  other t ht := by
    rw [List.mem_cons, not_or] at ht
    rw [List.lookup_cons, beq_false_of_ne ht.1]
    exact h.other t ht.2

end Takes

end Seed

theorem Host.Steady.gather_leads {host : Host σ} (h : host.Steady) (world : σ)
    (last : MatchResult) (g : Graph) (slots : List Slot) :
    Leads (fun _ => True) (Seed.gather host.resolver last g slots)
      (fun seeds _ => Seed.Takes (Seed.located host.resolver world last g) slots seeds)
      fun _ _ => ∃ s ∈ slots, (Seed.located host.resolver world last g s).toOption = none := by
  induction slots with
  | nil => exact .pure fun _ _ => ⟨by simp, fun _ _ => rfl⟩
  | cons s rest ih =>
    have hskip : Seed.located host.resolver world last g s = .ok none →
        Leads (fun _ => True) (Seed.gather host.resolver last g rest)
          (fun seeds _ => Seed.Takes (Seed.located host.resolver world last g) (s :: rest) seeds)
          fun _ _ => ∃ t ∈ s :: rest,
            (Seed.located host.resolver world last g t).toOption = none := fun hs =>
      ih.weaken (fun _ => id) (fun _ _ h => h.skip hs)
        fun _ _ ⟨t, ht, he⟩ => ⟨t, List.mem_cons_of_mem s ht, he⟩
    unfold Seed.gather
    split
    · next hoffer => exact hskip (by rw [Seed.located, hoffer])
    · next report hoffer =>
      have hs : Seed.located host.resolver world last g s =
          (report.relocate host.resolver world : Except Payload _ × σ).1 := by
        rw [Seed.located, hoffer]
      have hrelocate := (h.relocate_constant report).leads world
      rw [← hs] at hrelocate
      refine (hrelocate.weaken (fun _ => id) (fun _ _ => id) fun e _ he =>
        ⟨s, List.mem_cons_self, by rw [he]; rfl⟩).bind fun found => ?_
      intro u hfound
      cases found with
      | none => exact hskip hfound u trivial
      | some values =>
        refine ((ih.weaken (fun _ => id) (fun _ _ => id) fun _ _ ⟨t, ht, he⟩ =>
          ⟨t, List.mem_cons_of_mem s ht, he⟩).bind fun seeds => .pure fun _ h => ?_) u trivial
        exact h.cons hfound

end Metamatch
