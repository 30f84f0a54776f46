import Metamatch.Proofs.Scans

/-!
# Scans for members

The parameter types of a member go into a test as one set, each type on its own and again at its
position. A test on that set says just what it would say of the list of the types itself.

* `Scan.comprises_parameterSet`: what is in that set.
* `Candidate.Meets`: the constraints that a member has to meet.
* `members_of_classes`: a scan for members comes to those that meet them.
-/

namespace Metamatch

variable {σ : Type}

/-! ## Tests on parameters -/

namespace Scan

variable {types : List ClassId} {cls : ClassId} {index : Nat}

theorem mem_parameterSet {entity : Entity} : entity ∈ parameterSet types ↔
    ∃ (index : Nat) (h : index < types.length),
      entity = .cls types[index] ∨ entity = .parameter index types[index] := by
  simp only [parameterSet, List.mem_flatten, List.mem_mapIdx]
  constructor
  · rintro ⟨_, ⟨index, h, rfl⟩, hentity⟩
    exact ⟨index, h, by simpa using hentity⟩
  · rintro ⟨index, h, hentity⟩
    exact ⟨_, ⟨index, h, rfl⟩, by simpa using hentity⟩

theorem cls_mem_parameterSet : .cls cls ∈ parameterSet types ↔ cls ∈ types := by
  rw [mem_parameterSet, List.mem_iff_getElem]
  refine exists_congr fun index => exists_congr fun h => ?_
  simp [eq_comm]

theorem parameter_mem_parameterSet : .parameter index cls ∈ parameterSet types ↔
    ∃ h : index < types.length, types[index] = cls := by
  rw [mem_parameterSet]
  constructor
  · rintro ⟨place, h, hcls | hparameter⟩
    · cases hcls
    · cases hparameter
      exact ⟨h, rfl⟩
  · rintro ⟨h, rfl⟩
    exact ⟨index, h, .inr rfl⟩

theorem comprises_parameterSet (types : List ClassId) :
    SetTest.Comprises (parameterSet types) types types :=
  ⟨cls_mem_parameterSet, parameter_mem_parameterSet⟩

end Scan

/-! ## Members that meet constraints -/

/-- The types of the parameters of a member, none if it is a field. -/
def Candidate.types (member : Candidate) : List ClassId := member.parameters.getD []

/-- A declared member meets the constraints of a matcher, by the classes found for the slots that
they refer to. A reference for which nothing was found asks for nothing, and neither does a test
that names such a slot. -/
@[mk_iff]
structure Candidate.Meets (found : Slot → List ClassId) (c : Constraints) (member : Candidate) :
    Prop where
  modifiers : c.modifiers.accepts member.modifiers = true
  name : ∀ filter ∈ c.name, ∀ name ∈ member.name, filter.accepts name = true
  valueType : ∀ slot ∈ c.valueType, ∀ cls ∈ (found slot).head?, member.valueType = some cls
  parameterCount : ∀ count ∈ c.parameterCount, member.types.length = count
  parameterTypes : ∀ test ∈ c.parameterTypes, (∀ slot ∈ test.leaves, found slot ≠ []) →
    test.Describes found member.types member.types

instance (found : Slot → List ClassId) (c : Constraints) (member : Candidate) :
    Decidable (member.Meets found c) :=
  decidable_of_iff _ (Candidate.meets_iff found c member).symm

/-- **The reference of a scan for members**: of the members that the class declares, those that meet
the constraints, or only the first of them. -/
def Constraints.matching (found : Slot → List ClassId) (c : Constraints)
    (declared : List Candidate) : List Entity :=
  if c.matchFirst then ((declared.find? (·.Meets found c)).map (·.entity)).toList
  else (declared.filter (·.Meets found c)).map (·.entity)

namespace Graph

variable {g : Graph} {found : Slot → List ClassId} {slots : List Slot}

theorem Finds.single {reference : Option Slot} (h : g.Finds found reference.toList) :
    g.single reference = .ok (reference >>= fun s => (found s).head?) := by
  rw [single_of_published fun s hs => Option.isSome_of_eq_some (h s hs)]
  cases reference with
  | none => rfl
  | some s => exact congrArg Except.ok (h.resolvedClass? (by simp))

/-- A test is passed over if nothing was found for one of its slots. -/
theorem Finds.active {test : Option SetTest} (h : g.Finds found (SetTest.slotsOf test)) :
    g.active test = .ok (test.filter fun test => test.leaves.all fun s => found s ≠ []) := by
  rw [active_of_published fun s hs => Option.isSome_of_eq_some (h s hs), h.filter_eq]

end Graph

namespace Scan

variable {g : Graph} {found : Slot → List ClassId} {c : Constraints}

/-- The checks of a scan for members, with the references read. -/
def memberChecks (g : Graph) (found : Slot → List ClassId) (c : Constraints) : MemberChecks where
  modifiers := c.modifiers
  name := c.name
  valueType := c.valueType >>= fun s => (found s).head?
  parameterCount := c.parameterCount
  parameterTypes :=
    (c.parameterTypes.filter fun test => test.leaves.all fun s => found s ≠ []).map
      fun test set => test.holds g.valuation set

/-- What is left of a test says of a member what the test does, unless it is passed over. -/
theorem activeTest_iff (h : g.Finds found (SetTest.slotsOf c.parameterTypes))
    (types : List ClassId) :
    ((memberChecks g found c).parameterTypes.all fun test => test (parameterSet types)) = true ↔
      ∀ test ∈ c.parameterTypes, (∀ slot ∈ test.leaves, found slot ≠ []) →
        test.Describes found types types := by
  unfold memberChecks
  cases htest : c.parameterTypes with
  | none => simp
  | some test =>
    rw [htest] at h
    have hleaves : ∀ s ∈ test.leaves, g.valuation s = some ((found s).map .cls) :=
      fun s hs => h s (SetTest.mem_slots.2 hs)
    have hholds := SetTest.holds_iff_describes (comprises_parameterSet types) hleaves
    simp only [Option.filter_some, List.all_eq_true, decide_eq_true_eq, Option.mem_some_iff,
      forall_eq']
    split_ifs with hall
    · exact hholds.trans ⟨fun hdescribes _ => hdescribes, fun hdescribes => hdescribes hall⟩
    · exact iff_of_true rfl fun hfound => absurd hfound hall

/-- **A member passes the checks if and only if it meets the constraints.** -/
theorem pass_iff_meets (h : g.Finds found c.references) (member : Candidate) :
    (memberChecks g found c).pass member = true ↔ member.Meets found c := by
  have htests : g.Finds found (SetTest.slotsOf c.parameterTypes) :=
    h.subset c.parameterTypes_subset
  rw [MemberChecks.pass, Candidate.meets_iff]
  simp only [Bool.and_eq_true, and_assoc]
  refine and_congr_right fun _ => and_congr ?_ (and_congr ?_ (and_congr ?_ ?_))
  · change (c.name.all fun filter => member.name.all filter.accepts) = true ↔ _
    cases c.name <;> cases member.name <;> simp
  · change ((c.valueType >>= fun s => (found s).head?).all fun type =>
      member.valueType == some type) = true ↔ _
    cases c.valueType with
    | none => simp
    | some s =>
      change ((found s).head?.all fun type => member.valueType == some type) = true ↔ _
      cases hhead : (found s).head? <;> simp [hhead]
  · change c.parameterCount.all (· == member.types.length) = true ↔ _
    cases c.parameterCount with
    | none => simp
    | some count => simpa using eq_comm
  · exact activeTest_iff htests member.types

theorem select_eq_matching (h : g.Finds found c.references) (declared : List Candidate) :
    select c.matchFirst (memberChecks g found c) declared = c.matching found declared := by
  have hpass : (memberChecks g found c).pass = fun member => decide (member.Meets found c) := by
    funext member
    rw [Bool.eq_iff_iff, decide_eq_true_iff]
    exact pass_iff_meets h member
  unfold select Constraints.matching
  rw [hpass]
  split
  · rw [← List.head?_filter, List.take_one, List.head?_map]
  · rfl

end Scan

/-- The members of a kind that a class declares, as the resolver answers the question for them: a
field has a name and a type, a method a name, a return type and parameters, a constructor nothing
but parameters. -/
inductive Resolver.Declares (resolver : Resolver σ) (owner : ClassId) (before : σ) :
    Kind → List Candidate → σ → Prop
  | fields {fields : List FieldInfo} {after : σ} :
    resolver.fields owner before = (.ok fields, after) →
      Declares resolver owner before .field (fields.map fun field =>
        ⟨.field field.id, some field.name, field.modifiers, some field.type, none⟩) after
  | methods {methods : List MethodInfo} {after : σ} :
    resolver.methods owner before = (.ok methods, after) →
      Declares resolver owner before .method (methods.map fun method =>
        ⟨.method method.id, some method.name, method.modifiers, some method.returnType,
          some method.parameters⟩) after
  | constructors {constructors : List ConstructorInfo} {after : σ} :
    resolver.constructors owner before = (.ok constructors, after) →
      Declares resolver owner before .constructor (constructors.map fun constructor =>
        ⟨.constructor constructor.id, none, constructor.modifiers, none,
          some constructor.parameters⟩) after

theorem Resolver.Declares.members {resolver : Resolver σ} {owner : ClassId} {before after : σ}
    {kind : Kind} {declared : List Candidate}
    (h : resolver.Declares owner before kind declared after) :
    kind.members resolver owner before = (.ok declared, after) := by
  cases h with
  | fields h | methods h | constructors h =>
    unfold Kind.members
    dsimp only
    rw [map_apply, h]
    rfl

theorem Task.ask_of_ok {α : Type} {call : Call σ α} {trace : Trace σ} {a : α} {world : σ}
    (h : call trace.world = (.ok a, world)) : ask call trace = (.ok a, { trace with world }) := by
  have hrun : Id.run (call.run.run trace.world) = (.ok a, world) := h
  rw [ask, Trace.ask, hrun]
  rfl

/-- **A scan for members comes to the reference**: the members that the declaring class declares and
that meet the constraints, or the first of them; nothing without such a class. -/
theorem members_of_classes {host : Host σ} {kind : Kind} {g : Graph} {c : Constraints}
    {found : Slot → List ClassId} (hfound : g.Finds found c.references) (trace : Trace σ) :
    ((c.declaringClass >>= fun s => (found s).head?) = none →
      Scan.members host g kind c trace = (.ok [], trace)) ∧
    ∀ owner declared world, (c.declaringClass >>= fun s => (found s).head?) = some owner →
      host.resolver.Declares owner trace.world kind declared world →
      Scan.members host g kind c trace =
        (.ok (c.matching found declared), { trace with world }) := by
  have howner : g.single c.declaringClass = .ok (c.declaringClass >>= fun s => (found s).head?) :=
    (hfound.subset c.declaringClass_subset).single
  have hvalueType : g.single c.valueType = .ok (c.valueType >>= fun s => (found s).head?) :=
    (hfound.subset c.valueType_subset).single
  have htests : g.Finds found (SetTest.slotsOf c.parameterTypes) :=
    hfound.subset c.parameterTypes_subset
  unfold Scan.members
  rw [howner, hvalueType, htests.active, Task.ofExcept_ok_bind]
  constructor
  · intro hnone
    rw [hnone]
    rfl
  · intro owner declared world hsome hdeclared
    rw [hsome]
    dsimp only
    rw [Task.ofExcept_ok_bind, Task.ofExcept_ok_bind, bind_apply,
      Task.ask_of_ok hdeclared.members]
    have hselect := Scan.select_eq_matching hfound declared
    exact congrArg (fun values => (Except.ok values, { trace with world })) hselect

namespace Sample

/-- A class with methods whose parameters are of the same types in another order or number. -/
def overloaded : List Source := [{
  classes := [{ name := "A", methods := [{ name := "put", parameters := ["B", "A"] },
      { name := "put", parameters := ["A", "B"] }, { name := "put", parameters := ["B"] },
      { name := "get", parameters := ["B", "B"] }] },
    { name := "B" }] }]

def overloading : Host Unit where
  resolver := (Registry.ofSources overloaded).resolver

/-- Methods called `put` with the second class as the type of the second parameter. -/
def secondParameter : Constraints :=
  { declaringClass := some 0, name := some (.named "put"),
    parameterTypes := some (.and (.member (.parameter 1 1)) (.not (.nonMember (.value 1)))) }

/-- Both classes, and what was found for them. -/
def bothFound : Graph :=
  let g := Graph.afterAll {} [.exactClass "A", .exactClass "B"]
  let g := (g.publish 0 [.cls ⟨0⟩] 1).toOption.getD {}
  (g.publish 1 [.cls ⟨1⟩] 1).toOption.getD {}

def bothClasses (slot : Slot) : List ClassId := [⟨slot⟩]

end Sample

/-- A position beyond the parameters and a type at another position do not count. -/
theorem members_of_overloads :
    ∃ values, Scan.members Sample.overloading Sample.bothFound .method Sample.secondParameter
        { world := () } = (.ok values, { world := () }) ∧ values = [.method ⟨⟨0⟩, 1⟩] := by
  have hfound : Sample.bothFound.Finds Sample.bothClasses Sample.secondParameter.references := by
    unfold Graph.Finds
    decide +kernel
  have hscan := (@members_of_classes _ Sample.overloading _ _ _ _ hfound { world := () }).2 ⟨0⟩ _
    () rfl (.methods rfl)
  exact ⟨_, hscan, by decide +kernel⟩

end Metamatch
