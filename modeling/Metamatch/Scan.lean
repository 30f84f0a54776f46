import Metamatch.Catalog
import Metamatch.Task

/-!
# Scans

The candidates that a matcher accepts, in order.

* `Graph.look`, `Graph.single`, `Graph.active`: the references of a matcher, once their slots are
  published.
* `Scan.classes`: over the names of the catalog.
* `Scan.members`: over the members that the declaring class declares.
-/

namespace Metamatch

/-! ## References read -/

namespace Graph

/-- The text of the crash at a slot that does not exist. -/
def outOfRangeText (g : Graph) (slot : Slot) : String :=
  s!"index out of bounds: the len is {g.size} but the index is {slot}"

/-- The values of a slot, none if it is unpublished. -/
def look (g : Graph) (slot : Slot) : Except Payload (List Entity) :=
  match g.get? slot with
  | none => .error (.text (g.outOfRangeText slot))
  | some node => .ok (node.published.elim [] Published.values)

/-- The class that a reference resolved to. A reference that is absent or missed gives none, and
so asks for nothing. -/
def single (g : Graph) : Option Slot → Except Payload (Option ClassId)
  | none => .ok none
  | some slot => do return (← g.look slot).head? >>= Entity.classId?

/-- Every slot has values. The first one without any decides. -/
def allPublished (g : Graph) : List Slot → Except Payload Bool
  | [] => .ok true
  | slot :: rest => do
    if (← g.look slot).isEmpty then return false
    g.allPublished rest

/-- A test that takes part in a search: one that names a missed slot is dropped as a whole. -/
def active (g : Graph) : Option SetTest → Except Payload (Option SetTest)
  | none => .ok none
  | some test => do return if ← g.allPublished test.slots then some test else none

end Graph

namespace Scan

variable {σ : Type}

/-! ## Classes -/

/-- What a class has to meet besides its name, with the references read. -/
structure ClassChecks where
  modifiers : Mask
  superclass : Option ClassId
  interfaces : Option (List Entity → Bool)

/-- A class meets the checks. Modifiers come first, then the superclass, then the interfaces; what
is not needed is not asked for. -/
def ClassChecks.pass (resolver : Resolver σ) (checks : ClassChecks) (id : ClassId) :
    Call σ Bool := do
  if checks.modifiers.accepts (← resolver.classModifiers id) then
    if ← superclassPasses then interfacesPass else return false
  else return false
where
  superclassPasses : Call σ Bool :=
    match checks.superclass with
    | none => pure true
    | some expected => do return (← resolver.superclass id) == some expected
  interfacesPass : Call σ Bool :=
    match checks.interfaces with
    | none => pure true
    | some test => do return test ((← resolver.interfaces id).map .cls)

/-- The classes found among names, in order. A name that fails to load is put before the policy,
which goes on with the next name or breaks the scan off. -/
def walk (host : Host σ) (slot : Slot) (matchFirst : Bool) (checks : ClassChecks) :
    List String → Task σ (List Entity)
  | [] => pure []
  | name :: rest => do
    match ← Task.attempt (host.resolver.loadClass name) with
    | .error e =>
      match ← Task.consult host slot e.message with
      | .proceed => walk host slot matchFirst checks rest
      | .abort => return []
    | .ok id =>
      if ← Task.ask (checks.pass host.resolver id) then
        if matchFirst then return [.cls id]
        else return .cls id :: (← walk host slot matchFirst checks rest)
      else walk host slot matchFirst checks rest

/-- The names that a scan for classes looks at. -/
def namesToTry (catalog : Catalog) (filter : Option NameFilter) : List String :=
  (catalog.slice (catalog.candidates filter)).filter fun name => filter.all (·.accepts name)

/-- The classes that meet the constraints, in the order of their names. -/
def classes (host : Host σ) (catalog : Catalog) (g : Graph) (slot : Slot) (c : Constraints) :
    Task σ (List Entity) := do
  let superclass ← Task.ofExcept (g.single c.superclass)
  let interfaces ← Task.ofExcept (g.active c.interfaces)
  let checks : ClassChecks :=
    ⟨c.modifiers, superclass, interfaces.map fun test set => test.holds g.valuation set⟩
  walk host slot c.matchFirst checks (namesToTry catalog c.name)

/-! ## Members -/

/-- The entities that a parameter list contains: every type as a class, and again at its
position. -/
def parameterSet (types : List ClassId) : List Entity :=
  (types.mapIdx fun index type => [Entity.cls type, .parameter index type]).flatten

/-- What a member has to meet, with the references read. -/
structure MemberChecks where
  modifiers : Mask
  name : Option NameFilter
  valueType : Option ClassId
  parameterCount : Option Nat
  parameterTypes : Option (List Entity → Bool)

/-- A member meets the checks. A member without a name passes any filter. -/
def MemberChecks.pass (checks : MemberChecks) (candidate : Candidate) : Bool :=
  let types := candidate.parameters.getD []
  checks.modifiers.accepts candidate.modifiers &&
  (checks.name.all fun filter => candidate.name.all filter.accepts) &&
  (checks.valueType.all fun type => candidate.valueType == some type) &&
  (checks.parameterCount.all (· == types.length)) &&
  (checks.parameterTypes.all fun test => test (parameterSet types))

/-- The entities that pass, all or only the first. -/
def select (matchFirst : Bool) (checks : MemberChecks) (candidates : List Candidate) :
    List Entity :=
  let found := (candidates.filter checks.pass).map (·.entity)
  if matchFirst then found.take 1 else found

/-- The members of a kind that the declaring class declares and that meet the constraints, in the
order of declaration. Without a resolved declaring class there is nothing to search. -/
def members (host : Host σ) (g : Graph) (kind : Kind) (c : Constraints) :
    Task σ (List Entity) := do
  match ← Task.ofExcept (g.single c.declaringClass) with
  | none => return []
  | some owner =>
    let valueType ← Task.ofExcept (g.single c.valueType)
    let parameterTypes ← Task.ofExcept (g.active c.parameterTypes)
    let checks : MemberChecks :=
      ⟨c.modifiers, c.name, valueType, c.parameterCount,
        parameterTypes.map fun test set => test.holds g.valuation set⟩
    return select c.matchFirst checks (← Task.ask (kind.members host.resolver owner))

end Scan

end Metamatch
