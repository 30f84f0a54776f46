import Metamatch.Candidate

/-!
# Names of entities

A handle means something only to the resolver that issued it. A name means the same class or
member to every resolver.

* `Entity.describe`: the name of an entity.
* `EntityName.locate`: the entity with a name.
-/

namespace Metamatch

/-- The name of a class, or of a member by its class and its signature. -/
structure EntityName where
  cls : String
  member : Option String := none
  deriving DecidableEq, Repr

variable {σ : Type}

/-- The name of an entity. A member is looked up among those its class declares, and has no name
if it is not there. -/
def Entity.describe (resolver : Resolver σ) (entity : Entity) : Call σ (Option EntityName) :=
  match entity with
  | .cls id | .parameter _ id => do
    return some { cls := ← resolver.className id }
  | .field id | .method id | .constructor id => do
    let candidates ← entity.kind.members resolver id.owner
    match candidates.find? (·.entity == entity) with
    | none => return none
    | some candidate =>
      let cls ← resolver.className id.owner
      let member ← candidate.signature resolver
      return some ⟨cls, some member⟩

namespace EntityName

/-- The first candidate with a given signature. -/
def findSigned (resolver : Resolver σ) (signature : String) :
    List Candidate → Call σ (Option Entity)
  | [] => pure none
  | candidate :: rest => do
    if (← candidate.signature resolver) = signature then return some candidate.entity
    findSigned resolver signature rest

/-- The entity with this name and the kind of `like`, whose position it keeps if `like` is a
parameter. A class has no signature and a member needs one. -/
def locate (resolver : Resolver σ) (name : EntityName) (like : Entity) :
    Call σ (Option Entity) := do
  let id ← resolver.loadClass name.cls
  match like, name.member with
  | .cls _, none => return some (.cls id)
  | .parameter index _, none => return some (.parameter index id)
  | .cls _, some _ | .parameter _ _, some _ => return none
  | .field _, none | .method _, none | .constructor _, none => return none
  | .field _, some signature | .method _, some signature | .constructor _, some signature =>
    findSigned resolver signature (← like.kind.members resolver id)

end EntityName

end Metamatch
