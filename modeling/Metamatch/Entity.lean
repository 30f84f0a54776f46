/-!
# Reflective entities

What a matcher can find: classes, the members that they declare, and parameter positions of a
known type.

* `ClassId`, `MemberId`: handles of classes and of declared members.
* `Kind`: the kinds of entities, in the order in which a sweep visits them.
* `Entity`: an entity of one of these kinds.
-/

namespace Metamatch

/-- Handle of a class. -/
structure ClassId where
  index : Nat
  deriving DecidableEq, Repr

/-- Handle of a declared member: its class and its place among the members of its kind there. -/
structure MemberId where
  owner : ClassId
  index : Nat
  deriving DecidableEq, Repr

/-- Kinds of entities, in the order of a sweep. -/
inductive Kind
  | cls
  | field
  | method
  | constructor
  /-- Literal text, known without a search. -/
  | text
  /-- The type of a parameter at a position, derived from a class. -/
  | parameter
  deriving DecidableEq, Repr

namespace Kind

/-- All kinds, in the order of a sweep. -/
def all : List Kind := [.cls, .field, .method, .constructor, .text, .parameter]

/-- Matchers of this kind are searched for during a run. -/
def isScheduled : Kind → Bool
  | .cls | .field | .method | .constructor => true
  | .text | .parameter => false

/-- The kinds that a sweep visits, in order. -/
def scheduled : List Kind := all.filter isScheduled

/-- The name of a kind in saved results. -/
def label : Kind → String
  | .cls => "class"
  | .field => "field"
  | .method => "method"
  | .constructor => "constructor"
  | .text => "string"
  | .parameter => "parameter"

/-- The kind with a given name. -/
def ofLabel? (label : String) : Option Kind := all.find? (·.label == label)

theorem ofLabel?_label (kind : Kind) : ofLabel? kind.label = some kind := by
  cases kind <;> decide

end Kind

/-- A class, a declared member, or a class at a parameter position. -/
inductive Entity
  | cls (id : ClassId)
  | field (id : MemberId)
  | method (id : MemberId)
  | constructor (id : MemberId)
  | parameter (index : Nat) (type : ClassId)
  deriving DecidableEq, Repr

namespace Entity

def kind : Entity → Kind
  | .cls _ => .cls
  | .field _ => .field
  | .method _ => .method
  | .constructor _ => .constructor
  | .parameter _ _ => .parameter

/-- The class that an entity stands for, if it is not a member. -/
def classId? : Entity → Option ClassId
  | .cls id | .parameter _ id => some id
  | .field _ | .method _ | .constructor _ => none

/-- The member that an entity stands for. -/
def memberId? : Entity → Option MemberId
  | .field id | .method id | .constructor id => some id
  | .cls _ | .parameter _ _ => none

/-- Sort key: the kind first, then the numbers of the handle. Members go by class before place,
parameters by position before type. -/
def sortKey : Entity → Nat × Nat × Nat
  | .cls id => (0, id.index, 0)
  | .field id => (1, id.owner.index, id.index)
  | .method id => (2, id.owner.index, id.index)
  | .constructor id => (3, id.owner.index, id.index)
  | .parameter index type => (4, index, type.index)

/-- The order of entities: lexicographic on `sortKey`. -/
def le (a b : Entity) : Bool :=
  let (i, j, k) := a.sortKey
  let (i', j', k') := b.sortKey
  i < i' || (i == i' && (j < j' || (j == j' && k ≤ k')))

/-- The entities of a list in order; a repeated one stays repeated. -/
def sort (entities : List Entity) : List Entity := entities.mergeSort le

end Entity

end Metamatch
