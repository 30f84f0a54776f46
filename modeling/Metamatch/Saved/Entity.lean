import Metamatch.EntityName
import Metamatch.Json.Decode
import Metamatch.Json.Parser

/-!
# Entities and their names as JSON

* `Entity.toJson`, `Entity.ofJson?`: an entity as the one member of an object, under its kind.
* `Entity.load?`, `Entity.ofValue?`: the entity of a text, and of a value that never was a text.
* `EntityName.toJson`, `EntityName.ofJson?`: a name; the signature is left out if there is none.
-/

namespace Metamatch

namespace ClassId

def toJson (id : ClassId) : Json := .nat id.index

def ofJson? (value : Json) : Option ClassId := value.nat32?.map ClassId.mk

end ClassId

namespace MemberId

def toJson (id : MemberId) : Json :=
  .record [("class", id.owner.toJson), ("index", .nat id.index)]

def ofJson? (value : Json) : Option MemberId := do
  match ← value.fields? ["class", "index"] with
  | [owner, index] =>
    return ⟨← Json.required ClassId.ofJson? owner, ← Json.required Json.nat32? index⟩
  | _ => none

end MemberId

namespace Kind

def toJson (kind : Kind) : Json := .str kind.label

def ofJson? : Json → Option Kind := Json.label? ofLabel?

end Kind

namespace Entity

def toJson (entity : Entity) : Json :=
  .record [(entity.kind.label, content)]
where
  content : Json :=
    match entity with
    | .cls id => id.toJson
    | .field id | .method id | .constructor id => id.toJson
    | .parameter index type => .record [("index", .nat index), ("class", type.toJson)]

/-- The content of an entity of a kind. There are no entities of the kind `text`. -/
def ofContent? (kind : Kind) (content : Json) : Option Entity :=
  match kind with
  | .cls => .cls <$> ClassId.ofJson? content
  | .field => .field <$> MemberId.ofJson? content
  | .method => .method <$> MemberId.ofJson? content
  | .constructor => .constructor <$> MemberId.ofJson? content
  | .text => none
  | .parameter => do
    match ← content.fields? ["index", "class"] with
    | [index, type] =>
      return .parameter (← Json.required Json.nat32? index) (← Json.required ClassId.ofJson? type)
    | _ => none

def ofJson? (value : Json) : Option Entity := do
  match ← value.variant? with
  | (label, some content) => ofContent? (← Kind.ofLabel? label) content
  | (_, none) => none

/-- The entity that a text holds. -/
def load? (text : String) : Option Entity := Json.parse? text >>= ofJson?

/-- The entity that a value stands for by itself. Only in a text may a parameter be a list of its
fields; here they have to be named. -/
def ofValue? (value : Json) : Option Entity := do
  match ← value.variant? with
  | (label, some (.list _)) => if label = Kind.parameter.label then none else ofJson? value
  | _ => ofJson? value

end Entity

namespace EntityName

def toJson (name : EntityName) : Json :=
  .record <| [("class", .str name.cls)] ++
    (name.member.map fun member => ("member", Json.str member)).toList

def ofJson? (value : Json) : Option EntityName := do
  match ← value.fields? ["class", "member"] with
  | [cls, member] =>
    return {
      cls := ← Json.required Json.string? cls
      member := ← Json.defaulted none (Json.nullable? Json.string?) member }
  | _ => none

end EntityName

end Metamatch
