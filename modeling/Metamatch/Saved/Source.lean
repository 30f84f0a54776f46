import Metamatch.Json.Decode
import Metamatch.Json.Parser
import Metamatch.Json.Printer
import Metamatch.Registry

/-!
# Sources as JSON

* `Source.toJson`, `Source.ofJson?`: a source with all its declarations.
* `Source.save`, `Source.load?`: a source as text.
* `Registry.load?`: the registry of a dump, an object with the list of its sources.
-/

namespace Metamatch

/-- A list of strings as JSON. -/
def Json.strings (items : List String) : Json := .list (items.map .str)

namespace Modifiers

def toJson (m : Modifiers) : Json := .nat m.toNat

def ofJson? (value : Json) : Option Modifiers := value.nat32?.map ofNat

/-- The modifier word that a text holds. -/
def load? (text : String) : Option Modifiers := Json.parse? text >>= ofJson?

/-- A field that is a modifier word, empty if it is missing. -/
def field? : Option Json → Option Modifiers := Json.defaulted .empty ofJson?

end Modifiers

namespace FieldDecl

def toJson (decl : FieldDecl) : Json :=
  .record [("name", .str decl.name), ("type", .str decl.type),
    ("modifiers", decl.modifiers.toJson)]

def ofJson? (value : Json) : Option FieldDecl := do
  match ← value.fields? ["name", "type", "modifiers"] with
  | [name, type, modifiers] =>
    return {
      name := ← Json.required Json.string? name
      type := ← Json.required Json.string? type
      modifiers := ← Modifiers.field? modifiers }
  | _ => none

end FieldDecl

namespace MethodDecl

def toJson (decl : MethodDecl) : Json :=
  .record [("name", .str decl.name), ("return_type", .str decl.returnType),
    ("parameters", .strings decl.parameters), ("modifiers", decl.modifiers.toJson)]

def ofJson? (value : Json) : Option MethodDecl := do
  match ← value.fields? ["name", "return_type", "parameters", "modifiers"] with
  | [name, returnType, parameters, modifiers] =>
    return {
      name := ← Json.required Json.string? name
      returnType := ← Json.defaulted "void" Json.string? returnType
      parameters := ← Json.defaulted [] (Json.list? Json.string?) parameters
      modifiers := ← Modifiers.field? modifiers }
  | _ => none

end MethodDecl

namespace ConstructorDecl

def toJson (decl : ConstructorDecl) : Json :=
  .record [("parameters", .strings decl.parameters), ("modifiers", decl.modifiers.toJson)]

def ofJson? (value : Json) : Option ConstructorDecl := do
  match ← value.fields? ["parameters", "modifiers"] with
  | [parameters, modifiers] =>
    return {
      parameters := ← Json.defaulted [] (Json.list? Json.string?) parameters
      modifiers := ← Modifiers.field? modifiers }
  | _ => none

end ConstructorDecl

namespace ClassDecl

def toJson (decl : ClassDecl) : Json :=
  .record [("name", .str decl.name), ("modifiers", decl.modifiers.toJson),
    ("superclass", decl.superclass.elim .null .str), ("interfaces", .strings decl.interfaces),
    ("fields", .list (decl.fields.map FieldDecl.toJson)),
    ("methods", .list (decl.methods.map MethodDecl.toJson)),
    ("constructors", .list (decl.constructors.map ConstructorDecl.toJson)),
    ("broken", .bool decl.broken)]

def ofJson? (value : Json) : Option ClassDecl := do
  match ← value.fields? ["name", "modifiers", "superclass", "interfaces", "fields", "methods",
      "constructors", "broken"] with
  | [name, modifiers, superclass, interfaces, fields, methods, constructors, broken] =>
    return {
      name := ← Json.required Json.string? name
      modifiers := ← Modifiers.field? modifiers
      superclass := ← Json.defaulted none (Json.nullable? Json.string?) superclass
      interfaces := ← Json.defaulted [] (Json.list? Json.string?) interfaces
      fields := ← Json.defaulted [] (Json.list? FieldDecl.ofJson?) fields
      methods := ← Json.defaulted [] (Json.list? MethodDecl.ofJson?) methods
      constructors := ← Json.defaulted [] (Json.list? ConstructorDecl.ofJson?) constructors
      broken := ← Json.defaulted false Json.bool? broken }
  | _ => none

end ClassDecl

namespace Source

def toJson (source : Source) : Json :=
  .record [("classes", .list (source.classes.map ClassDecl.toJson)),
    ("unresolvable", .strings source.unresolvable)]

def ofJson? (value : Json) : Option Source := do
  match ← value.fields? ["classes", "unresolvable"] with
  | [classes, unresolvable] =>
    return {
      classes := ← Json.defaulted [] (Json.list? ClassDecl.ofJson?) classes
      unresolvable := ← Json.defaulted [] (Json.list? Json.string?) unresolvable }
  | _ => none

/-- A source as text. -/
def save (source : Source) : String := source.toJson.compact

/-- The source that a text holds. -/
def load? (text : String) : Option Source := Json.parse? text >>= ofJson?

end Source

namespace Registry

/-- The sources of a dump. -/
def dump? (value : Json) : Option (List Source) := do
  match ← value.fields? ["sources"] with
  | [sources] => Json.required (Json.list? Source.ofJson?) sources
  | _ => none

/-- The registry of the dump that a text holds. -/
def load? (text : String) : Option Registry := do
  return ofSources (← dump? (← Json.parse? text))

end Registry

end Metamatch
