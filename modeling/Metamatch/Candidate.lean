import Metamatch.Host

/-!
# Declared members as candidates

Fields, methods and constructors in one shape, so that one scan serves all three.

* `Candidate`: a declared member with whatever its kind has of name, type and parameters.
* `Candidate.signature`: the text that tells it from other members of its class.
* `Kind.members`: the candidates of a kind in a class.
-/

namespace Metamatch

/-- A declared member, flattened. -/
structure Candidate where
  entity : Entity
  /-- Absent for constructors. -/
  name : Option String
  modifiers : Modifiers
  /-- The field's type or the return type; absent for constructors. -/
  valueType : Option ClassId
  /-- Absent for fields. -/
  parameters : Option (List ClassId)
  deriving DecidableEq, Repr

namespace Candidate

def ofField (field : FieldInfo) : Candidate :=
  ⟨.field field.id, some field.name, field.modifiers, some field.type, none⟩

def ofMethod (method : MethodInfo) : Candidate :=
  ⟨.method method.id, some method.name, method.modifiers, some method.returnType,
    some method.parameters⟩

def ofConstructor (constructor : ConstructorInfo) : Candidate :=
  ⟨.constructor constructor.id, none, constructor.modifiers, none,
    some constructor.parameters⟩

variable {σ : Type}

/-- The text of a signature from the names of its types. -/
def signatureText (name : Option String) (parameters : Option (List String))
    (valueType : Option String) : String :=
  name.getD "<init>" ++
    (match parameters with
      | some types => "(" ++ String.intercalate "," types ++ ")"
      | none => "") ++
    (match valueType with
      | some type => ":" ++ type
      | none => "")

/-- Name, parameter types in parentheses and the value type after a colon, each where the kind
has it. The names of the parameter types are asked for in order, then that of the value type. -/
def signature (resolver : Resolver σ) (candidate : Candidate) : Call σ String := do
  let parameters ← candidate.parameters.mapM fun types => types.mapM resolver.className
  let valueType ← candidate.valueType.mapM resolver.className
  return signatureText candidate.name parameters valueType

end Candidate

/-- The members of a kind that a class declares, in order. Other kinds have none. -/
def Kind.members {σ : Type} (resolver : Resolver σ) (kind : Kind) (owner : ClassId) :
    Call σ (List Candidate) :=
  match kind with
  | .field => List.map .ofField <$> resolver.fields owner
  | .method => List.map .ofMethod <$> resolver.methods owner
  | .constructor => List.map .ofConstructor <$> resolver.constructors owner
  | .cls | .text | .parameter => pure []

end Metamatch
