import Metamatch.Entity
import Metamatch.Modifiers

/-!
# Metadata of declared members

What a lookup tells about a field, a method or a constructor. Types are handles here; a source
gives them by name.
-/

namespace Metamatch

/-- A declared field. -/
structure FieldInfo where
  name : String
  type : ClassId
  modifiers : Modifiers
  id : MemberId
  deriving DecidableEq, Repr

/-- A declared method. -/
structure MethodInfo where
  name : String
  returnType : ClassId
  /-- Parameter types in order. -/
  parameters : List ClassId
  modifiers : Modifiers
  id : MemberId
  deriving DecidableEq, Repr

/-- A declared constructor. -/
structure ConstructorInfo where
  /-- Parameter types in order. -/
  parameters : List ClassId
  modifiers : Modifiers
  id : MemberId
  deriving DecidableEq, Repr

end Metamatch
