import Metamatch.Modifiers

/-!
# Sources of class declarations

A source lists classes with everything they declare, types by name, as a dump of class metadata
holds them.

* `FieldDecl`, `MethodDecl`, `ConstructorDecl`, `ClassDecl`: declarations.
* `ClassDecl.references`: the type names that a declaration mentions, in order.
* `Source`: the classes of one archive, and names it lists without declaring them.
-/

namespace Metamatch

/-- Declaration of a field. -/
structure FieldDecl where
  name : String
  type : String
  modifiers : Modifiers := .empty
  deriving DecidableEq, Repr

/-- Declaration of a method. -/
structure MethodDecl where
  name : String
  returnType : String := "void"
  parameters : List String := []
  modifiers : Modifiers := .empty
  deriving DecidableEq, Repr

/-- Declaration of a constructor. -/
structure ConstructorDecl where
  parameters : List String := []
  modifiers : Modifiers := .empty
  deriving DecidableEq, Repr

/-- Declaration of a class. -/
structure ClassDecl where
  name : String
  modifiers : Modifiers := .empty
  superclass : Option String := none
  interfaces : List String := []
  fields : List FieldDecl := []
  methods : List MethodDecl := []
  constructors : List ConstructorDecl := []
  /-- The class is there but fails to link when it is loaded. -/
  broken : Bool := false
  deriving DecidableEq, Repr

/-- The type names that a declaration mentions: superclass, interfaces, field types, for each
method its return type and then its parameter types, and parameter types of constructors. -/
def ClassDecl.references (decl : ClassDecl) : List String :=
  decl.superclass.toList ++ decl.interfaces ++ decl.fields.map (·.type) ++
    decl.methods.flatMap (fun method => method.returnType :: method.parameters) ++
    decl.constructors.flatMap (·.parameters)

/-- One archive of classes. -/
structure Source where
  classes : List ClassDecl := []
  /-- Names that the source lists although they cannot be resolved. -/
  unresolvable : List String := []
  deriving DecidableEq, Repr

/-- Every name that a source lists. -/
def Source.listed (source : Source) : List String :=
  source.classes.map (·.name) ++ source.unresolvable

end Metamatch
