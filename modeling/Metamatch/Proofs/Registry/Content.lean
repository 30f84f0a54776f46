import Metamatch.Proofs.Bytes
import Metamatch.Proofs.Identities
import Metamatch.Proofs.Registry.Handles

/-!
# Content of a registry of sources

A registry keeps the first declaration of each name. With its handles turned back into names it is
the declaration that the source gave. A name without a declaration is a stub, and each source has
its list of names.

* `Registry.declOf`: a class with its handles turned back into names.
* `Registry.declOf_resolveDecl`: turning names into handles is undone.
* `content_of_sources`: what a registry of sources holds.
-/

namespace Metamatch

namespace Registry

variable (registry : Registry)

/-- The name of a class. -/
def nameOf (id : ClassId) : Except LookupError String := (·.name) <$> registry.find id

/-- A field with its type by name. -/
def fieldDeclOf (field : FieldInfo) : Except LookupError FieldDecl := do
  return { name := field.name, type := ← registry.nameOf field.type, modifiers := field.modifiers }

/-- A method with its types by name. -/
def methodDeclOf (method : MethodInfo) : Except LookupError MethodDecl := do
  return { name := method.name, returnType := ← registry.nameOf method.returnType
           parameters := ← method.parameters.mapM registry.nameOf, modifiers := method.modifiers }

/-- A constructor with its types by name. -/
def constructorDeclOf (constructor : ConstructorInfo) : Except LookupError ConstructorDecl := do
  return { parameters := ← constructor.parameters.mapM registry.nameOf
           modifiers := constructor.modifiers }

/-- The declaration of a class: the class with its handles turned back into names. -/
def declOf (info : ClassInfo) : Except LookupError ClassDecl := do
  return { name := info.name, modifiers := info.modifiers
           superclass := ← info.superclass.mapM registry.nameOf
           interfaces := ← info.interfaces.mapM registry.nameOf
           fields := ← info.fields.mapM registry.fieldDeclOf
           methods := ← info.methods.mapM registry.methodDeclOf
           constructors := ← info.constructors.mapM registry.constructorDeclOf
           broken := info.broken }

variable {sources : List Source} {name : String} {decl : ClassDecl}

/-- Items that are read back one by one are read back together. -/
theorem mapM_mapIdx_eq_ok {ε α β : Type} {items : List α} {f : Nat → α → β} {g : β → Except ε α}
    (h : ∀ index, ∀ item ∈ items, g (f index item) = .ok item) :
    (items.mapIdx f).mapM g = .ok items := by
  induction items generalizing f with
  | nil => rfl
  | cons item rest ih =>
    have hrest := ih fun index other hother => h (index + 1) other (List.mem_cons_of_mem _ hother)
    rw [List.mapIdx_cons, List.mapM_cons, h 0 item List.mem_cons_self, hrest]
    rfl

/-- **Turning names into handles is undone**, if the names are known. -/
theorem declOf_resolveDecl (h : ∀ type ∈ decl.references, type ∈ names sources) (owner : ClassId) :
    (ofSources sources).declOf (resolveDecl (handle sources) owner decl) = .ok decl := by
  have hname : ∀ type ∈ decl.references,
      (ofSources sources).nameOf (handle sources type) = .ok type :=
    fun type htype => className_handle (h type htype)
  have hnames : ∀ types : List String, (∀ type ∈ types, type ∈ decl.references) →
      (types.map (handle sources)).mapM (ofSources sources).nameOf = .ok types :=
    fun types htypes => classNames_handle fun type htype => h type (htypes type htype)
  have hsuperclass : (decl.superclass.map (handle sources)).mapM (ofSources sources).nameOf =
      .ok decl.superclass := by
    cases hsuper : decl.superclass with
    | none => rfl
    | some type =>
      rw [Option.map_some, Option.mapM_some, hname type (by simp [ClassDecl.references, hsuper])]
      rfl
  have hinterfaces := hnames decl.interfaces fun type htype => by
    simp [ClassDecl.references, htype]
  have hfields : ((resolveDecl (handle sources) owner decl).fields).mapM
      (ofSources sources).fieldDeclOf = .ok decl.fields := by
    refine mapM_mapIdx_eq_ok fun index field hfield => ?_
    rw [fieldDeclOf, hname field.type (ClassDecl.field_mem_references hfield)]
    rfl
  have hmethods : ((resolveDecl (handle sources) owner decl).methods).mapM
      (ofSources sources).methodDeclOf = .ok decl.methods := by
    refine mapM_mapIdx_eq_ok fun index method hmethod => ?_
    obtain ⟨hreturn, hparameters⟩ :=
      List.forall_mem_cons.1 (ClassDecl.method_mem_references hmethod)
    rw [methodDeclOf, hname method.returnType hreturn, hnames method.parameters hparameters]
    rfl
  have hconstructors : ((resolveDecl (handle sources) owner decl).constructors).mapM
      (ofSources sources).constructorDeclOf = .ok decl.constructors := by
    refine mapM_mapIdx_eq_ok fun index constructor hconstructor => ?_
    rw [constructorDeclOf, hnames constructor.parameters
      (ClassDecl.constructor_mem_references hconstructor)]
    rfl
  rw [declOf, hfields, hmethods, hconstructors]
  change (do return { decl with
    superclass := ← (decl.superclass.map (handle sources)).mapM (ofSources sources).nameOf
    interfaces := ← (decl.interfaces.map (handle sources)).mapM (ofSources sources).nameOf }) = _
  rw [hsuperclass, hinterfaces]
  rfl

theorem exists_find_of_declaration? (h : declaration? sources name = some decl) :
    ∃ id, (ofSources sources).classId? name = some id ∧
      (ofSources sources).find id = .ok (resolveDecl (handle sources) id decl) := by
  have hknown : name ∈ names sources := mem_names.2 <| .inl <| isSome_declaration?.1 <| by
    rw [h, Option.isSome_some]
  refine ⟨handle sources name, by rw [classId?_ofSources, if_pos hknown], ?_⟩
  rw [find_handle hknown, classInfo, h]

theorem find_of_undeclared {id : ClassId} (hid : (ofSources sources).classId? name = some id)
    (h : declaration? sources name = none) : (ofSources sources).find id = .ok { name } := by
  obtain ⟨hknown, rfl⟩ := eq_handle_of_denotes (classId?_eq_some_iff.1 hid)
  rw [find_handle hknown, classInfo, h]

end Registry

/-- **A registry of sources loses nothing and mixes up nothing**: it holds the first declaration of
each name, a stub for any other, and the names of each source in order. -/
theorem content_of_sources (sources : List Source) :
    let registry := Registry.ofSources sources
    (∀ name decl, Registry.declaration? sources name = some decl →
      ∃ id info, registry.classId? name = some id ∧ registry.find id = .ok info ∧
        registry.declOf info = .ok decl) ∧
    (∀ name id, registry.classId? name = some id → Registry.declaration? sources name = none →
      registry.find id = .ok {
        name, modifiers := .isPublic, superclass := none, interfaces := [], fields := []
        methods := [], constructors := [], broken := false, declared := false }) ∧
    List.Forall₂ (fun source names =>
      (names.Pairwise fun a b => Text.bytes a < Text.bytes b) ∧
        ∀ name, name ∈ names ↔
          (∃ decl ∈ source.classes, decl.name = name) ∨ name ∈ source.unresolvable)
      sources registry.lists := by
  refine ⟨fun name decl h => ?_, fun name id => Registry.find_of_undeclared, ?_⟩
  · obtain ⟨id, hid, hfind⟩ := Registry.exists_find_of_declaration? h
    refine ⟨id, _, hid, hfind, ?_⟩
    exact Registry.declOf_resolveDecl (fun type => Registry.mem_names_of_references h) id
  · rw [Registry.lists_ofSources, List.forall₂_map_right_iff, List.forall₂_same]
    refine fun source _ => ⟨?_, fun name => ?_⟩
    · exact (Ordered.pairwise_ofList _).imp Text.bytes_lt_bytes_iff.2
    · rw [Ordered.mem_ofList, Source.listed, List.mem_append, List.mem_map]

/-- The class `a.A` is read back as its first declaration, and `a.C` is a stub. The list of the second
source has the name `a.A` all the same. -/
theorem content_of_entangled :
    let registry := Registry.ofSources Sample.entangled
    (∃ decl id info, Registry.declaration? Sample.entangled "a.A" = some decl ∧
      decl.fields.map (·.name) = ["self", "size"] ∧ registry.classId? "a.A" = some id ∧
      registry.find id = .ok info ∧ registry.declOf info = .ok decl) ∧
    registry.find ⟨4⟩ = .ok { name := "a.C" } ∧
    registry.lists = [["a.A"], ["a.A", "a.B", "a.C", "a.E"]] := by
  obtain ⟨hdeclared, hstub, -⟩ := content_of_sources Sample.entangled
  have hdecl : ∃ decl, Registry.declaration? Sample.entangled "a.A" = some decl ∧
      decl.fields.map (·.name) = ["self", "size"] := ⟨_, rfl, by decide⟩
  obtain ⟨decl, hdecl, hfields⟩ := hdecl
  obtain ⟨id, info, hid, hfind, hread⟩ := hdeclared "a.A" decl hdecl
  refine ⟨⟨decl, id, info, hdecl, hfields, hid, hfind, hread⟩, ?_, by decide +kernel⟩
  exact hstub "a.C" ⟨4⟩ (by decide +kernel) (by decide +kernel)

end Metamatch
