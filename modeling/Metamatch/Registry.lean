import Metamatch.Host
import Metamatch.Ordered
import Metamatch.Source

/-!
# The class registry

An in-memory resolver over declarations from several sources.

* `Registry.intern`: the handle of a name. A name that is mentioned for the first time gets the next
  one.
* `Registry.ofSources`: first every declared name gets a handle, then the first declaration of each
  is put in with its type names turned into handles. A name that is only mentioned is a stub.
* `Registry.load`, `Registry.find`: a class by name and by handle.
* `Registry.resolver`: the registry as a resolver; its answers are always the same.
-/

namespace Metamatch

/-- What the registry knows about a class: nothing but the name, as long as it is a stub. -/
structure ClassInfo where
  name : String
  modifiers : Modifiers := .isPublic
  superclass : Option ClassId := none
  interfaces : List ClassId := []
  fields : List FieldInfo := []
  methods : List MethodInfo := []
  constructors : List ConstructorInfo := []
  broken : Bool := false
  /-- Some source declares the class. -/
  declared : Bool := false
  deriving DecidableEq, Repr

/-- The names of classes, with their places for handles. -/
def ClassInfo.places (classes : List ClassInfo) : List (String × ClassId) :=
  classes.mapIdx fun index info => (info.name, ⟨index⟩)

theorem ClassInfo.exists_of_lookup_places {classes : List ClassInfo} {name : String} {id : ClassId}
    (h : (places classes).lookup name = some id) :
    ∃ info, classes[id.index]? = some info ∧ info.name = name := by
  obtain ⟨before, after, hsplit, -⟩ := List.lookup_eq_some_iff.1 h
  have hmem : (name, id) ∈ places classes := by
    rw [hsplit]
    exact List.mem_append_right _ List.mem_cons_self
  obtain ⟨index, hindex, heq⟩ := List.mem_mapIdx.1 hmem
  cases heq
  exact ⟨classes[index], List.getElem?_eq_getElem hindex, rfl⟩

/-- Classes by handle, and handles by name, with the name lists of the sources. -/
@[ext]
structure Registry where
  classes : List ClassInfo := []
  handles : List (String × ClassId) := ClassInfo.places classes
  /-- One list of names for each source. -/
  lists : List (List String) := []
  /-- Listed names that no source declares. -/
  missing : List String := []
  /-- The handle of a name leads to the class with the name. -/
  leads : ∀ name id, handles.lookup name = some id →
      ∃ info, classes[id.index]? = some info ∧ info.name = name := by
    exact fun _ _ => ClassInfo.exists_of_lookup_places
  deriving DecidableEq, Repr

namespace Registry

/-- The number of known classes, stubs included. -/
def size (registry : Registry) : Nat := registry.classes.length

/-- The handle of a name, stubs included. -/
def classId? (registry : Registry) (name : String) : Option ClassId :=
  registry.handles.lookup name

/-! ## From sources -/

/-- A further class, of which nothing but the name is known. -/
def push (registry : Registry) (name : String) : Registry where
  classes := registry.classes ++ [{ name }]
  handles := (name, ⟨registry.size⟩) :: registry.handles
  lists := registry.lists
  missing := registry.missing
  leads other id h := by
    rw [List.lookup_cons] at h
    split at h
    · next heq =>
      cases h
      exact ⟨{ name }, List.getElem?_concat_length, (beq_iff_eq.1 heq).symm⟩
    · obtain ⟨info, hinfo, hname⟩ := registry.leads other id h
      obtain ⟨hlt, -⟩ := List.getElem?_eq_some_iff.1 hinfo
      exact ⟨info, by rw [List.getElem?_append_left hlt, hinfo], hname⟩

/-- A change in what is known about a class. Its name stays what it is. -/
def update (registry : Registry) (id : ClassId) (change : ClassInfo → ClassInfo) : Registry where
  classes := registry.classes.modify id.index fun info => { change info with name := info.name }
  handles := registry.handles
  lists := registry.lists
  missing := registry.missing
  leads other id' h := by
    obtain ⟨info, hinfo, hname⟩ := registry.leads other id' h
    rw [List.getElem?_modify, hinfo]
    exact ⟨_, rfl, by split <;> exact hname⟩

/-- Some source declares the class with this handle. -/
def isDeclared (registry : Registry) (id : ClassId) : Bool :=
  registry.classes[id.index]?.any (·.declared)

/-- The handle of a name. A name without one becomes a stub with the next handle. -/
def intern (name : String) : StateM Registry ClassId := do
  let registry ← get
  match registry.classId? name with
  | some id => return id
  | none =>
    set (registry.push name)
    return ⟨registry.size⟩

/-- The name of a declaration gets a handle. The declaration is put aside with it, unless there was
one of the same name before. -/
def announce (decl : ClassDecl) : StateM Registry (Option (ClassId × ClassDecl)) := do
  let id ← intern decl.name
  let registry ← get
  if registry.isDeclared id then
    return none
  else
    set (registry.update id ({ · with declared := true }))
    return some (id, decl)

/-- All declarations of a source are announced, and the names that it lists are put in order. -/
def enter (source : Source) : StateM Registry (List (ClassId × ClassDecl)) := do
  let pending ← source.classes.mapM announce
  let names := Ordered.dedup (Ordered.sort (· < ·) source.listed)
  modify fun registry => { registry with lists := registry.lists ++ [names] }
  return pending.filterMap id

/-- A declaration with its type names turned into handles, in the order in which it mentions
them. -/
def internDecl (owner : ClassId) (decl : ClassDecl) : StateM Registry ClassInfo := do
  let superclass ← decl.superclass.mapM intern
  let interfaces ← decl.interfaces.mapM intern
  let fields ← decl.fields.zipIdx.mapM fun (field, index) => do
    let type ← intern field.type
    return { name := field.name, type, modifiers := field.modifiers, id := ⟨owner, index⟩ }
  let methods ← decl.methods.zipIdx.mapM fun (method, index) => do
    let returnType ← intern method.returnType
    let parameters ← method.parameters.mapM intern
    return { name := method.name, returnType, parameters, modifiers := method.modifiers,
             id := ⟨owner, index⟩ }
  let constructors ← decl.constructors.zipIdx.mapM fun (constructor, index) => do
    let parameters ← constructor.parameters.mapM intern
    return { parameters, modifiers := constructor.modifiers, id := ⟨owner, index⟩ }
  return { name := decl.name, modifiers := decl.modifiers, superclass, interfaces, fields, methods,
           constructors, broken := decl.broken }

/-- A declaration is put in. -/
def populate (id : ClassId) (decl : ClassDecl) : StateM Registry Unit := do
  let info ← internDecl id decl
  modify (·.update id fun known => { info with declared := known.declared })

/-- The names without a class that some source declares. -/
def undeclared (registry : Registry) (names : List String) : List String :=
  names.filter fun name => !(registry.classId? name).any registry.isDeclared

/-- Sources are put in: first their names, then the first declaration of each. -/
def enterAll (sources : List Source) : StateM Registry Unit := do
  let pending ← sources.mapM enter
  modify fun registry =>
    { registry with missing := registry.undeclared (sources.flatMap (·.unresolvable)) }
  pending.flatten.forM fun entry => populate entry.1 entry.2

/-- A registry that knows nothing. -/
def empty : Registry := {}

/-- The registry of some sources. -/
def ofSources (sources : List Source) : Registry := (enterAll sources empty).2

/-! ## Lookups -/

/-- The class with a handle. -/
def find (registry : Registry) (id : ClassId) : Except LookupError ClassInfo :=
  match registry.classes[id.index]? with
  | some info => .ok info
  | none => .error (.unknownClass id)

/-- The reason given for a class that is marked as broken. -/
def brokenReason : String := "class failed verification"

/-- The class with a name, if it can be loaded. A name that sources only list cannot, even where
a declaration refers to it. -/
def load (registry : Registry) (name : String) : Except LookupError ClassId :=
  if registry.missing.contains name then .error (.classNotFound name)
  else
    match registry.classId? name with
    | none => .error (.classNotFound name)
    | some id => do
      if (← registry.find id).broken then .error (.linkage name brokenReason) else .ok id

/-- The registry as a resolver. -/
def resolver {σ : Type} (registry : Registry) : Resolver σ where
  loadClass name := .ofExcept (registry.load name)
  className id := .ofExcept ((·.name) <$> registry.find id)
  classModifiers id := .ofExcept ((·.modifiers) <$> registry.find id)
  superclass id := .ofExcept ((·.superclass) <$> registry.find id)
  interfaces id := .ofExcept ((·.interfaces) <$> registry.find id)
  fields id := .ofExcept ((·.fields) <$> registry.find id)
  methods id := .ofExcept ((·.methods) <$> registry.find id)
  constructors id := .ofExcept ((·.constructors) <$> registry.find id)

end Registry

end Metamatch
