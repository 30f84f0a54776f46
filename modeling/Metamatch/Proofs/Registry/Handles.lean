import Metamatch.Proofs.Holdings

/-!
# Handles of a registry of sources

Handles count names in the order of their first mention, and lead back to them. Whatever handle a
registry stores is one of these, so that no question about it goes unanswered.

* `Registry.mentions`: all mentions of names in turn.
* `ClassInfo.types`, `ClassInfo.handles`, `ClassInfo.Numbered`: the handles in a class.
* `Registry.Gives`, `Resolver.Describes`: handles that come from a registry, and classes about which
  every question has its answer.
* `handles_of_sources`: what holds of them in a registry of sources.
-/

namespace Metamatch

variable {σ : Type}

/-! ## Handles in a class -/

namespace ClassInfo

/-- The types that a class refers to: superclass, interfaces, types of fields, for each method its
return type and then its parameters, and parameters of constructors. -/
def types (info : ClassInfo) : List ClassId :=
  info.superclass.toList ++ info.interfaces ++ info.fields.map (·.type) ++
    info.methods.flatMap (fun method => method.returnType :: method.parameters) ++
    info.constructors.flatMap (·.parameters)

/-- The classes to which members belong by their handles. -/
def owners (info : ClassInfo) : List ClassId :=
  info.fields.map (·.id.owner) ++ info.methods.map (·.id.owner) ++
    info.constructors.map (·.id.owner)

/-- Every handle that a class holds. -/
def handles (info : ClassInfo) : List ClassId := info.types ++ info.owners

/-- The handle of each member is made of the class and the place of the member. -/
structure Numbered (info : ClassInfo) (id : ClassId) : Prop where
  fields : ∀ (index : Nat) (field : FieldInfo), info.fields[index]? = some field →
    field.id = ⟨id, index⟩
  methods : ∀ (index : Nat) (method : MethodInfo), info.methods[index]? = some method →
    method.id = ⟨id, index⟩
  constructors : ∀ (index : Nat) (constructor : ConstructorInfo),
    info.constructors[index]? = some constructor → constructor.id = ⟨id, index⟩

variable {info : ClassInfo} {id other : ClassId}

theorem Numbered.eq_of_mem_owners (h : info.Numbered id) (hother : other ∈ info.owners) :
    other = id := by
  rw [owners, List.mem_append, List.mem_append, List.mem_map, List.mem_map, List.mem_map] at hother
  rcases hother with (⟨field, hmem, rfl⟩ | ⟨method, hmem, rfl⟩) | ⟨constructor, hmem, rfl⟩
  · obtain ⟨index, hindex⟩ := List.mem_iff_getElem?.1 hmem
    rw [h.fields index field hindex]
  · obtain ⟨index, hindex⟩ := List.mem_iff_getElem?.1 hmem
    rw [h.methods index method hindex]
  · obtain ⟨index, hindex⟩ := List.mem_iff_getElem?.1 hmem
    rw [h.constructors index constructor hindex]

end ClassInfo

namespace Registry

variable {sources : List Source} {name : String} {id : ClassId} {info : ClassInfo}

/-- All mentions of names in turn: the declared ones source by source, and then, going through the
first declaration of each in the same order, those that it refers to. -/
def mentions (sources : List Source) : List String :=
  (sources.flatMap (·.classes)).map (·.name) ++
    ((declared sources).filterMap (declaration? sources)).flatMap ClassDecl.references

/-- **A name is known by its first mention.** -/
theorem names_eq_mentions (sources : List Source) : names sources = (mentions sources).eraseDups :=
  eraseDups_eraseDups_append _ _

theorem types_resolveDecl (handle : String → ClassId) (owner : ClassId) (decl : ClassDecl) :
    (resolveDecl handle owner decl).types = decl.references.map handle := by
  have hflat : ∀ {α β : Type} (items : List α) (f : Nat → α → β) (types : β → List ClassId)
      (references : α → List String),
      (∀ index item, types (f index item) = (references item).map handle) →
      (items.mapIdx f).flatMap types = (items.flatMap references).map handle := by
    intro α β items f types references hitem
    induction items generalizing f with
    | nil => rfl
    | cons item rest ih =>
      rw [List.mapIdx_cons, List.flatMap_cons, List.flatMap_cons, List.map_append, hitem,
        ih _ fun index => hitem (index + 1)]
  have hfields := hflat decl.fields
    (fun index field => ⟨field.name, handle field.type, field.modifiers, ⟨owner, index⟩⟩)
    (fun field : FieldInfo => [field.type]) (fun field => [field.type]) fun _ _ => rfl
  have hmethods := hflat decl.methods
    (fun index method => ⟨method.name, handle method.returnType, method.parameters.map handle,
      method.modifiers, ⟨owner, index⟩⟩)
    (fun method : MethodInfo => method.returnType :: method.parameters)
    (fun method => method.returnType :: method.parameters) fun _ _ => rfl
  have hconstructors := hflat decl.constructors
    (fun index constructor => ⟨constructor.parameters.map handle, constructor.modifiers,
      ⟨owner, index⟩⟩)
    (fun constructor : ConstructorInfo => constructor.parameters) (·.parameters) fun _ _ => rfl
  have hsuperclass : (decl.superclass.map handle).toList = decl.superclass.toList.map handle := by
    cases decl.superclass <;> rfl
  rw [← List.map_eq_flatMap, ← List.map_eq_flatMap] at hfields
  simp only [ClassInfo.types, ClassDecl.references, List.map_append]
  exact congrArg₂ _ (congrArg₂ _ (congrArg₂ _ (congrArg₂ _ hsuperclass rfl) hfields) hmethods)
    hconstructors

theorem numbered_resolveDecl (handle : String → ClassId) (owner : ClassId) (decl : ClassDecl) :
    (resolveDecl handle owner decl).Numbered owner := by
  refine ⟨fun index field h => ?_, fun index method h => ?_, fun index constructor h => ?_⟩
  · obtain ⟨item, -, rfl⟩ := Option.map_eq_some_iff.1 (List.getElem?_mapIdx.symm.trans h)
    rfl
  · obtain ⟨item, -, rfl⟩ := Option.map_eq_some_iff.1 (List.getElem?_mapIdx.symm.trans h)
    rfl
  · obtain ⟨item, -, rfl⟩ := Option.map_eq_some_iff.1 (List.getElem?_mapIdx.symm.trans h)
    rfl

/-! ## Handles in a registry -/

/-- **The name table and the classes are inverse to each other.** -/
theorem classId?_eq_some_iff : (ofSources sources).classId? name = some id ↔
    (ofSources sources).Denotes id name := by
  rw [classId?_ofSources]
  constructor
  · intro h
    split at h
    · next hname =>
      cases h
      exact denotes_handle hname
    · cases h
  · intro h
    obtain ⟨hname, rfl⟩ := eq_handle_of_denotes h
    rw [if_pos hname]

theorem handle_lt_size (h : name ∈ names sources) :
    (handle sources name).index < (ofSources sources).size := by
  rw [← length_known, known_ofSources]
  exact List.idxOf_lt_length_iff.2 h

/-- **Members carry their class and their place.** -/
theorem numbered_of_find (h : (ofSources sources).find id = .ok info) : info.Numbered id := by
  obtain ⟨hid, hinfo⟩ := eq_classInfo_of_find h
  rw [hinfo, classInfo]
  split
  · rw [← hid]
    exact numbered_resolveDecl _ _ _
  · refine ⟨fun index field h => ?_, fun index method h => ?_, fun index constructor h => ?_⟩
    · cases h
    · cases h
    · cases h

theorem lt_size_of_find {registry : Registry} (h : registry.find id = .ok info) :
    id.index < registry.size :=
  (List.getElem?_eq_some_iff.1 (getElem?_of_find h)).1

/-- **Every handle in a class is one of the registry.** -/
theorem lt_size_of_mem_handles (h : (ofSources sources).find id = .ok info) {other : ClassId}
    (hother : other ∈ info.handles) : other.index < (ofSources sources).size := by
  rcases List.mem_append.1 hother with htype | howner
  · obtain ⟨hid, hinfo⟩ := eq_classInfo_of_find h
    rw [hinfo, classInfo] at htype
    split at htype
    · next decl hdecl =>
      rw [types_resolveDecl] at htype
      obtain ⟨type, hmem, rfl⟩ := List.mem_map.1 htype
      exact handle_lt_size (mem_names_of_references hdecl hmem)
    · cases htype
  · rw [(numbered_of_find h).eq_of_mem_owners howner]
    exact lt_size_of_find h

/-- The handles that come from a registry: by name, or with a class that such a handle leads to. -/
inductive Gives (registry : Registry) : ClassId → Prop
  | name {name : String} {id : ClassId} : registry.classId? name = some id → Gives registry id
  | load {name : String} {id : ClassId} : registry.load name = .ok id → Gives registry id
  | stored {id other : ClassId} {info : ClassInfo} : Gives registry id →
    registry.find id = .ok info → other ∈ info.handles → Gives registry other

theorem Gives.lt_size (h : (ofSources sources).Gives id) : id.index < (ofSources sources).size := by
  induction h with
  | name h =>
    obtain ⟨info, hinfo, -⟩ := classId?_eq_some_iff.1 h
    exact lt_size_of_find hinfo
  | load h =>
    obtain ⟨info, hinfo, -⟩ := exists_of_load h
    exact lt_size_of_find hinfo
  | stored _ hfind hother _ => exact lt_size_of_mem_handles hfind hother

theorem exists_find_of_lt {registry : Registry} (h : id.index < registry.size) :
    ∃ info, registry.find id = .ok info := by
  refine ⟨registry.classes[id.index], ?_⟩
  rw [find, List.getElem?_eq_getElem h]

end Registry

/-- Every question to a resolver about a class has its answer. -/
structure Resolver.Describes (resolver : Resolver σ) (id : ClassId) (info : ClassInfo) : Prop where
  className : resolver.className id = pure info.name
  classModifiers : resolver.classModifiers id = pure info.modifiers
  superclass : resolver.superclass id = pure info.superclass
  interfaces : resolver.interfaces id = pure info.interfaces
  fields : resolver.fields id = pure info.fields
  methods : resolver.methods id = pure info.methods
  constructors : resolver.constructors id = pure info.constructors

theorem Registry.describes_of_find {registry : Registry} {id : ClassId} {info : ClassInfo}
    (h : registry.find id = .ok info) : (registry.resolver : Resolver σ).Describes id info := by
  have hanswer : ∀ {α : Type} (part : ClassInfo → α),
      (Call.ofExcept (part <$> registry.find id) : Call σ α) = pure (part info) := by
    intro α part
    rw [h]
    rfl
  exact ⟨hanswer _, hanswer _, hanswer _, hanswer _, hanswer _, hanswer _, hanswer _⟩

/-- **Handles of a registry count the names in the order of their first mention.** Every handle that
a class holds is one of these, and leads to a class about which every question has its answer. -/
theorem handles_of_sources (sources : List Source) :
    let registry := Registry.ofSources sources
    registry.known = (Registry.mentions sources).eraseDups ∧
    registry.known.Nodup ∧
    (∀ id, id.index < registry.size ↔ ∃ name, registry.Denotes id name) ∧
    (∀ name id, registry.classId? name = some id ↔ registry.Denotes id name) ∧
    (∀ id info, registry.find id = .ok info →
      (∀ other ∈ info.handles, other.index < registry.size) ∧ info.Numbered id) ∧
    ∀ id, registry.Gives id →
      ∃ info, (registry.resolver : Resolver σ).Describes id info := by
  dsimp only
  refine ⟨?_, Registry.nodup_ofSources sources, fun id => ⟨fun h => ?_, ?_⟩,
    fun name id => Registry.classId?_eq_some_iff, fun id info h => ⟨fun other => ?_, ?_⟩,
    fun id h => ?_⟩
  · rw [Registry.known_ofSources, Registry.names_eq_mentions]
  · obtain ⟨info, hinfo⟩ := Registry.exists_find_of_lt h
    exact ⟨info.name, info, hinfo, rfl⟩
  · rintro ⟨name, info, hinfo, -⟩
    exact Registry.lt_size_of_find hinfo
  · exact Registry.lt_size_of_mem_handles h
  · exact Registry.numbered_of_find h
  · obtain ⟨info, hinfo⟩ := Registry.exists_find_of_lt h.lt_size
    exact ⟨info, Registry.describes_of_find hinfo⟩

namespace Sample

/-- Classes that refer to each other and to themselves, one of them declared twice, with names that
no source declares. -/
def entangled : List Source :=
  [{ classes :=
      [{ name := "a.A", superclass := some "a.B", interfaces := ["a.I"]
         fields := [{ name := "self", type := "a.A" }, { name := "size", type := "int" }]
         methods := [{ name := "with", returnType := "a.B", parameters := ["a.A", "int"] }] }] },
    { classes :=
        [{ name := "a.B", superclass := some "a.A", constructors := [{ parameters := ["a.C"] }] },
          { name := "a.A", fields := [{ name := "other", type := "a.D" }] }]
      unresolvable := ["a.C", "a.E"] }]

end Sample

/-- The second declaration of `a.A` comes to nothing, and so does the type that it refers to. The
type of the second field is a handle that the registry gives. -/
theorem handles_of_entangled :
    let registry := Registry.ofSources Sample.entangled
    registry.known = ["a.A", "a.B", "a.I", "int", "a.C"] ∧
      (∃ info, registry.find ⟨0⟩ = .ok info ∧ info.Numbered ⟨0⟩) ∧
      registry.Gives ⟨3⟩ ∧ ∃ info, (registry.resolver : Resolver Unit).Describes ⟨3⟩ info := by
  obtain ⟨-, -, -, -, hclasses, hgives⟩ := handles_of_sources (σ := Unit) Sample.entangled
  have hfind : ∃ info, (Registry.ofSources Sample.entangled).find ⟨0⟩ = .ok info ∧
      ⟨3⟩ ∈ info.handles := ⟨_, rfl, by decide +kernel⟩
  obtain ⟨info, hinfo, hmem⟩ := hfind
  have hname : (Registry.ofSources Sample.entangled).classId? "a.A" = some ⟨0⟩ := by
    decide +kernel
  have hgiven : (Registry.ofSources Sample.entangled).Gives ⟨3⟩ := .stored (.name hname) hinfo hmem
  exact ⟨by decide +kernel, ⟨info, hinfo, (hclasses _ _ hinfo).2⟩, hgiven, hgives _ hgiven⟩

end Metamatch
