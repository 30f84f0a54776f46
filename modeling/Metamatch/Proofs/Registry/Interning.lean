import Mathlib.Data.List.Nodup
import Metamatch.Registry

/-!
# Names interned

A name that is mentioned gets a handle and keeps it. So a computation that goes through names turns
each into the handle that it has in the end, whatever comes in between.

* `Registry.mention`: a registry in which names have been mentioned.
* `Registry.Mentions`: a computation that mentions names and makes its result from their handles.
* `Registry.mentions_internDecl`: a declaration mentions the names that it refers to.
* `Registry.Indexed`: handles and classes of a registry are inverse to each other.
* `Registry.Indexed.known_mention`: new names come behind the others, in the order of their first
  mention.
-/

namespace Metamatch.Registry

variable {registry : Registry} {name : String} {id : ClassId} {names : List String} {α β : Type}

/-! ## Mentions -/

theorem intern_of_some (h : registry.classId? name = some id) :
    intern name registry = (id, registry) := by
  simp only [intern, bind, StateT.bind, get, getThe, MonadStateOf.get, StateT.get, pure, h]
  rfl

theorem intern_of_none (h : registry.classId? name = none) :
    intern name registry = (⟨registry.size⟩, registry.push name) := by
  simp only [intern, bind, StateT.bind, get, getThe, MonadStateOf.get, StateT.get, pure, h]
  rfl

/-- A registry in which names have been mentioned, one after the other. -/
def mention (registry : Registry) (names : List String) : Registry :=
  names.foldl (fun registry name => (intern name registry).2) registry

theorem mention_append (registry : Registry) (names names' : List String) :
    registry.mention (names ++ names') = (registry.mention names).mention names' :=
  List.foldl_append

theorem classId?_push (registry : Registry) (name other : String) :
    (registry.push name).classId? other =
      if other = name then some ⟨registry.size⟩ else registry.classId? other := by
  change List.lookup other ((name, _) :: registry.handles) = _
  rw [List.lookup_cons]
  by_cases h : other = name
  · rw [if_pos h, beq_iff_eq.2 h]
  · rw [if_neg h, beq_eq_false_iff_ne.2 h]
    rfl

theorem classId?_intern (registry : Registry) (name : String) :
    (intern name registry).2.classId? name = some (intern name registry).1 := by
  cases h : registry.classId? name with
  | some id => rw [intern_of_some h, h]
  | none => rw [intern_of_none h, classId?_push, if_pos rfl]

theorem classId?_intern_of_some {other : String} (h : registry.classId? name = some id) :
    (intern other registry).2.classId? name = some id := by
  cases hother : registry.classId? other with
  | some _ => rw [intern_of_some hother, h]
  | none =>
    rw [intern_of_none hother, classId?_push, if_neg, h]
    rintro rfl
    cases hother.symm.trans h

/-- **A name keeps its handle.** -/
theorem classId?_mention_of_some (h : registry.classId? name = some id) :
    (registry.mention names).classId? name = some id := by
  induction names generalizing registry with
  | nil => exact h
  | cons other rest ih => exact ih (classId?_intern_of_some h)

theorem exists_classId?_mention (h : name ∈ names) :
    ∃ id, (registry.mention names).classId? name = some id := by
  induction names generalizing registry with
  | nil => cases h
  | cons other rest ih =>
    rcases List.mem_cons.1 h with rfl | h
    · refine ⟨(intern name registry).1, ?_⟩
      change ((intern name registry).2.mention rest).classId? name = _
      exact classId?_mention_of_some (classId?_intern registry name)
    · exact ih h

theorem classId?_mention_of_later {later : List String} (hname : name ∈ names)
    (h : ((registry.mention names).mention later).classId? name = some id) :
    (registry.mention names).classId? name = some id := by
  obtain ⟨now, hnow⟩ := exists_classId?_mention hname
  rw [classId?_mention_of_some hnow] at h
  rw [hnow, h]

/-- A computation mentions these names in turn, and its result is made from the handles that they
have afterwards. -/
def Mentions (step : StateM Registry α) (names : List String) (value : (String → ClassId) → α) :
    Prop :=
  ∀ registry handle,
    (∀ name ∈ names, (mention registry names).classId? name = some (handle name)) →
      step registry = (value handle, registry.mention names)

namespace Mentions

theorem pure (a : α) : Mentions (pure a) [] fun _ => a := fun _ _ _ => rfl

theorem intern (name : String) : Mentions (intern name) [name] fun handle => handle name := by
  intro registry handle h
  have hname := h name List.mem_cons_self
  have hown := classId?_intern registry name
  change (Registry.intern name registry).2.classId? name = _ at hname
  have hhandle : handle name = (Registry.intern name registry).1 :=
    Option.some.inj (hname.symm.trans hown)
  dsimp only
  rw [hhandle]
  rfl

theorem bind {step : StateM Registry α} {next : α → StateM Registry β} {names' : List String}
    {value : (String → ClassId) → α} {value' : α → (String → ClassId) → β}
    (h : Mentions step names value) (h' : ∀ a, Mentions (next a) names' (value' a)) :
    Mentions (step >>= next) (names ++ names') fun handle => value' (value handle) handle := by
  intro registry handle hhandle
  rw [mention_append] at hhandle ⊢
  have hstep := h registry handle fun name hname =>
    classId?_mention_of_later hname (hhandle name (List.mem_append_left _ hname))
  change next (step registry).1 (step registry).2 = _
  rw [hstep]
  exact h' _ _ handle fun name hname => hhandle name (List.mem_append_right _ hname)

theorem map {step : StateM Registry α} {value : (String → ClassId) → α} (h : Mentions step names value)
    (f : α → β) : Mentions (step >>= fun a => Pure.pure (f a)) names fun handle => f (value handle) := by
  have hbind := h.bind fun a => Mentions.pure (f a)
  rwa [List.append_nil] at hbind

theorem mapM (items : List α) {step : α → StateM Registry β} {names : α → List String}
    {value : α → (String → ClassId) → β} (h : ∀ item, Mentions (step item) (names item) (value item)) :
    Mentions (items.mapM step) (items.flatMap names) fun handle =>
      items.map fun item => value item handle := by
  induction items with
  | nil => exact .pure []
  | cons item rest ih =>
    rw [List.mapM_cons, List.flatMap_cons]
    exact (h item).bind fun first => ih.map fun others => first :: others

theorem internAll (names : List String) :
    Mentions (names.mapM Registry.intern) names fun handle => names.map handle := by
  have hall := Mentions.mapM names Mentions.intern
  rwa [List.flatMap_singleton'] at hall

end Mentions

/-! ## Declarations -/

/-- A declaration with its type names turned into handles by `handle`. -/
def resolveDecl (handle : String → ClassId) (owner : ClassId) (decl : ClassDecl) : ClassInfo where
  name := decl.name
  modifiers := decl.modifiers
  superclass := decl.superclass.map handle
  interfaces := decl.interfaces.map handle
  fields := decl.fields.mapIdx fun index field =>
    ⟨field.name, handle field.type, field.modifiers, ⟨owner, index⟩⟩
  methods := decl.methods.mapIdx fun index method =>
    ⟨method.name, handle method.returnType, method.parameters.map handle, method.modifiers,
      ⟨owner, index⟩⟩
  constructors := decl.constructors.mapIdx fun index constructor =>
    ⟨constructor.parameters.map handle, constructor.modifiers, ⟨owner, index⟩⟩
  broken := decl.broken
  declared := true

/-- **A declaration mentions the names that it refers to**, and is made from their handles. -/
theorem mentions_internDecl (owner : ClassId) (decl : ClassDecl) :
    Mentions (internDecl owner decl) decl.references fun handle =>
      { resolveDecl handle owner decl with declared := false } := by
  have hsuperclass : Mentions (decl.superclass.mapM intern) decl.superclass.toList
      fun handle => decl.superclass.map handle := by
    cases decl.superclass with
    | none => exact .pure none
    | some name => exact (Mentions.intern name).map some
  have hfields := Mentions.mapM decl.fields.zipIdx fun item =>
    (Mentions.intern item.1.type).map fun type =>
      (⟨item.1.name, type, item.1.modifiers, ⟨owner, item.2⟩⟩ : FieldInfo)
  have hmethods := Mentions.mapM decl.methods.zipIdx fun item =>
    (Mentions.intern item.1.returnType).bind fun returnType =>
      (Mentions.internAll item.1.parameters).map fun parameters =>
        (⟨item.1.name, returnType, parameters, item.1.modifiers, ⟨owner, item.2⟩⟩ : MethodInfo)
  have hconstructors := Mentions.mapM decl.constructors.zipIdx fun item =>
    (Mentions.internAll item.1.parameters).map fun parameters =>
      (⟨parameters, item.1.modifiers, ⟨owner, item.2⟩⟩ : ConstructorInfo)
  have hall := hsuperclass.bind fun superclass =>
    (Mentions.internAll decl.interfaces).bind fun interfaces =>
      hfields.bind fun fields => hmethods.bind fun methods =>
        hconstructors.map fun constructors => ({
          name := decl.name, modifiers := decl.modifiers, superclass, interfaces, fields, methods
          constructors, broken := decl.broken } : ClassInfo)
  have hplaces : ∀ {α : Type} (items : List α) (f : α → List String),
      (items.zipIdx.flatMap fun item => f item.1) = items.flatMap f := by
    intro α items f
    rw [← List.flatMap_map, List.zipIdx_map_fst]
  have hnames : decl.references = decl.superclass.toList ++ (decl.interfaces ++
      ((decl.fields.zipIdx.flatMap fun item => [item.1.type]) ++
        ((decl.methods.zipIdx.flatMap fun item => [item.1.returnType] ++ item.1.parameters) ++
          decl.constructors.zipIdx.flatMap fun item => item.1.parameters))) := by
    rw [hplaces decl.fields fun field => [field.type],
      hplaces decl.methods fun method => [method.returnType] ++ method.parameters,
      hplaces decl.constructors fun constructor => constructor.parameters]
    simp [ClassDecl.references, ← List.map_eq_flatMap]
  intro registry handle h
  rw [hnames] at h ⊢
  refine (hall registry handle h).trans ?_
  simp only [resolveDecl, List.mapIdx_eq_zipIdx_map]

/-! ## Names and their places -/

theorem nodup_eraseDups (items : List String) : items.eraseDups.Nodup := by
  -- on the length, since what is left is the rest without its copies of the first
  induction hlength : items.length using Nat.strongRecOn generalizing items with
  | _ length ih =>
    subst hlength
    cases items with
    | nil => exact List.nodup_nil
    | cons item rest =>
      rw [List.eraseDups_cons, List.nodup_cons, List.mem_eraseDups]
      refine ⟨by simp, ih _ ?_ _ rfl⟩
      exact Nat.lt_succ_of_le (List.length_filter_le _ _)

theorem eraseDups_of_nodup {items : List String} (h : items.Nodup) : items.eraseDups = items := by
  induction items with
  | nil => rfl
  | cons item rest ih =>
    obtain ⟨hitem, hrest⟩ := List.nodup_cons.1 h
    have hfilter : rest.filter (fun other => !other == item) = rest := by
      refine List.filter_eq_self.2 fun other hother => ?_
      simpa using ne_of_mem_of_not_mem hother hitem
    rw [List.eraseDups_cons, hfilter, ih hrest]

theorem eraseDups_eraseDups_append (items others : List String) :
    (items.eraseDups ++ others).eraseDups = (items ++ others).eraseDups := by
  rw [List.eraseDups_append, List.eraseDups_append, eraseDups_of_nodup (nodup_eraseDups items)]
  congr 2
  refine List.filter_congr fun other _ => ?_
  rw [Bool.eq_iff_iff]
  simp

/-- The names of the classes of a registry, in the order of their handles. -/
def known (registry : Registry) : List String := registry.classes.map (·.name)

/-- No name is known twice, and every one has a handle. -/
structure Indexed (registry : Registry) : Prop where
  nodup : registry.known.Nodup
  complete : ∀ name ∈ registry.known, ∃ id, registry.classId? name = some id

theorem getElem?_known_of_classId? (h : registry.classId? name = some id) :
    registry.known[id.index]? = some name := by
  obtain ⟨info, hinfo, hname⟩ := registry.leads name id h
  rw [known, List.getElem?_map, hinfo, Option.map_some, hname]

theorem known_push (registry : Registry) (name : String) :
    (registry.push name).known = registry.known ++ [name] := List.map_append

theorem length_known (registry : Registry) : registry.known.length = registry.size :=
  List.length_map _

theorem known_update (registry : Registry) (id : ClassId) (change : ClassInfo → ClassInfo) :
    (registry.update id change).known = registry.known := by
  refine List.ext_getElem? fun index => ?_
  rw [known, known, List.getElem?_map, List.getElem?_map]
  change ((registry.classes.modify id.index _)[index]?).map _ = _
  rw [List.getElem?_modify]
  cases registry.classes[index]? with
  | none => rfl
  | some info =>
    split
    · rfl
    · rfl

namespace Indexed

theorem empty : Indexed .empty := ⟨List.nodup_nil, List.forall_mem_nil _⟩

/-- **The handle of a name is its place among the names.** -/
theorem classId?_eq (h : registry.Indexed) (name : String) : registry.classId? name =
    if name ∈ registry.known then some ⟨registry.known.idxOf name⟩ else none := by
  cases hid : registry.classId? name with
  | none =>
    rw [if_neg]
    intro hmem
    obtain ⟨id, hsome⟩ := h.complete name hmem
    cases hid.symm.trans hsome
  | some id =>
    have hget := getElem?_known_of_classId? hid
    obtain ⟨hlt, hname⟩ := List.getElem?_eq_some_iff.1 hget
    rw [if_pos (List.mem_of_getElem? hget), ← hname, h.nodup.idxOf_getElem]

theorem classId?_eq_none (h : registry.Indexed) :
    registry.classId? name = none ↔ name ∉ registry.known := by
  rw [h.classId?_eq]
  split <;> simp [*]

theorem push (h : registry.Indexed) (hname : registry.classId? name = none) :
    (registry.push name).Indexed where
  nodup := by
    rw [known_push, List.nodup_append]
    refine ⟨h.nodup, List.nodup_singleton name, fun other hother _ hmem => ?_⟩
    rw [List.mem_singleton.1 hmem]
    exact ne_of_mem_of_not_mem hother (h.classId?_eq_none.1 hname)
  complete other hother := by
    rw [known_push, List.mem_append, List.mem_singleton] at hother
    rw [classId?_push]
    split
    · exact ⟨_, rfl⟩
    · next hne => exact h.complete other (hother.resolve_right hne)

theorem update (h : registry.Indexed) (id : ClassId) (change : ClassInfo → ClassInfo) :
    (registry.update id change).Indexed where
  nodup := known_update registry id change ▸ h.nodup
  complete := known_update registry id change ▸ h.complete

theorem intern (h : registry.Indexed) (name : String) : (intern name registry).2.Indexed := by
  cases hid : registry.classId? name with
  | some id => rwa [intern_of_some hid]
  | none =>
    rw [intern_of_none hid]
    exact h.push hid

theorem known_intern (h : registry.Indexed) (name : String) :
    (Registry.intern name registry).2.known = (registry.known ++ [name]).eraseDups := by
  cases hid : registry.classId? name with
  | some id =>
    have hmem := List.mem_of_getElem? (getElem?_known_of_classId? hid)
    rw [intern_of_some hid, List.eraseDups_append, eraseDups_of_nodup h.nodup]
    simp [List.removeAll, hmem]
  | none =>
    rw [intern_of_none hid, known_push]
    refine (eraseDups_of_nodup ?_).symm
    rw [← known_push]
    exact (h.push hid).nodup

theorem mention (h : registry.Indexed) (names : List String) :
    (registry.mention names).Indexed := by
  induction names generalizing registry with
  | nil => exact h
  | cons name rest ih => exact ih (h.intern name)

/-- **New names come behind the others**, in the order of their first mention. -/
theorem known_mention (h : registry.Indexed) (names : List String) :
    (registry.mention names).known = (registry.known ++ names).eraseDups := by
  induction names generalizing registry with
  | nil =>
    rw [List.append_nil, eraseDups_of_nodup h.nodup]
    rfl
  | cons name rest ih =>
    change ((Registry.intern name registry).2.mention rest).known = _
    rw [ih (h.intern name), h.known_intern, eraseDups_eraseDups_append, List.append_assoc]
    rfl

end Indexed

/-! ## What a mention leaves alone -/

theorem mention_fresh (registry : Registry) (names : List String) :
    ∃ fresh : List String,
      (registry.mention names).classes = registry.classes ++ fresh.map ({ name := · }) ∧
      (registry.mention names).lists = registry.lists ∧
      (registry.mention names).missing = registry.missing := by
  induction names generalizing registry with
  | nil => exact ⟨[], (List.append_nil _).symm, rfl, rfl⟩
  | cons name rest ih =>
    obtain ⟨fresh, hclasses, hlists, hmissing⟩ := ih (intern name registry).2
    change ∃ fresh : List String, ((intern name registry).2.mention rest).classes = _ ∧
      ((intern name registry).2.mention rest).lists = _ ∧
      ((intern name registry).2.mention rest).missing = _
    rw [hclasses, hlists, hmissing]
    cases hid : registry.classId? name with
    | some id =>
      rw [intern_of_some hid]
      exact ⟨fresh, rfl, rfl, rfl⟩
    | none =>
      rw [intern_of_none hid]
      exact ⟨name :: fresh, List.append_assoc _ _ _, rfl, rfl⟩

theorem modify_append_of_lt {items : List α} {index : Nat} (h : index < items.length) (f : α → α)
    (others : List α) : (items ++ others).modify index f = items.modify index f ++ others := by
  have hlt : index < (items ++ others).length := by
    rw [List.length_append]
    omega
  rw [List.modify_eq_take_cons_drop hlt, List.modify_eq_take_cons_drop h,
    List.getElem_append_left h, List.take_append_of_le_length (Nat.le_of_lt h),
    List.drop_append_of_le_length h, List.append_assoc, List.cons_append]

theorem push_update (hid : id.index < registry.size) (change : ClassInfo → ClassInfo)
    (name : String) :
    (registry.update id change).push name = (registry.push name).update id change := by
  refine Registry.ext (modify_append_of_lt hid _ _).symm ?_ rfl rfl
  have hsize : (registry.update id change).size = registry.size := List.length_modify _ _ _
  exact congrArg (fun size => (name, ⟨size⟩) :: registry.handles) hsize

theorem mention_update (registry : Registry) (hid : id.index < registry.size)
    (change : ClassInfo → ClassInfo) (names : List String) :
    (registry.update id change).mention names = (registry.mention names).update id change := by
  induction names generalizing registry with
  | nil => rfl
  | cons name rest ih =>
    change (intern name (registry.update id change)).2.mention rest =
      ((intern name registry).2.mention rest).update id change
    cases hname : registry.classId? name with
    | some other =>
      have hname' : (registry.update id change).classId? name = some other := hname
      rw [intern_of_some hname, intern_of_some hname']
      exact ih registry hid
    | none =>
      have hname' : (registry.update id change).classId? name = none := hname
      have hsize : (registry.push name).size = registry.size + 1 := List.length_append
      rw [intern_of_none hname, intern_of_none hname', push_update hid]
      refine ih (registry.push name) ?_
      omega

end Metamatch.Registry
