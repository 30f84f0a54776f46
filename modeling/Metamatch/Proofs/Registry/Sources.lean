import Metamatch.Proofs.Ordered
import Metamatch.Proofs.Registry.Interning
import Mathlib.Data.String.Basic

/-!
# Registries of sources

Sources are put into a registry in two passes. After the first one every declared name has a handle,
and the declarations put aside are the first ones of each name, in the order of these handles. The
second one only adds stubs behind them. So what becomes of sources can be told from the sources.

* `Registry.declaration?`, `Registry.names`, `Registry.classInfo`: the declaration of a name, all
  names in the order of their first mention, and the class of a name.
* `Registry.Announces`, `Registry.announces_enter`: the first pass.
* `Registry.populateAll_spec`: the second pass.
* `Registry.filled_eq_classInfo`: what the passes make of a class.
* `Registry.classes_ofSources`, `Registry.classId?_ofSources`, `Registry.lists_ofSources`,
  `Registry.missing_ofSources`: what a registry of sources holds.
-/

namespace Metamatch.Registry

variable {sources : List Source} {name : String} {decl : ClassDecl}

/-- The declaration of a name: the first of that name, source by source. -/
def declaration? (sources : List Source) (name : String) : Option ClassDecl :=
  (sources.flatMap (·.classes)).find? (·.name == name)

/-- The names that sources declare, in the order of their first declarations. -/
def declared (sources : List Source) : List String :=
  ((sources.flatMap (·.classes)).map (·.name)).eraseDups

/-- All names in the order of their first mention: first the declared ones, then, going through
their declarations in the same order, the names that each declaration refers to. -/
def names (sources : List Source) : List String :=
  (declared sources ++
    ((declared sources).filterMap (declaration? sources)).flatMap ClassDecl.references).eraseDups

/-- The class with a name: its declaration resolved, or a stub with nothing but the name. -/
def classInfo (sources : List Source) (handle : String → ClassId) (name : String) : ClassInfo :=
  match declaration? sources name with
  | some decl => resolveDecl handle (handle name) decl
  | none => { name := name }

/-- The handle of a name: its place in the order of first mentions. -/
def handle (sources : List Source) (name : String) : ClassId := ⟨(names sources).idxOf name⟩

theorem name_of_declaration? (h : declaration? sources name = some decl) : decl.name = name := by
  simpa using List.find?_some h

theorem mem_declared : name ∈ declared sources ↔
    ∃ decl ∈ sources.flatMap (·.classes), decl.name = name := by
  rw [declared, List.mem_eraseDups, List.mem_map]

theorem isSome_declaration? : (declaration? sources name).isSome ↔ name ∈ declared sources := by
  rw [mem_declared, declaration?, List.find?_isSome]
  simp only [beq_iff_eq]

/-! ## The first pass -/

/-- A registry in which nothing is known but declared names. -/
structure Announced (registry : Registry) : Prop extends registry.Indexed where
  classes : ∀ info ∈ registry.classes, info = { name := info.name, declared := true }

variable {registry registry' registry'' : Registry} {decls decls' : List ClassDecl}
  {pending pending' : List (ClassId × ClassDecl)}

/-- What becomes of declarations that are announced in turn: those of new names are put aside with
their handles. -/
structure Announces (registry : Registry) (decls : List ClassDecl)
    (pending : List (ClassId × ClassDecl)) (registry' : Registry) : Prop where
  announced : registry'.Announced
  /-- Every new name is that of one declaration put aside, in the same order. -/
  fresh : registry'.known = registry.known ++ pending.map (·.2.name)
  /-- Names are in the order of their first declarations. -/
  order : registry'.known = (registry.known ++ decls.map (·.name)).eraseDups
  keeps : ∀ name id, registry.classId? name = some id → registry'.classId? name = some id
  handle : ∀ entry ∈ pending, registry'.classId? entry.2.name = some entry.1
  /-- A declaration put aside is the first one of its name. -/
  first : ∀ entry ∈ pending, decls.find? (·.name == entry.2.name) = some entry.2

namespace Announces

theorem nil (h : registry.Announced) : Announces registry [] [] registry where
  announced := h
  fresh := (List.append_nil _).symm
  order := by rw [List.map_nil, List.append_nil, eraseDups_of_nodup h.nodup]
  keeps _ _ := id
  handle := List.forall_mem_nil _
  first := List.forall_mem_nil _

/-- **Announcing declarations after others** goes on with what the others come to. -/
theorem append (h : Announces registry decls pending registry')
    (h' : Announces registry' decls' pending' registry'') :
    Announces registry (decls ++ decls') (pending ++ pending') registry'' where
  announced := h'.announced
  fresh := by rw [h'.fresh, h.fresh, List.map_append, List.append_assoc]
  order := by
    rw [h'.order, h.order, eraseDups_eraseDups_append, List.map_append, List.append_assoc]
  keeps name id hid := h'.keeps name id (h.keeps name id hid)
  handle := List.forall_mem_append.2 ⟨fun entry hentry => h'.keeps _ _ (h.handle entry hentry),
    h'.handle⟩
  first := by
    refine List.forall_mem_append.2 ⟨fun entry hentry => ?_, fun entry hentry => ?_⟩
    · rw [List.find?_append, h.first entry hentry, Option.some_or]
    · -- the name is new to the second part, so nothing in the first part has it
      have hnodup := h'.announced.nodup
      rw [h'.fresh, List.nodup_append] at hnodup
      have hnone : decls.find? (·.name == entry.2.name) = none := by
        refine List.find?_eq_none.2 fun decl hdecl => ?_
        have hknown : decl.name ∈ registry'.known := by
          rw [h.order, List.mem_eraseDups]
          exact List.mem_append_right _ (List.mem_map_of_mem hdecl)
        have hne := hnodup.2.2 _ hknown _ (List.mem_map_of_mem hentry)
        simpa using hne
      rw [List.find?_append, hnone, Option.none_or, h'.first entry hentry]

end Announces

theorem announce_eq (decl : ClassDecl) (registry : Registry) : announce decl registry =
    if (intern decl.name registry).2.isDeclared (intern decl.name registry).1 then
      (none, (intern decl.name registry).2)
    else
      (some ((intern decl.name registry).1, decl),
        (intern decl.name registry).2.update (intern decl.name registry).1
          ({ · with declared := true })) := by
  change (if (intern decl.name registry).2.isDeclared (intern decl.name registry).1 then _ else _ :
    StateM Registry _) (intern decl.name registry).2 = _
  split <;> rfl

theorem Announced.isDeclared (h : registry.Announced) {id : ClassId}
    (hid : registry.classId? name = some id) : registry.isDeclared id = true := by
  obtain ⟨info, hinfo, -⟩ := registry.leads name id hid
  rw [Registry.isDeclared, hinfo, Option.any_some, h.classes info (List.mem_of_getElem? hinfo)]

/-- A declaration of a name that is known is not put aside. -/
theorem announce_of_some (h : registry.Announced) {id : ClassId}
    (hid : registry.classId? decl.name = some id) : announce decl registry = (none, registry) := by
  rw [announce_eq, intern_of_some hid, if_pos (h.isDeclared hid)]

/-- A registry with one more declared name. -/
def pushDeclared (registry : Registry) (name : String) : Registry :=
  (registry.push name).update ⟨registry.size⟩ ({ · with declared := true })

theorem classes_pushDeclared (registry : Registry) (name : String) :
    (registry.pushDeclared name).classes = registry.classes ++ [{ name, declared := true }] := by
  have hlt : registry.size < (registry.classes ++ [({ name } : ClassInfo)]).length := by
    rw [List.length_append]
    exact Nat.lt_succ_self _
  change (registry.classes ++ [({ name } : ClassInfo)]).modify registry.size _ = _
  rw [List.modify_eq_take_cons_drop hlt]
  simp [size]

/-- A declaration of a name that is not known is put aside with the next handle. -/
theorem announce_of_none (hid : registry.classId? decl.name = none) :
    announce decl registry =
      (some (⟨registry.size⟩, decl), registry.pushDeclared decl.name) := by
  have hdeclared : ¬ (registry.push decl.name).isDeclared ⟨registry.size⟩ = true := by
    change ¬ (registry.classes ++ [_])[registry.classes.length]?.any _ = true
    rw [List.getElem?_concat_length]
    simp
  rw [announce_eq, intern_of_none hid, if_neg hdeclared]
  rfl

namespace Announces

theorem single (h : registry.Announced) (decl : ClassDecl) :
    Announces registry [decl] (announce decl registry).1.toList (announce decl registry).2 := by
  have horder := h.known_intern decl.name
  cases hid : registry.classId? decl.name with
  | some id =>
    rw [announce_of_some h hid]
    rw [intern_of_some hid] at horder
    exact {
      announced := h
      fresh := (List.append_nil _).symm
      order := horder
      keeps := fun _ _ hname => hname
      handle := List.forall_mem_nil _
      first := List.forall_mem_nil _ }
  | none =>
    rw [announce_of_none hid]
    rw [intern_of_none hid] at horder
    have hknown : (registry.pushDeclared decl.name).known = (registry.push decl.name).known :=
      known_update _ _ _
    exact {
      announced := {
        toIndexed := (h.push hid).update _ _
        classes := by
          rw [classes_pushDeclared]
          exact List.forall_mem_append.2 ⟨h.classes, List.forall_mem_singleton.2 rfl⟩ }
      fresh := hknown.trans (known_push _ _)
      order := hknown.trans horder
      keeps := fun name id hname => by
        change (registry.push decl.name).classId? name = some id
        rw [classId?_push, if_neg, hname]
        rintro rfl
        cases hid.symm.trans hname
      handle := List.forall_mem_singleton.2 ((classId?_push _ _ _).trans (if_pos rfl))
      first := List.forall_mem_singleton.2 (List.find?_cons_of_pos (beq_self_eq_true _)) }

theorem mapM (h : registry.Announced) (decls : List ClassDecl) :
    Announces registry decls ((decls.mapM Registry.announce registry).1.filterMap id)
      (decls.mapM Registry.announce registry).2 := by
  induction decls generalizing registry with
  | nil => exact .nil h
  | cons decl rest ih =>
    have hfirst := single h decl
    have hrest := hfirst.append (ih hfirst.announced)
    rw [List.mapM_cons]
    change Announces registry (decl :: rest)
      (((Registry.announce decl registry).1 ::
        (rest.mapM Registry.announce (Registry.announce decl registry).2).1).filterMap id) _
    rw [List.filterMap_cons]
    cases hone : (Registry.announce decl registry).1 with
    | none =>
      rw [hone] at hrest
      exact hrest
    | some entry =>
      rw [hone] at hrest
      exact hrest

theorem withLists (h : Announces registry decls pending registry') (lists : List (List String)) :
    Announces registry decls pending { registry' with lists := lists } where
  announced := { h.announced with }
  fresh := h.fresh
  order := h.order
  keeps := h.keeps
  handle := h.handle
  first := h.first

end Announces

theorem lists_announceAll (decls : List ClassDecl) (registry : Registry) :
    (decls.mapM announce registry).2.lists = registry.lists := by
  induction decls generalizing registry with
  | nil => rfl
  | cons decl rest ih =>
    rw [List.mapM_cons]
    refine (ih (announce decl registry).2).trans ?_
    obtain ⟨-, -, hlists, -⟩ := mention_fresh registry [decl.name]
    rw [announce_eq]
    split
    · exact hlists
    · exact hlists

/-- **The first pass** announces all declarations, and puts the names that each source lists in
order. -/
theorem announces_enter (h : registry.Announced) (sources : List Source) :
    Announces registry (sources.flatMap (·.classes)) (sources.mapM enter registry).1.flatten
        (sources.mapM enter registry).2 ∧
      (sources.mapM enter registry).2.lists =
        registry.lists ++ sources.map fun source => Ordered.ofList source.listed := by
  induction sources generalizing registry with
  | nil => exact ⟨.nil h, (List.append_nil _).symm⟩
  | cons source rest ih =>
    set entered := (source.classes.mapM announce registry).2 with hentered
    set listed := entered.lists ++ [Ordered.dedup (Ordered.sort (· < ·) source.listed)] with hlisted
    have hfirst := (Announces.mapM h source.classes).withLists listed
    obtain ⟨hrest, hlists⟩ := ih hfirst.announced
    rw [List.mapM_cons]
    refine ⟨hfirst.append hrest, hlists.trans ?_⟩
    change listed ++ _ = _
    rw [hlisted, hentered, lists_announceAll, Ordered.dedup_sort, List.append_assoc]
    rfl

/-! ## The second pass -/

/-- What a pass over declarations puts in the place of a class. -/
def filled (handle : String → ClassId) (pending : List (ClassId × ClassDecl)) (index : Nat)
    (info : ClassInfo) : ClassInfo :=
  match pending.find? (·.1.index == index) with
  | some entry =>
    { resolveDecl handle entry.1 entry.2 with name := info.name, declared := info.declared }
  | none => info

/-- A declaration is put in once the names that it refers to have been mentioned. -/
theorem populate_eq {handle : String → ClassId} (id : ClassId) (hhandle : ∀ name ∈ decl.references,
      (registry.mention decl.references).classId? name = some (handle name)) :
    populate id decl registry = ((), (registry.mention decl.references).update id fun info =>
      { resolveDecl handle id decl with declared := info.declared }) := by
  change ((), (internDecl id decl registry).2.update id fun info =>
    { (internDecl id decl registry).1 with declared := info.declared }) = _
  rw [mentions_internDecl id decl registry handle hhandle]

theorem size_le_mention (registry : Registry) (names : List String) :
    registry.size ≤ (registry.mention names).size := by
  obtain ⟨fresh, hclasses, -⟩ := mention_fresh registry names
  rw [size, size, hclasses, List.length_append]
  exact Nat.le_add_right _ _

/-- **The second pass** mentions all names that declarations refer to, and puts each declaration in
the place of its class. -/
theorem populateAll_spec (registry : Registry) {handle : String → ClassId}
    (hnodup : (pending.map (·.1.index)).Nodup)
    (hlt : ∀ entry ∈ pending, entry.1.index < registry.size)
    (hhandle : ∀ name ∈ pending.flatMap (·.2.references),
      (registry.mention (pending.flatMap (·.2.references))).classId? name = some (handle name)) :
    let mentioned := registry.mention (pending.flatMap (·.2.references))
    let populated := (pending.forM (fun entry => populate entry.1 entry.2) registry).2
    populated.handles = mentioned.handles ∧ populated.lists = mentioned.lists ∧
      populated.missing = mentioned.missing ∧
      ∀ index, populated.classes[index]? =
        mentioned.classes[index]?.map (filled handle pending index) := by
  induction pending generalizing registry with
  | nil =>
    refine ⟨rfl, rfl, rfl, fun index => ?_⟩
    exact Option.map_id'.symm
  | cons entry rest ih =>
    rw [List.map_cons, List.nodup_cons] at hnodup
    obtain ⟨hid, hlt⟩ := List.forall_mem_cons.1 hlt
    rw [List.flatMap_cons, mention_append] at hhandle ⊢
    have hnow : ∀ name ∈ entry.2.references,
        (registry.mention entry.2.references).classId? name = some (handle name) :=
      fun name hname => classId?_mention_of_later hname (hhandle name (List.mem_append_left _ hname))
    have hsize := size_le_mention registry entry.2.references
    let put (info : ClassInfo) : ClassInfo :=
      { resolveDecl handle entry.1 entry.2 with declared := info.declared }
    have hcommute := mention_update (registry.mention entry.2.references) (hid.trans_le hsize) put
      (rest.flatMap (·.2.references))
    obtain ⟨hhandles, hlists, hmissing, hclasses⟩ :=
      ih ((registry.mention entry.2.references).update entry.1 put) hnodup.2
        (fun other hother => by
          change other.1.index < (List.modify _ _ _).length
          rw [List.length_modify]
          exact (hlt other hother).trans_le hsize)
        (fun name hname => by
          rw [hcommute]
          exact hhandle name (List.mem_append_right _ hname))
    have hstep : ((entry :: rest).forM (fun entry => populate entry.1 entry.2) registry).2 =
        (rest.forM (fun entry => populate entry.1 entry.2)
          (populate entry.1 entry.2 registry).2).2 := rfl
    dsimp only
    rw [hstep, populate_eq entry.1 hnow]
    rw [hcommute] at hhandles hlists hmissing hclasses
    refine ⟨hhandles, hlists, hmissing, fun index => (hclasses index).trans ?_⟩
    change ((List.modify _ _ _)[index]?).map _ = _
    rw [List.getElem?_modify, Option.map_eq_map, Option.map_map]
    refine Option.map_congr fun info _ => ?_
    by_cases hindex : entry.1.index = index
    · have hnone : rest.find? (·.1.index == index) = none := by
        refine List.find?_eq_none.2 fun other hother => ?_
        have hne : other.1.index ≠ entry.1.index := fun heq =>
          hnodup.1 (heq ▸ List.mem_map_of_mem hother)
        simpa [← hindex] using hne
      simp [filled, hnone, hindex, put]
    · simp [filled, hindex]

/-! ## The declarations put aside -/

theorem Announced.empty : Announced .empty := ⟨.empty, List.forall_mem_nil _⟩

namespace Announces

variable (h : Announces .empty (sources.flatMap (·.classes)) pending registry)

include h

theorem known_eq : registry.known = declared sources := h.order

theorem declaration?_eq : ∀ entry ∈ pending,
    declaration? sources entry.2.name = some entry.2 := h.first

theorem pending_eq :
    pending.map (·.2) = (declared sources).filterMap (declaration? sources) := by
  have hnames : declared sources = pending.map (·.2.name) := h.known_eq.symm.trans h.fresh
  rw [hnames, List.filterMap_map]
  have hall : pending.filterMap (declaration? sources ∘ fun entry => entry.2.name) =
      pending.filterMap fun entry => some entry.2 :=
    List.filterMap_congr h.declaration?_eq
  rw [hall, List.filterMap_eq_map']

theorem handle_eq : ∀ entry ∈ pending,
    registry.known[entry.1.index]? = some entry.2.name := fun entry hentry =>
  getElem?_known_of_classId? (h.handle entry hentry)

theorem index_lt : ∀ entry ∈ pending, entry.1.index < registry.size := by
  intro entry hentry
  rw [← length_known]
  exact (List.getElem?_eq_some_iff.1 (h.handle_eq entry hentry)).1

theorem nodup_index : (pending.map (·.1.index)).Nodup := by
  have hnodup := h.announced.nodup
  rw [h.fresh] at hnodup
  refine List.pairwise_map.2 ((List.pairwise_map.1 hnodup).imp_of_mem ?_)
  intro entry other hentry hother hne heq
  refine hne ?_
  have hget := h.handle_eq entry hentry
  rw [heq, h.handle_eq other hother] at hget
  exact (Option.some.inj hget).symm

theorem find?_index {index : Nat} (hname : registry.known[index]? = some name) :
    ∃ entry, pending.find? (·.1.index == index) = some entry ∧ entry.1.index = index ∧
      entry.2.name = name ∧ declaration? sources name = some entry.2 := by
  have hfresh : registry.known = pending.map (·.2.name) := h.fresh
  have hpending := hname
  rw [hfresh, List.getElem?_map, Option.map_eq_some_iff] at hpending
  obtain ⟨entry, hentry, rfl⟩ := hpending
  have hmem := List.mem_of_getElem? hentry
  have hindex : entry.1.index = index := by
    have hget := h.handle_eq entry hmem
    refine (List.getElem?_inj (List.getElem?_eq_some_iff.1 hget).1 h.announced.nodup).1 ?_
    rw [hget, hname]
  refine ⟨entry, ?_, hindex, rfl, h.declaration?_eq entry hmem⟩
  cases hfound : pending.find? (·.1.index == index) with
  | none => simpa [hindex] using List.find?_eq_none.1 hfound entry hmem
  | some other =>
    have heq : other.1.index = entry.1.index := by simpa [hindex] using List.find?_some hfound
    exact congrArg some
      (List.inj_on_of_nodup_map h.nodup_index (List.mem_of_find?_eq_some hfound) hmem heq)

theorem find?_index_eq_none {index : Nat} (hindex : registry.size ≤ index) :
    pending.find? (·.1.index == index) = none := by
  refine List.find?_eq_none.2 fun entry hentry => ?_
  have hlt := h.index_lt entry hentry
  have hne : entry.1.index ≠ index := by omega
  simpa using hne

theorem declaration?_eq_none {fresh : List String} (hnodup : (registry.known ++ fresh).Nodup)
    (hname : name ∈ fresh) : declaration? sources name = none := by
  rw [← Option.not_isSome_iff_eq_none, isSome_declaration?, ← h.known_eq]
  exact fun hmem => (List.nodup_append.1 hnodup).2.2 name hmem name hname rfl

end Announces

/-! ## What a registry of sources holds -/

theorem name_classInfo (sources : List Source) (handle : String → ClassId) (name : String) :
    (classInfo sources handle name).name = name := by
  unfold classInfo
  split
  · next decl hdecl => exact name_of_declaration? hdecl
  · rfl

theorem handle_of_getElem? {index : Nat} (h : (names sources)[index]? = some name) :
    handle sources name = ⟨index⟩ := by
  obtain ⟨hlt, rfl⟩ := List.getElem?_eq_some_iff.1 h
  exact congrArg ClassId.mk ((nodup_eraseDups _).idxOf_getElem _ _)

/-- **Every class is filled with the declaration of its name**, if there is one. -/
theorem filled_eq_classInfo (h : Announces .empty (sources.flatMap (·.classes)) pending registry)
    {fresh : List String} {classes : List ClassInfo}
    (hclasses : classes = registry.classes ++ fresh.map ({ name := · }))
    (hknown : classes.map (·.name) = names sources) {index : Nat} {info : ClassInfo}
    (hinfo : classes[index]? = some info) :
    filled (handle sources) pending index info = classInfo sources (handle sources) info.name := by
  have hname : (names sources)[index]? = some info.name := by
    rw [← hknown, List.getElem?_map, hinfo, Option.map_some]
  rw [hclasses, List.getElem?_append] at hinfo
  split at hinfo
  · -- a declared class, for which a declaration has been put aside
    have hget : registry.known[index]? = some info.name := by
      rw [known, List.getElem?_map, hinfo, Option.map_some]
    obtain ⟨entry, hfound, hindex, hentry, hdecl⟩ := h.find?_index hget
    have hhandle : handle sources info.name = entry.1 := by
      rw [handle_of_getElem? hname, ← hindex]
    have hdeclared := h.announced.classes info (List.mem_of_getElem? hinfo)
    rw [filled, hfound, classInfo, hdecl, hhandle]
    dsimp only
    rw [hdeclared, ← hentry]
    rfl
  · -- a stub, whose name is not among the declared ones
    next hlt =>
    have hnodup : (registry.known ++ fresh).Nodup := by
      have hsplit : registry.known ++ fresh = names sources := by
        rw [← hknown, hclasses, List.map_append, List.map_map, known]
        exact congrArg _ (List.map_id' fresh).symm
      rw [hsplit]
      exact nodup_eraseDups _
    rw [List.getElem?_map, Option.map_eq_some_iff] at hinfo
    obtain ⟨name, hfresh, rfl⟩ := hinfo
    rw [filled, h.find?_index_eq_none (not_lt.1 hlt), classInfo,
      h.declaration?_eq_none hnodup (List.mem_of_getElem? hfresh)]

/-- The declarations that the first pass puts aside. -/
def setAside (sources : List Source) : List (ClassId × ClassDecl) :=
  (sources.mapM enter .empty).1.flatten

/-- The registry after the first pass. -/
def entered (sources : List Source) : Registry :=
  let registry := (sources.mapM enter .empty).2
  { registry with missing := registry.undeclared (sources.flatMap (·.unresolvable)) }

/-- The registry after the first pass, where all names that declarations refer to have been
mentioned. -/
def mentioned (sources : List Source) : Registry :=
  (entered sources).mention ((setAside sources).flatMap (·.2.references))

theorem announces_setAside (sources : List Source) : Announces .empty (sources.flatMap (·.classes))
    (setAside sources) (sources.mapM enter .empty).2 :=
  (announces_enter Announced.empty sources).1

theorem indexed_entered (sources : List Source) : (entered sources).Indexed :=
  { (announces_setAside sources).announced.toIndexed with }

theorem indexed_mentioned (sources : List Source) : (mentioned sources).Indexed :=
  (indexed_entered sources).mention _

theorem known_mentioned (sources : List Source) : (mentioned sources).known = names sources := by
  have h := announces_setAside sources
  have hknown : (entered sources).known = declared sources := h.known_eq
  rw [mentioned, (indexed_entered sources).known_mention, hknown, names, ← h.pending_eq,
    List.flatMap_map]

theorem classId?_mentioned (sources : List Source) (name : String) :
    (mentioned sources).classId? name =
      if name ∈ names sources then some (handle sources name) else none := by
  rw [(indexed_mentioned sources).classId?_eq, known_mentioned]
  rfl

theorem ofSources_spec (sources : List Source) :
    (ofSources sources).handles = (mentioned sources).handles ∧
      (ofSources sources).lists = (mentioned sources).lists ∧
      (ofSources sources).missing = (mentioned sources).missing ∧
      ∀ index, (ofSources sources).classes[index]? =
        (mentioned sources).classes[index]?.map
          (filled (handle sources) (setAside sources) index) := by
  have h := announces_setAside sources
  have hhandle : ∀ name ∈ (setAside sources).flatMap (·.2.references),
      (mentioned sources).classId? name = some (handle sources name) := by
    intro name hname
    obtain ⟨id, hid⟩ := exists_classId?_mention hname
    have hmentioned := classId?_mentioned sources name
    rw [mentioned, hid] at hmentioned
    split at hmentioned
    · rw [mentioned, hid, hmentioned]
    · cases hmentioned
  exact populateAll_spec (entered sources) h.nodup_index h.index_lt hhandle

/-- The classes are those of all names, in order. -/
theorem classes_ofSources (sources : List Source) :
    (ofSources sources).classes = (names sources).map (classInfo sources (handle sources)) := by
  obtain ⟨fresh, hclasses, -⟩ :=
    mention_fresh (entered sources) ((setAside sources).flatMap (·.2.references))
  obtain ⟨-, -, -, hfilled⟩ := ofSources_spec sources
  refine List.ext_getElem? fun index => ?_
  rw [hfilled, ← known_mentioned, known, List.map_map, List.getElem?_map]
  cases hinfo : (mentioned sources).classes[index]? with
  | none => rfl
  | some info =>
    exact congrArg some (filled_eq_classInfo (announces_setAside sources) hclasses
      (known_mentioned sources) hinfo)

theorem known_ofSources (sources : List Source) : (ofSources sources).known = names sources := by
  rw [known, classes_ofSources, List.map_map]
  exact (List.map_congr_left fun name _ => name_classInfo _ _ name).trans (List.map_id' _)

theorem classId?_ofSources (sources : List Source) (name : String) :
    (ofSources sources).classId? name =
      if name ∈ names sources then some (handle sources name) else none := by
  obtain ⟨hhandles, -⟩ := ofSources_spec sources
  rw [← classId?_mentioned, classId?, hhandles]
  rfl

theorem lists_ofSources (sources : List Source) :
    (ofSources sources).lists = sources.map fun source => Ordered.ofList source.listed := by
  obtain ⟨-, hlists, -⟩ := ofSources_spec sources
  obtain ⟨-, -, hmentioned, -⟩ :=
    mention_fresh (entered sources) ((setAside sources).flatMap (·.2.references))
  obtain ⟨-, hentered⟩ := announces_enter Announced.empty sources
  rw [hlists, mentioned, hmentioned]
  exact hentered.trans (List.nil_append _)

theorem missing_ofSources (sources : List Source) :
    (ofSources sources).missing = (sources.flatMap (·.unresolvable)).filter
      fun name => (declaration? sources name).isNone := by
  have h := announces_setAside sources
  obtain ⟨-, -, hmissing, -⟩ := ofSources_spec sources
  obtain ⟨-, -, -, hmentioned⟩ :=
    mention_fresh (entered sources) ((setAside sources).flatMap (·.2.references))
  rw [hmissing, mentioned, hmentioned]
  refine List.filter_congr fun name _ => ?_
  -- whatever is known after the first pass is declared
  set registry := (sources.mapM enter .empty).2
  rw [Bool.eq_iff_iff, Bool.not_eq_true', Option.isNone_iff_eq_none, ← Option.not_isSome_iff_eq_none,
    isSome_declaration?, ← h.known_eq, ← h.announced.classId?_eq_none]
  cases hid : registry.classId? name with
  | none => simp
  | some id =>
    simp [h.announced.isDeclared hid]

end Metamatch.Registry
