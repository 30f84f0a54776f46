import Mathlib.Data.String.Basic
import Metamatch.Proofs.Catalog.Merge
import Metamatch.Proofs.Mirror.Search
import Metamatch.Proofs.Names
import Metamatch.Proofs.Ordered

/-!
# Layouts of declarations

Handles go by the order in which names are first mentioned, and so depend on how declarations are
distributed over sources. Nothing else does: registries of the same declarations mirror each other,
where classes of one name correspond.

* `Source.SameContent`: sources that declare the same and list the same names.
* `Registry.Denotes`, `Registry.SameName`: the names of handles, and handles of one name.
* `Registry.mirrors_of_sameContent`: the answers of the registries mirror each other.
* `Registry.catalog_of_sameContent`: the name catalogs are the same.
-/

namespace Metamatch

variable {σ τ : Type}

/-- The same declarations, with no name declared twice, and the same names that cannot be resolved,
distributed over any sources in any order. -/
structure Source.SameContent (sources sources' : List Source) : Prop where
  classes : (sources.flatMap (·.classes)).Perm (sources'.flatMap (·.classes))
  unresolvable : ∀ name, name ∈ sources.flatMap (·.unresolvable) ↔
    name ∈ sources'.flatMap (·.unresolvable)
  nodup : ((sources.flatMap (·.classes)).map (·.name)).Nodup

theorem Source.SameContent.symm {sources sources' : List Source}
    (h : SameContent sources sources') : SameContent sources' sources where
  classes := h.classes.symm
  unresolvable name := (h.unresolvable name).symm
  nodup := (h.classes.map (·.name)).nodup_iff.1 h.nodup

/-- Classes that declare the same, over classes that correspond. -/
structure ClassInfo.Mirrors (C : ClassId → ClassId → Prop) (info info' : ClassInfo) : Prop where
  name : info'.name = info.name
  modifiers : info'.modifiers = info.modifiers
  superclass : Option.Rel C info.superclass info'.superclass
  interfaces : List.Forall₂ C info.interfaces info'.interfaces
  members : ∀ kind : Kind,
    List.Forall₂ (Candidate.Mirrors C) (kind.declared info) (kind.declared info')
  broken : info'.broken = info.broken

namespace ClassDecl

variable {decl : ClassDecl}

theorem field_mem_references {field : FieldDecl} (h : field ∈ decl.fields) :
    field.type ∈ decl.references := by
  have hmem : field.type ∈ decl.fields.map (·.type) := List.mem_map_of_mem h
  simp only [references, List.mem_append, hmem, or_true, true_or]

theorem method_mem_references {method : MethodDecl} (h : method ∈ decl.methods) :
    ∀ type ∈ method.returnType :: method.parameters, type ∈ decl.references := by
  intro type htype
  have hmem : type ∈ decl.methods.flatMap fun method => method.returnType :: method.parameters :=
    List.mem_flatMap.2 ⟨method, h, htype⟩
  simp only [references, List.mem_append, hmem, or_true, true_or]

theorem constructor_mem_references {constructor : ConstructorDecl}
    (h : constructor ∈ decl.constructors) :
    ∀ type ∈ constructor.parameters, type ∈ decl.references := by
  intro type htype
  have hmem : type ∈ decl.constructors.flatMap (·.parameters) :=
    List.mem_flatMap.2 ⟨constructor, h, htype⟩
  simp only [references, List.mem_append, hmem, or_true]

end ClassDecl

namespace Registry

variable {sources sources' : List Source} {name : String} {decl : ClassDecl}

/-! ## Names and handles -/

theorem declaration?_eq_some (h : ((sources.flatMap (·.classes)).map (·.name)).Nodup) :
    declaration? sources name = some decl ↔
      decl ∈ sources.flatMap (·.classes) ∧ decl.name = name := by
  constructor
  · intro hdecl
    exact ⟨List.mem_of_find?_eq_some hdecl, by simpa using List.find?_some hdecl⟩
  · rintro ⟨hmem, rfl⟩
    cases hfound : declaration? sources decl.name with
    | none => simpa using List.find?_eq_none.1 hfound decl hmem
    | some other =>
      have hother : other.name = decl.name := by simpa using List.find?_some hfound
      exact congrArg some (List.inj_on_of_nodup_map h (List.mem_of_find?_eq_some hfound) hmem hother)

theorem mem_names : name ∈ names sources ↔ name ∈ declared sources ∨
    ∃ known ∈ declared sources, ∃ decl, declaration? sources known = some decl ∧
      name ∈ decl.references := by
  rw [names, List.mem_eraseDups, List.mem_append, List.mem_flatMap]
  refine or_congr_right ⟨?_, ?_⟩
  · rintro ⟨decl, hdecl, hname⟩
    obtain ⟨known, hknown, hfound⟩ := List.mem_filterMap.1 hdecl
    exact ⟨known, hknown, decl, hfound, hname⟩
  · rintro ⟨known, hknown, decl, hfound, hname⟩
    exact ⟨decl, List.mem_filterMap.2 ⟨known, hknown, hfound⟩, hname⟩

theorem mem_names_of_references (hdecl : declaration? sources name = some decl) {type : String}
    (htype : type ∈ decl.references) : type ∈ names sources := by
  refine mem_names.2 (.inr ⟨name, mem_declared.2 ⟨decl, List.mem_of_find?_eq_some hdecl, ?_⟩, decl,
    hdecl, htype⟩)
  simpa using List.find?_some hdecl

/-- A handle of a registry with the name of the class. -/
def Denotes (registry : Registry) (cls : ClassId) (name : String) : Prop :=
  ∃ info, registry.find cls = .ok info ∧ info.name = name

/-- Handles of two registries for classes of one name. -/
def SameName (registry registry' : Registry) (cls cls' : ClassId) : Prop :=
  ∃ name, registry.Denotes cls name ∧ registry'.Denotes cls' name

theorem find_ofSources (sources : List Source) (cls : ClassId) :
    (ofSources sources).find cls =
      match (names sources)[cls.index]? with
      | some name => .ok (classInfo sources (handle sources) name)
      | none => .error (LookupError.unknownClass cls) := by
  have hget : (ofSources sources).classes[cls.index]? =
      (names sources)[cls.index]?.map (classInfo sources (handle sources)) := by
    rw [classes_ofSources, List.getElem?_map]
  unfold find
  rw [hget]
  cases (names sources)[cls.index]? <;> rfl

theorem find_handle (h : name ∈ names sources) :
    (ofSources sources).find (handle sources name) =
      .ok (classInfo sources (handle sources) name) := by
  rw [find_ofSources, handle, List.getElem?_idxOf h]

theorem eq_handle_of_denotes {cls : ClassId} (h : (ofSources sources).Denotes cls name) :
    name ∈ names sources ∧ cls = handle sources name := by
  have hmem : name ∈ names sources := by
    obtain ⟨info, hinfo, rfl⟩ := h
    rw [find_ofSources] at hinfo
    split at hinfo
    · next known hknown =>
      cases hinfo
      rw [name_classInfo]
      exact List.mem_of_getElem? hknown
    · cases hinfo
  obtain ⟨info, hinfo, hname⟩ := h
  refine ⟨hmem, find_unique (nodup_ofSources sources) hinfo (find_handle hmem) ?_⟩
  rw [hname, name_classInfo]

theorem denotes_handle (h : name ∈ names sources) :
    (ofSources sources).Denotes (handle sources name) name :=
  ⟨_, find_handle h, name_classInfo _ _ _⟩

theorem sameName_biUnique (sources sources' : List Source) :
    Relator.BiUnique (SameName (ofSources sources) (ofSources sources')) := by
  constructor
  · rintro a b c ⟨name, ha, hc⟩ ⟨name', hb, hc'⟩
    obtain ⟨info, hinfo, rfl⟩ := hc
    obtain ⟨info', hinfo', rfl⟩ := hc'
    cases hinfo.symm.trans hinfo'
    exact (eq_handle_of_denotes ha).2.trans (eq_handle_of_denotes hb).2.symm
  · rintro a b c ⟨name, ha, hb⟩ ⟨name', ha', hc⟩
    obtain ⟨info, hinfo, rfl⟩ := ha
    obtain ⟨info', hinfo', rfl⟩ := ha'
    cases hinfo.symm.trans hinfo'
    exact (eq_handle_of_denotes hb).2.trans (eq_handle_of_denotes hc).2.symm

/-! ## The same content -/

theorem declaration?_congr (h : Source.SameContent sources sources') (name : String) :
    declaration? sources' name = declaration? sources name := by
  refine Option.ext fun decl => ?_
  rw [declaration?_eq_some h.nodup, declaration?_eq_some h.symm.nodup, h.classes.mem_iff]

theorem mem_names_congr (h : Source.SameContent sources sources') :
    name ∈ names sources' ↔ name ∈ names sources := by
  have hdeclared : ∀ name, name ∈ declared sources' ↔ name ∈ declared sources := by
    intro name
    simp only [mem_declared, h.classes.mem_iff]
  simp only [mem_names, hdeclared, declaration?_congr h]

theorem sameName_handle (h : Source.SameContent sources sources') (hname : name ∈ names sources) :
    SameName (ofSources sources) (ofSources sources') (handle sources name)
      (handle sources' name) :=
  ⟨name, denotes_handle hname, denotes_handle ((mem_names_congr h).2 hname)⟩

theorem forall₂_handle (h : Source.SameContent sources sources') {types : List String}
    (htypes : ∀ type ∈ types, type ∈ names sources) :
    List.Forall₂ (SameName (ofSources sources) (ofSources sources'))
      (types.map (handle sources)) (types.map (handle sources')) := by
  rw [List.forall₂_map_left_iff, List.forall₂_map_right_iff, List.forall₂_same]
  exact fun type htype => sameName_handle h (htypes type htype)

theorem resolveDecl_members (h : Source.SameContent sources sources') {owner owner' : ClassId}
    (howner : SameName (ofSources sources) (ofSources sources') owner owner')
    (hdecl : ∀ type ∈ decl.references, type ∈ names sources) (kind : Kind) :
    List.Forall₂ (Candidate.Mirrors (SameName (ofSources sources) (ofSources sources')))
      (kind.declared (resolveDecl (handle sources) owner decl))
      (kind.declared (resolveDecl (handle sources') owner' decl)) := by
  have hself : ∀ {α : Type} (items : List α),
      List.Forall₂ (fun a b => a = b ∧ a ∈ items) items items :=
    fun items => List.forall₂_same.2 fun _ ha => ⟨rfl, ha⟩
  have hmembers : ∀ {α β : Type} (items : List α) (f f' : Nat → α → β) (g : β → Candidate),
      (∀ index, ∀ item ∈ items, (g (f index item)).Mirrors
        (SameName (ofSources sources) (ofSources sources')) (g (f' index item))) →
      List.Forall₂ (Candidate.Mirrors (SameName (ofSources sources) (ofSources sources')))
        ((items.mapIdx f).map g) ((items.mapIdx f').map g) := by
    intro α β items f f' g hitems
    rw [List.forall₂_map_left_iff, List.forall₂_map_right_iff]
    refine forall₂_mapIdx (hself items) fun index item item' hitem => ?_
    obtain ⟨rfl, hmem⟩ := hitem
    exact hitems index item hmem
  have htype : ∀ type ∈ decl.references, SameName (ofSources sources) (ofSources sources')
      (handle sources type) (handle sources' type) :=
    fun type hmem => sameName_handle h (hdecl type hmem)
  cases kind with
  | field =>
    refine hmembers decl.fields _ _ .ofField fun index field hfield => ?_
    exact ⟨.field index howner, rfl, rfl,
      .some (htype _ (ClassDecl.field_mem_references hfield)), .none⟩
  | method =>
    refine hmembers decl.methods _ _ .ofMethod fun index method hmethod => ?_
    have hmem := ClassDecl.method_mem_references hmethod
    exact ⟨.method index howner, rfl, rfl, .some (htype _ (hmem _ List.mem_cons_self)),
      .some (forall₂_handle h fun type htype => hdecl type (hmem type (List.mem_cons_of_mem _ htype)))⟩
  | constructor =>
    refine hmembers decl.constructors _ _ .ofConstructor fun index constructor hconstructor => ?_
    exact ⟨.constructor index howner, rfl, rfl, .none,
      .some (forall₂_handle h fun type htype =>
        hdecl type (ClassDecl.constructor_mem_references hconstructor type htype))⟩
  | cls | text | parameter => exact .nil

/-- **Classes of one name declare the same.** -/
theorem classInfo_mirrors (h : Source.SameContent sources sources') (hname : name ∈ names sources) :
    (classInfo sources (handle sources) name).Mirrors
      (SameName (ofSources sources) (ofSources sources'))
      (classInfo sources' (handle sources') name) := by
  unfold classInfo
  rw [declaration?_congr h]
  split
  · next decl hdecl =>
    have hreferences : ∀ type ∈ decl.references, type ∈ names sources :=
      fun type => mem_names_of_references hdecl
    refine ⟨rfl, rfl, ?_, ?_, resolveDecl_members h (sameName_handle h hname) hreferences, rfl⟩
    · have hsuperclass : ∀ type ∈ decl.superclass, type ∈ decl.references := by
        intro type htype
        simp [ClassDecl.references, Option.mem_def.1 htype]
      change Option.Rel _ (decl.superclass.map _) (decl.superclass.map _)
      cases hsuper : decl.superclass with
      | none => exact .none
      | some type => exact .some (sameName_handle h (hreferences type (hsuperclass type hsuper)))
    · refine forall₂_handle h fun type htype => hreferences type ?_
      simp [ClassDecl.references, htype]
  · refine ⟨rfl, rfl, .none, .nil, fun kind => ?_, rfl⟩
    cases kind <;> exact .nil

/-- Handles of one name lead to classes that declare the same. -/
theorem find_agree (h : Source.SameContent sources sources') {cls cls' : ClassId}
    (hcls : SameName (ofSources sources) (ofSources sources') cls cls') :
    Agree (ClassInfo.Mirrors (SameName (ofSources sources) (ofSources sources')))
      ((ofSources sources).find cls) ((ofSources sources').find cls') := by
  obtain ⟨name, hdenotes, hdenotes'⟩ := hcls
  obtain ⟨hname, rfl⟩ := eq_handle_of_denotes hdenotes
  obtain ⟨hname', rfl⟩ := eq_handle_of_denotes hdenotes'
  rw [find_handle hname, find_handle hname']
  exact .ok (classInfo_mirrors h hname)

/-! ## Answers -/

theorem missing_congr (h : Source.SameContent sources sources') (name : String) :
    (ofSources sources').missing.contains name = (ofSources sources).missing.contains name := by
  rw [Bool.eq_iff_iff, List.contains_iff_mem, List.contains_iff_mem, missing_ofSources,
    missing_ofSources, List.mem_filter, List.mem_filter, h.unresolvable, declaration?_congr h]

theorem load_agree (h : Source.SameContent sources sources') (name : String) :
    Agree (SameName (ofSources sources) (ofSources sources')) ((ofSources sources).load name)
      ((ofSources sources').load name) := by
  unfold load
  rw [missing_congr h, classId?_ofSources, classId?_ofSources]
  by_cases hmissing : (ofSources sources).missing.contains name = true
  · rw [if_pos hmissing, if_pos hmissing]
    exact .error _
  · rw [if_neg hmissing, if_neg hmissing]
    by_cases hname : name ∈ names sources
    · have hcls := sameName_handle h hname
      rw [if_pos hname, if_pos ((mem_names_congr h).2 hname)]
      refine (find_agree h hcls).bind fun info info' hinfo => ?_
      rw [hinfo.broken]
      split
      · exact .error _
      · exact .ok hcls
    · rw [if_neg hname, if_neg (mt (mem_names_congr h).1 hname)]
      exact .error _

/-- **Registries of the same content mirror each other**, where handles of one name correspond. -/
theorem mirrors_of_sameContent (h : Source.SameContent sources sources') (R : σ → τ → Prop) :
    ((ofSources sources).resolver : Resolver σ).Mirrors
      (SameName (ofSources sources) (ofSources sources')) R
      ((ofSources sources').resolver : Resolver τ) where
  loadClass name := Call.ofExcept_lockstep (load_agree h name)
  className _ _ hcls :=
    Call.ofExcept_lockstep ((find_agree h hcls).map fun _ _ hinfo => hinfo.name.symm)
  classModifiers _ _ hcls :=
    Call.ofExcept_lockstep ((find_agree h hcls).map fun _ _ hinfo => hinfo.modifiers.symm)
  superclass _ _ hcls :=
    Call.ofExcept_lockstep ((find_agree h hcls).map fun _ _ hinfo => hinfo.superclass)
  interfaces _ _ hcls :=
    Call.ofExcept_lockstep ((find_agree h hcls).map fun _ _ hinfo => hinfo.interfaces)
  members kind cls cls' hcls := by
    by_cases hkind : kind ∈ [Kind.field, .method, .constructor]
    · rw [members_resolver hkind, members_resolver hkind]
      exact Call.ofExcept_lockstep ((find_agree h hcls).map fun _ _ hinfo => hinfo.members kind)
    · cases kind with
      | field | method | constructor => simp at hkind
      | cls | text | parameter => exact .pure .nil

/-- **The catalogs of names are the same.** -/
theorem catalog_of_sameContent (h : Source.SameContent sources sources') :
    Catalog.ofLists (ofSources sources').lists = .ofLists (ofSources sources).lists := by
  have hlisted : ∀ (sources : List Source) name, name ∈ (ofSources sources).lists.flatten ↔
      name ∈ declared sources ∨ name ∈ sources.flatMap (·.unresolvable) := by
    intro sources name
    simp only [lists_ofSources, ← List.flatMap_def, List.mem_flatMap, Ordered.mem_ofList, Source.listed,
      List.mem_append, List.mem_map, mem_declared]
    constructor
    · rintro ⟨source, hsource, ⟨decl, hdecl, rfl⟩ | hname⟩
      · exact .inl ⟨decl, ⟨source, hsource, hdecl⟩, rfl⟩
      · exact .inr ⟨source, hsource, hname⟩
    · rintro (⟨decl, ⟨source, hsource, hdecl⟩, rfl⟩ | ⟨source, hsource, hname⟩)
      · exact ⟨source, hsource, .inl ⟨decl, hdecl, rfl⟩⟩
      · exact ⟨source, hsource, .inr hname⟩
  rw [Catalog.ofLists_eq, Catalog.ofLists_eq]
  refine congrArg Catalog.mk (Ordered.ofList_congr fun name => ?_)
  have hdeclared : name ∈ declared sources' ↔ name ∈ declared sources := by
    simp only [mem_declared, h.classes.mem_iff]
  rw [hlisted, hlisted, hdeclared, h.unresolvable]

end Registry

end Metamatch
