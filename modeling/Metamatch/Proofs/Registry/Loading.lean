import Metamatch.Proofs.Registry.Content

/-!
# Loading by name

Three facts about a name decide what loading it comes to: whether some source declares it, whether
some source lists it without doing so, and whether a declaration that counts refers to it. They come
from different sources and from different passes over them.

* `ClassDecl.RefersTo`: a declaration refers to a name.
* `Registry.Broken`, `Registry.Unfound`: names that cannot be loaded, told from the sources.
* `Registry.load_of_unlisted`: a name that no source lists or declares.
* `Registry.load_cases`, `Registry.load_error_iff`: there is no other outcome.
* `loads_of_sources`: what loading a name comes to.
-/

namespace Metamatch

/-- The declaration refers to a class by its name. -/
inductive ClassDecl.RefersTo (decl : ClassDecl) : String → Prop
  | superclass {name : String} : decl.superclass = some name → RefersTo decl name
  | interface {name : String} : name ∈ decl.interfaces → RefersTo decl name
  | fieldType {field : FieldDecl} : field ∈ decl.fields → RefersTo decl field.type
  | returnType {method : MethodDecl} : method ∈ decl.methods → RefersTo decl method.returnType
  | methodParameter {method : MethodDecl} {name : String} : method ∈ decl.methods →
    name ∈ method.parameters → RefersTo decl name
  | constructorParameter {constructor : ConstructorDecl} {name : String} :
    constructor ∈ decl.constructors → name ∈ constructor.parameters → RefersTo decl name

theorem ClassDecl.mem_references {decl : ClassDecl} {name : String} :
    name ∈ decl.references ↔ decl.RefersTo name := by
  constructor
  · intro h
    simp only [references, List.mem_append, Option.mem_toList, List.mem_map, List.mem_flatMap,
      List.mem_cons] at h
    obtain (((hsuperclass | hinterface) | ⟨field, hfield, rfl⟩) | ⟨method, hmethod, rfl | hname⟩) |
      ⟨constructor, hconstructor, hname⟩ := h
    · exact .superclass hsuperclass
    · exact .interface hinterface
    · exact .fieldType hfield
    · exact .returnType hmethod
    · exact .methodParameter hmethod hname
    · exact .constructorParameter hconstructor hname
  · intro h
    cases h with
    | superclass hsuperclass => simp [references, hsuperclass]
    | interface hinterface => simp [references, hinterface]
    | fieldType hfield => exact field_mem_references hfield
    | returnType hmethod => exact method_mem_references hmethod _ List.mem_cons_self
    | methodParameter hmethod hname =>
      exact method_mem_references hmethod _ (List.mem_cons_of_mem _ hname)
    | constructorParameter hconstructor hname =>
      exact constructor_mem_references hconstructor _ hname

namespace Registry

variable {sources others : List Source} {name : String} {decl : ClassDecl}

/-- Some source declares the class, and its first declaration is broken. -/
def Broken (sources : List Source) (name : String) : Prop :=
  ∃ decl, declaration? sources name = some decl ∧ decl.broken = true

/-- No source declares the class, and some source lists it all the same or no first declaration of a
class refers to it. -/
def Unfound (sources : List Source) (name : String) : Prop :=
  (∀ source ∈ sources, ∀ decl ∈ source.classes, decl.name ≠ name) ∧
    ((∃ source ∈ sources, name ∈ source.unresolvable) ∨
      ∀ known decl, declaration? sources known = some decl → ¬ decl.RefersTo name)

theorem declaration?_eq_none_iff : declaration? sources name = none ↔
    ∀ source ∈ sources, ∀ decl ∈ source.classes, decl.name ≠ name := by
  rw [declaration?, List.find?_eq_none]
  simp only [List.mem_flatMap, beq_iff_eq, forall_exists_index, and_imp]
  exact ⟨fun h source hsource decl hdecl => h decl source hsource hdecl,
    fun h decl source hsource hdecl => h source hsource decl hdecl⟩

theorem mem_names_of_undeclared (h : declaration? sources name = none) : name ∈ names sources ↔
    ∃ known decl, declaration? sources known = some decl ∧ decl.RefersTo name := by
  have hundeclared : name ∉ declared sources := by
    rw [← isSome_declaration?, h]
    exact Bool.false_ne_true
  rw [mem_names, or_iff_right hundeclared]
  constructor
  · rintro ⟨known, -, decl, hdecl, hname⟩
    exact ⟨known, decl, hdecl, ClassDecl.mem_references.1 hname⟩
  · rintro ⟨known, decl, hdecl, hname⟩
    refine ⟨known, isSome_declaration?.1 ?_, decl, hdecl, ClassDecl.mem_references.2 hname⟩
    rw [hdecl, Option.isSome_some]

theorem load_of_unlisted (hdecl : declaration? sources name = none)
    (hlisted : ¬ ∃ source ∈ sources, name ∈ source.unresolvable) :
    (ofSources sources).load name =
      if name ∈ names sources then .ok (handle sources name)
      else .error (.classNotFound name) := by
  have hmissing : ¬ (ofSources sources).missing.contains name = true := by
    rw [List.contains_iff_mem, missing_ofSources]
    exact fun hmem => hlisted (List.mem_flatMap.1 (List.mem_filter.1 hmem).1)
  rw [load, if_neg hmissing, classId?_ofSources]
  split_ifs with hknown
  · dsimp only
    rw [find_handle hknown, classInfo, hdecl]
    rfl
  · rfl

/-- A name is loaded by the handle that leads back to it, or not loaded for one of two reasons. -/
theorem load_cases (sources : List Source) (name : String) :
    (Broken sources name ∧ ¬ Unfound sources name ∧
      (ofSources sources).load name = .error (.linkage name brokenReason)) ∨
    (¬ Broken sources name ∧ Unfound sources name ∧
      (ofSources sources).load name = .error (.classNotFound name)) ∨
    (¬ Broken sources name ∧ ¬ Unfound sources name ∧ name ∈ names sources ∧
      (ofSources sources).load name = .ok (handle sources name)) := by
  cases hdecl : declaration? sources name with
  | some decl =>
    have hfound : ¬ Unfound sources name := by
      intro h
      cases (declaration?_eq_none_iff.2 h.1).symm.trans hdecl
    have hbroken : Broken sources name ↔ decl.broken = true := by
      simp [Broken, hdecl]
    have hknown : name ∈ names sources := mem_names.2 <| .inl <| isSome_declaration?.1 <| by
      rw [hdecl, Option.isSome_some]
    rw [hbroken, load_of_declaration? hdecl]
    by_cases h : decl.broken = true
    · exact .inl ⟨h, hfound, if_pos h⟩
    · exact .inr (.inr ⟨h, hfound, hknown, if_neg h⟩)
  | none =>
    have hsound : ¬ Broken sources name := by
      rintro ⟨decl, h, -⟩
      cases hdecl.symm.trans h
    have hundeclared := declaration?_eq_none_iff.1 hdecl
    by_cases hlisted : ∃ source ∈ sources, name ∈ source.unresolvable
    · exact .inr (.inl ⟨hsound, ⟨hundeclared, .inl hlisted⟩, load_of_unresolvable hdecl hlisted⟩)
    · rw [load_of_unlisted hdecl hlisted]
      by_cases hknown : name ∈ names sources
      · obtain ⟨known, decl, hfirst, hrefers⟩ := (mem_names_of_undeclared hdecl).1 hknown
        refine .inr (.inr ⟨hsound, ?_, hknown, if_pos hknown⟩)
        rintro ⟨-, h | h⟩
        · exact hlisted h
        · exact h known decl hfirst hrefers
      · refine .inr (.inl ⟨hsound, ⟨hundeclared, .inr fun known decl hfirst hrefers => ?_⟩,
          if_neg hknown⟩)
        exact hknown ((mem_names_of_undeclared hdecl).2 ⟨known, decl, hfirst, hrefers⟩)

theorem load_error_iff {e : LookupError} : (ofSources sources).load name = .error e ↔
    (Broken sources name ∧ e = .linkage name brokenReason) ∨
      (Unfound sources name ∧ e = .classNotFound name) := by
  obtain ⟨hbroken, hfound, hload⟩ | ⟨hbroken, hfound, hload⟩ | ⟨hbroken, hfound, -, hload⟩ :=
    load_cases sources name
  · simp [hbroken, hfound, hload, eq_comm]
  · simp [hbroken, hfound, hload, eq_comm]
  · simp [hbroken, hfound, hload]

theorem nameOf_eq_ok_iff (h : name ∈ names sources) (id : ClassId) :
    (ofSources sources).nameOf id = .ok name ↔ id = handle sources name := by
  constructor
  · intro hid
    cases hfind : (ofSources sources).find id with
    | error e =>
      rw [nameOf, hfind] at hid
      cases hid
    | ok info =>
      rw [nameOf, hfind] at hid
      exact (eq_handle_of_denotes ⟨info, hfind, Except.ok.inj hid⟩).2
  · rintro rfl
    exact className_handle h

end Registry

/-- **What loading a name comes to**: a broken class, none, or the one handle whose class has the
name, whichever sources list it or refer to it, and in which order. -/
theorem loads_of_sources (sources : List Source) (name : String) :
    let registry := Registry.ofSources sources
    (registry.load name = .error (.linkage name Registry.brokenReason) ↔
      Registry.Broken sources name) ∧
    (registry.load name = .error (.classNotFound name) ↔ Registry.Unfound sources name) ∧
    (¬ Registry.Broken sources name → ¬ Registry.Unfound sources name →
      ∃ id, registry.load name = .ok id ∧ ∀ other, registry.nameOf other = .ok name ↔ other = id) ∧
    ∀ others : List Source,
      (∀ known, Registry.declaration? others known = Registry.declaration? sources known) →
      (∀ listed, (∃ source ∈ others, listed ∈ source.unresolvable) ↔
        ∃ source ∈ sources, listed ∈ source.unresolvable) →
      ∀ e, (Registry.ofSources others).load name = .error e ↔ registry.load name = .error e := by
  dsimp only
  refine ⟨?_, ?_, fun hsound hfound => ?_, fun others hdeclarations hlisted e => ?_⟩
  · simp [Registry.load_error_iff]
  · simp [Registry.load_error_iff]
  · obtain ⟨h, -⟩ | ⟨-, h, -⟩ | ⟨-, -, hknown, hload⟩ := Registry.load_cases sources name
    · exact absurd h hsound
    · exact absurd h hfound
    · exact ⟨_, hload, Registry.nameOf_eq_ok_iff hknown⟩
  · have hbroken : Registry.Broken others name ↔ Registry.Broken sources name := by
      simp only [Registry.Broken, hdeclarations]
    have hunfound : Registry.Unfound others name ↔ Registry.Unfound sources name := by
      rw [Registry.Unfound, Registry.Unfound, ← Registry.declaration?_eq_none_iff,
        ← Registry.declaration?_eq_none_iff, hlisted]
      simp only [hdeclarations]
    rw [Registry.load_error_iff, Registry.load_error_iff, hbroken, hunfound]

namespace Sample

/-- Names that sources disagree about: `a.Holder` is declared twice and listed as well, `a.Broken` is
broken and listed, `a.Gone` is referred to and listed. -/
def contested : List Source :=
  [{ classes :=
      [{ name := "a.Holder"
         fields := [{ name := "gone", type := "a.Gone" }, { name := "stub", type := "a.Stub" }] }]
     unresolvable := ["a.Broken"] },
    { classes :=
        [{ name := "a.Broken", broken := true },
          { name := "a.Holder", superclass := some "a.Lost", broken := true }]
      unresolvable := ["a.Holder", "a.Gone"] }]

/-- The same declarations in a single source, with the names listed by another one. -/
def rearranged : List Source :=
  [{ unresolvable := ["a.Gone", "a.Broken", "a.Holder"] },
    { classes := contested.flatMap (·.classes) }]

end Sample

/-- The name `a.Lost` is mentioned by a declaration that does not count. -/
theorem loads_of_contested :
    let registry := Registry.ofSources Sample.contested
    (∃ id, registry.load "a.Holder" = .ok id ∧
      ∀ other, registry.nameOf other = .ok "a.Holder" ↔ other = id) ∧
    (∃ id, registry.load "a.Stub" = .ok id ∧
      ∀ other, registry.nameOf other = .ok "a.Stub" ↔ other = id) ∧
    registry.load "a.Broken" = .error (.linkage "a.Broken" Registry.brokenReason) ∧
    registry.load "a.Gone" = .error (.classNotFound "a.Gone") ∧
    Registry.Unfound Sample.contested "a.Lost" ∧
    (Registry.ofSources Sample.rearranged).load "a.Gone" = .error (.classNotFound "a.Gone") := by
  have hloads := loads_of_sources Sample.contested
  dsimp only at hloads ⊢
  have hsound : ∀ name id, (Registry.ofSources Sample.contested).load name = .ok id →
      ¬ Registry.Broken Sample.contested name ∧ ¬ Registry.Unfound Sample.contested name := by
    intro name id h
    constructor
    · intro hbroken
      cases h.symm.trans ((hloads name).1.2 hbroken)
    · intro hunfound
      cases h.symm.trans ((hloads name).2.1.2 hunfound)
  obtain ⟨hholder, hholder'⟩ := hsound "a.Holder" ⟨0⟩ (by decide +kernel)
  obtain ⟨hstub, hstub'⟩ := hsound "a.Stub" ⟨3⟩ (by decide +kernel)
  have hgone : (Registry.ofSources Sample.contested).load "a.Gone" =
      .error (.classNotFound "a.Gone") := by
    decide +kernel
  refine ⟨(hloads "a.Holder").2.2.1 hholder hholder', (hloads "a.Stub").2.2.1 hstub hstub',
    (hloads "a.Broken").1.2 ⟨_, rfl, rfl⟩, hgone, (hloads "a.Lost").2.1.1 (by decide +kernel), ?_⟩
  refine ((hloads "a.Gone").2.2.2 Sample.rearranged (fun known => ?_) (fun listed => ?_) _).2 hgone
  · simp [Registry.declaration?, Sample.rearranged]
  · simp [Sample.rearranged, Sample.contested, or_comm, or_left_comm]

end Metamatch
