import Metamatch.Proofs.Holdings

/-!
# Names and handles of a registry

A registry made from sources gives an entity one name, and a name leads to one entity: to the class
with the name, or to the first member there with the signature.

* `Spelling`, `Registry.spell`: what a signature is made of.
* `Registry.exists_spell`: every declared member has a signature.
* `Registry.describe_of_names`: an entity with a name is described by it.
* `Registry.locate_of_names`: the name of an entity leads back to it.
* `names_of_sources`: describing undoes locating, and locating undoes describing.
-/

namespace Metamatch

variable {σ : Type}

/-! ## Spellings -/

/-- A member in names: its own, those of its parameter types and that of its value type, each where
its kind has it. -/
structure Spelling where
  name : Option String
  parameters : Option (List String)
  valueType : Option String
  deriving DecidableEq, Repr

namespace Spelling

/-- The text of a signature. -/
def text (spelling : Spelling) : String :=
  Candidate.signatureText spelling.name spelling.parameters spelling.valueType

/-- What the members of a kind have. -/
inductive OfKind : Kind → Spelling → Prop
  | field (name type : String) : OfKind .field ⟨some name, none, some type⟩
  | method (name : String) (types : List String) (type : String) :
    OfKind .method ⟨some name, some types, some type⟩
  | constructor (types : List String) : OfKind .constructor ⟨none, some types, none⟩

end Spelling

namespace Registry

/-- The names that make up the signature of a member. -/
def spell (registry : Registry) (candidate : Candidate) : Except LookupError Spelling := do
  let className (id : ClassId) := (·.name) <$> registry.find id
  let parameters ← candidate.parameters.mapM fun types => types.mapM className
  let valueType ← candidate.valueType.mapM className
  return ⟨candidate.name, parameters, valueType⟩

variable {registry : Registry} {sources : List Source} {cls : ClassId} {info : ClassInfo}
  {kind : Kind} {candidate : Candidate} {entity : Entity} {name : EntityName}

theorem signature_of_spell {spelling : Spelling} (h : registry.spell candidate = .ok spelling) :
    registry.signature candidate = .ok spelling.text := by
  unfold spell at h
  unfold signature
  revert h
  dsimp only
  generalize (candidate.parameters.mapM fun types =>
    types.mapM fun id => (·.name) <$> registry.find id) = parameters
  generalize (candidate.valueType.mapM fun id => (·.name) <$> registry.find id) = valueType
  intro h
  cases parameters with
  | error e => cases h
  | ok parameters =>
    cases valueType with
    | error e => cases h
    | ok valueType =>
      cases h
      rfl

theorem className_handle {type : String} (h : type ∈ names sources) :
    (·.name) <$> (ofSources sources).find (handle sources type) = .ok type := by
  rw [find_handle h]
  exact congrArg Except.ok (name_classInfo _ _ _)

theorem classNames_handle {types : List String} (h : ∀ type ∈ types, type ∈ names sources) :
    (types.map (handle sources)).mapM (fun id => (·.name) <$> (ofSources sources).find id) =
      .ok types := by
  induction types with
  | nil => rfl
  | cons type rest ih =>
    obtain ⟨htype, hrest⟩ := List.forall_mem_cons.1 h
    rw [List.map_cons, List.mapM_cons, className_handle htype, ih hrest]
    rfl

/-- **Every declared member has a signature**, made of what its kind has. -/
theorem exists_spell (h : (ofSources sources).find cls = .ok info)
    (hmem : candidate ∈ kind.declared info) :
    ∃ spelling, (ofSources sources).spell candidate = .ok spelling ∧ spelling.OfKind kind := by
  obtain ⟨decl, index, hdecl, hdeclares⟩ := declares_of_find h hmem
  have hknown : ∀ type ∈ decl.references, type ∈ names sources :=
    fun type => mem_names_of_references hdecl
  cases hdeclares with
  | @field _ field hfield =>
    refine ⟨_, ?_, .field field.name field.type⟩
    have htype := className_handle
      (hknown _ (ClassDecl.field_mem_references (List.mem_of_getElem? hfield)))
    simp only [spell, Option.mapM_some, Option.mapM_none, htype]
    rfl
  | @method _ method hmethod =>
    refine ⟨_, ?_, .method method.name method.parameters method.returnType⟩
    have hmem := ClassDecl.method_mem_references (List.mem_of_getElem? hmethod)
    have htype := className_handle (hknown _ (hmem _ List.mem_cons_self))
    have htypes := classNames_handle fun type htype =>
      hknown type (hmem type (List.mem_cons_of_mem _ htype))
    simp only [spell, Option.mapM_some, htype, htypes]
    rfl
  | @constructor _ constructor hconstructor =>
    refine ⟨_, ?_, .constructor constructor.parameters⟩
    have hmem := ClassDecl.constructor_mem_references (List.mem_of_getElem? hconstructor)
    have htypes := classNames_handle fun type htype => hknown type (hmem type htype)
    simp only [spell, Option.mapM_some, Option.mapM_none, htypes]
    rfl

/-! ## Entities described -/

theorem declared_eq_of_entity (h : (ofSources sources).find cls = .ok info)
    (hmem : candidate ∈ kind.declared info) {candidate' : Candidate}
    (hmem' : candidate' ∈ kind.declared info) (heq : candidate'.entity = candidate.entity) :
    candidate' = candidate := by
  obtain ⟨decl, index, hdecl, hdeclares⟩ := declares_of_find h hmem
  obtain ⟨decl', index', hdecl', hdeclares'⟩ := declares_of_find h hmem'
  cases hdecl.symm.trans hdecl'
  exact hdeclares.eq_of_entity hdeclares' heq

theorem find?_entity (h : (ofSources sources).find cls = .ok info)
    (hmem : candidate ∈ kind.declared info) :
    (kind.declared info).find? (·.entity == candidate.entity) = some candidate := by
  cases hfound : (kind.declared info).find? (·.entity == candidate.entity) with
  | none => simpa using List.find?_eq_none.1 hfound candidate hmem
  | some other =>
    have heq : other.entity = candidate.entity := by simpa using List.find?_some hfound
    rw [declared_eq_of_entity h hmem (List.mem_of_find?_eq_some hfound) heq]

/-! ### Questions that are answered -/

theorem className_eq (h : registry.find cls = .ok info) :
    (registry.resolver : Resolver σ).className cls = pure info.name := by
  change Call.ofExcept ((·.name) <$> registry.find cls) = _
  rw [h]
  rfl

theorem signature_eq {text : String} (h : registry.signature candidate = .ok text) :
    candidate.signature (registry.resolver : Resolver σ) = pure text := by
  rw [signature_resolver, h]
  rfl

/-- **An entity with a name is described by it.** -/
theorem describe_of_names (h : (ofSources sources).Names name entity) :
    entity.describe ((ofSources sources).resolver : Resolver σ) = pure (some name) := by
  unfold Entity.describe
  cases entity with
  | cls id | parameter index id =>
    obtain ⟨info, hinfo, rfl⟩ := h
    dsimp only
    rw [className_eq hinfo, pure_bind]
  | field id | method id | constructor id =>
    obtain ⟨info, candidate, signature, hinfo, hmem, hentity, hsignature, rfl⟩ := h
    have hfound := find?_entity hinfo hmem
    rw [hentity] at hfound
    dsimp only
    rw [members_eq (by simp [Entity.kind]) hinfo, pure_bind, hfound]
    dsimp only
    rw [className_eq hinfo, pure_bind, signature_eq hsignature, pure_bind]

/-! ## Names followed back -/

/-- The class of an entity can be loaded by its own name. -/
def Loads (registry : Registry) (entity : Entity) : Prop :=
  ∃ name loaded, registry.Denotes entity.owner name ∧ registry.load name = .ok loaded

/-- No member stands before this one, among those of its kind in its class, with its signature. -/
def IsFirst (registry : Registry) (entity : Entity) : Prop :=
  ∀ info, registry.find entity.owner = .ok info →
    (entity.kind.declared info).Pairwise fun other candidate =>
      candidate.entity = entity → registry.signature other ≠ registry.signature candidate

theorem exists_names (h : (ofSources sources).Holds entity) :
    ∃ name, (ofSources sources).Names name entity := by
  cases entity with
  | cls id | parameter index id =>
    obtain ⟨info, hinfo⟩ := h
    exact ⟨_, info, hinfo, rfl⟩
  | field id | method id | constructor id =>
    obtain ⟨info, hinfo, candidate, hmem, hentity⟩ := h
    obtain ⟨spelling, hspell, -⟩ := exists_spell hinfo hmem
    have hnames := names_declared hinfo hmem (signature_of_spell hspell)
    rw [hentity] at hnames
    exact ⟨_, hnames⟩

theorem load_of_names (h : (ofSources sources).Names name entity)
    (hloads : (ofSources sources).Loads entity) :
    (ofSources sources).load name.cls = .ok entity.owner := by
  have hdenotes : (ofSources sources).Denotes entity.owner name.cls := by
    cases entity with
    | cls id | parameter index id =>
      obtain ⟨info, hinfo, rfl⟩ := h
      exact ⟨info, hinfo, rfl⟩
    | field id | method id | constructor id =>
      obtain ⟨info, candidate, signature, hinfo, -, -, -, rfl⟩ := h
      exact ⟨info, hinfo, rfl⟩
  obtain ⟨other, loaded, ⟨info, hinfo, rfl⟩, hload⟩ := hloads
  obtain ⟨info', hinfo', hname'⟩ := hdenotes
  cases hinfo.symm.trans hinfo'
  obtain ⟨info', hinfo', hsame⟩ := exists_of_load hload
  rw [← hname', hload, find_unique (nodup_ofSources sources) hinfo' hinfo hsame]

theorem findSigned_eq {text : String} {before after : List Candidate}
    (hbefore : ∀ other ∈ before, ∃ text', registry.signature other = .ok text' ∧ text' ≠ text)
    (h : registry.signature candidate = .ok text) :
    EntityName.findSigned (registry.resolver : Resolver σ) text (before ++ candidate :: after) =
      pure (some candidate.entity) := by
  induction before with
  | nil =>
    rw [List.nil_append, EntityName.findSigned, signature_eq h, pure_bind, if_pos rfl]
  | cons other before ih =>
    obtain ⟨⟨text', htext', hne⟩, hbefore⟩ := List.forall_mem_cons.1 hbefore
    rw [List.cons_append, EntityName.findSigned, signature_eq htext', pure_bind, if_neg hne]
    exact ih hbefore

/-- **The name of an entity leads back to it**, if its class can be loaded by its own name and no
member before it has its signature. -/
theorem locate_of_names (h : (ofSources sources).Names name entity)
    (hloads : (ofSources sources).Loads entity) (hfirst : (ofSources sources).IsFirst entity) :
    name.locate ((ofSources sources).resolver : Resolver σ) entity = pure (some entity) := by
  have hload : ((ofSources sources).resolver : Resolver σ).loadClass name.cls =
      pure entity.owner := by
    change Call.ofExcept ((ofSources sources).load name.cls) = _
    rw [load_of_names h hloads]
    rfl
  unfold EntityName.locate
  rw [hload, pure_bind]
  cases entity with
  | cls id | parameter index id =>
    obtain ⟨info, hinfo, rfl⟩ := h
    rfl
  | field id | method id | constructor id =>
    obtain ⟨info, candidate, text, hinfo, hmem, hentity, htext, rfl⟩ := h
    obtain ⟨before, after, hsplit⟩ := List.append_of_mem hmem
    have hfirst := hfirst info hinfo
    rw [hsplit] at hfirst
    dsimp only
    rw [Entity.owner, members_eq (by simp [Entity.kind]) hinfo, pure_bind, hsplit, ← hentity]
    refine findSigned_eq (fun other hother => ?_) htext
    obtain ⟨spelling, hspell, -⟩ := exists_spell hinfo (hsplit ▸ List.mem_append_left _ hother)
    have hother' := signature_of_spell hspell
    refine ⟨_, hother', fun heq => ?_⟩
    have hne :=
      (List.pairwise_append.1 hfirst).2.2 other hother candidate List.mem_cons_self hentity
    rw [hother', heq, htext] at hne
    exact hne rfl

end Registry

/-- **Names and handles of a registry are inverse to each other**, as far as a class is loaded by
its name and a member is the first one with its signature. -/
theorem names_of_sources (sources : List Source) :
    (∀ (name : EntityName) (like found : Entity) (world world' : σ),
      name.locate (Registry.ofSources sources).resolver like world = (.ok (some found), world') →
      found.kind = like.kind ∧ found.position? = like.position? ∧
        found.describe ((Registry.ofSources sources).resolver : Resolver σ) = pure (some name)) ∧
    ∀ entity, (Registry.ofSources sources).Holds entity →
      (Registry.ofSources sources).Loads entity → (Registry.ofSources sources).IsFirst entity →
      ∃ name, entity.describe ((Registry.ofSources sources).resolver : Resolver σ) =
          pure (some name) ∧
        name.locate ((Registry.ofSources sources).resolver : Resolver σ) entity =
          pure (some entity) := by
  refine ⟨fun name like found world world' hlocate => ?_, fun entity hholds hloads hfirst => ?_⟩
  · obtain ⟨hkind, hposition, hnames⟩ :=
      (Registry.locate_names name like).ok trivial hlocate found rfl
    exact ⟨hkind, hposition, Registry.describe_of_names hnames⟩
  · obtain ⟨name, hnames⟩ := Registry.exists_names hholds
    exact ⟨name, Registry.describe_of_names hnames, Registry.locate_of_names hnames hloads hfirst⟩

namespace Sample

/-- A class that declares a method twice, with another one of the same name in between. -/
def repeating : List Source := [{
  classes := [{ name := "A", methods := [{ name := "put", parameters := ["B"] },
    { name := "put" }, { name := "put", parameters := ["B"] }] }] }]

end Sample

/-- The second method is named, and found again by its name. The name of the third leads to the
first, which it describes as well. -/
theorem names_of_repeating :
    (∃ name, (Entity.method ⟨⟨0⟩, 1⟩).describe
          ((Registry.ofSources Sample.repeating).resolver : Resolver Unit) = pure (some name) ∧
        name.locate ((Registry.ofSources Sample.repeating).resolver : Resolver Unit)
          (.method ⟨⟨0⟩, 1⟩) = pure (some (.method ⟨⟨0⟩, 1⟩))) ∧
      (Entity.method ⟨⟨0⟩, 0⟩).describe
          ((Registry.ofSources Sample.repeating).resolver : Resolver Unit) =
        pure (some ⟨"A", some "put(B):void"⟩) := by
  obtain ⟨hlocated, hdescribed⟩ := @names_of_sources Unit Sample.repeating
  have hfirst : (Registry.ofSources Sample.repeating).IsFirst (.method ⟨⟨0⟩, 1⟩) := by
    rintro info ⟨⟩
    decide +kernel
  have hloads : (Registry.ofSources Sample.repeating).Loads (.method ⟨⟨0⟩, 1⟩) :=
    ⟨"A", ⟨0⟩, ⟨_, rfl, rfl⟩, rfl⟩
  have hholds : (Registry.ofSources Sample.repeating).Holds (.method ⟨⟨0⟩, 1⟩) :=
    ⟨_, rfl, _, List.mem_cons_of_mem _ List.mem_cons_self, rfl⟩
  refine ⟨hdescribed _ hholds hloads hfirst, ?_⟩
  have hlocate : (EntityName.mk "A" (some "put(B):void")).locate
      ((Registry.ofSources Sample.repeating).resolver : Resolver Unit) (.method ⟨⟨0⟩, 2⟩) () =
        (.ok (some (.method ⟨⟨0⟩, 0⟩)), ()) := by
    rfl
  exact (hlocated _ _ _ () () hlocate).2.2

end Metamatch
