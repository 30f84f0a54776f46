import Metamatch.Proofs.Mirror.Layout
import Metamatch.Proofs.Run.Admission
import Metamatch.Proofs.Scans

/-!
# What a registry holds

Handles that come from a registry lead back into it, so no question about them goes without an
answer.

* `ClassDecl.Declares`, `Registry.declares_of_find`: declared members, read off the declaration.
* `Registry.Holds`: a value that stands for a class of a registry or for a member that one declares.
* `Registry.locate_names`, `Registry.locate_held`: what is found by a name has it, and is held.
* `Registry.search_held`: from values that are held, a search does not fail and finds such values.
* `Registry.load_of_declaration?`, `Registry.load_listed`: loading a name that is declared, and why one
  that is listed cannot be loaded.
-/

namespace Metamatch

variable {σ α : Type}

namespace Entity

/-- The class of an entity: itself, or the one that declares it. -/
def owner : Entity → ClassId
  | .cls id | .parameter _ id => id
  | .field id | .method id | .constructor id => id.owner

/-- The position of a parameter. -/
def position? : Entity → Option Nat
  | .parameter index _ => some index
  | .cls _ | .field _ | .method _ | .constructor _ => none

end Entity

theorem Task.ask_returns {call : Call σ α} {Q : α → Prop}
    (h : Leads (fun _ => True) call (fun a _ => Q a) fun _ _ => False) :
    Leads (fun _ => True) (ask call) (fun a _ => Q a) fun _ _ => False :=
  fun trace _ => ask_ends (h trace.world trivial)

/-- A member of a kind in a declaration, by its place there, with type names turned into handles. -/
inductive ClassDecl.Declares (handle : String → ClassId) (owner : ClassId) (decl : ClassDecl) :
    Kind → Nat → Candidate → Prop
  | field {index : Nat} {field : FieldDecl} : decl.fields[index]? = some field →
    Declares handle owner decl .field index
      ⟨.field ⟨owner, index⟩, some field.name, field.modifiers, some (handle field.type), none⟩
  | method {index : Nat} {method : MethodDecl} : decl.methods[index]? = some method →
    Declares handle owner decl .method index
      ⟨.method ⟨owner, index⟩, some method.name, method.modifiers,
        some (handle method.returnType), some (method.parameters.map handle)⟩
  | constructor {index : Nat} {constructor : ConstructorDecl} :
    decl.constructors[index]? = some constructor →
    Declares handle owner decl .constructor index
      ⟨.constructor ⟨owner, index⟩, none, constructor.modifiers, none,
        some (constructor.parameters.map handle)⟩

theorem ClassDecl.Declares.eq_of_entity {handle : String → ClassId} {owner : ClassId}
    {decl : ClassDecl} {kind : Kind} {index index' : Nat} {member member' : Candidate}
    (h : decl.Declares handle owner kind index member)
    (h' : decl.Declares handle owner kind index' member')
    (heq : member'.entity = member.entity) : member' = member := by
  cases h with
  | field hplace =>
    cases h' with
    | field hplace' =>
      cases heq
      cases hplace.symm.trans hplace'
      rfl
  | method hplace =>
    cases h' with
    | method hplace' =>
      cases heq
      cases hplace.symm.trans hplace'
      rfl
  | constructor hplace =>
    cases h' with
    | constructor hplace' =>
      cases heq
      cases hplace.symm.trans hplace'
      rfl

namespace Registry

/-- A class of a registry, on its own or at a parameter position, or a member that its class
declares. -/
def Holds (registry : Registry) (value : Entity) : Prop :=
  match value with
  | .cls id | .parameter _ id => ∃ info, registry.find id = .ok info
  | .field id | .method id | .constructor id =>
    ∃ info, registry.find id.owner = .ok info ∧
      ∃ candidate ∈ value.kind.declared info, candidate.entity = value

variable {registry : Registry} {sources : List Source} {cls : ClassId} {info : ClassInfo}
  {kind : Kind} {candidate : Candidate} {entity : Entity}

theorem Holds.exists_class {value : Entity} (h : registry.Holds value)
    (hcls : value.classId? = some cls) : ∃ info, registry.find cls = .ok info := by
  cases value with
  | cls id | parameter index id =>
    cases hcls
    exact h
  | field id | method id | constructor id => cases hcls

theorem eq_classInfo_of_find (h : (ofSources sources).find cls = .ok info) :
    cls = handle sources info.name ∧ info = classInfo sources (handle sources) info.name := by
  obtain ⟨hname, hcls⟩ := eq_handle_of_denotes ⟨info, h, rfl⟩
  rw [hcls, find_handle hname] at h
  exact ⟨hcls, (Except.ok.inj h).symm⟩

/-- **What is declared of a class is in its declaration**, with the place there for an index. -/
theorem declares_of_find (h : (ofSources sources).find cls = .ok info)
    (hmem : candidate ∈ kind.declared info) :
    ∃ decl index, declaration? sources info.name = some decl ∧
      decl.Declares (handle sources) cls kind index candidate := by
  obtain ⟨hcls, hinfo⟩ := eq_classInfo_of_find h
  rw [hinfo, classInfo] at hmem
  cases hdecl : declaration? sources info.name with
  | none =>
    rw [hdecl] at hmem
    cases kind <;> cases hmem
  | some decl =>
    rw [hdecl, ← hcls] at hmem
    cases kind with
    | field =>
      obtain ⟨field, hfield, rfl⟩ := List.mem_map.1 hmem
      obtain ⟨index, hindex, rfl⟩ := List.mem_mapIdx.1 hfield
      exact ⟨decl, index, rfl, .field (List.getElem?_eq_getElem hindex)⟩
    | method =>
      obtain ⟨method, hmethod, rfl⟩ := List.mem_map.1 hmem
      obtain ⟨index, hindex, rfl⟩ := List.mem_mapIdx.1 hmethod
      exact ⟨decl, index, rfl, .method (List.getElem?_eq_getElem hindex)⟩
    | constructor =>
      obtain ⟨constructor, hconstructor, rfl⟩ := List.mem_map.1 hmem
      obtain ⟨index, hindex, rfl⟩ := List.mem_mapIdx.1 hconstructor
      exact ⟨decl, index, rfl, .constructor (List.getElem?_eq_getElem hindex)⟩
    | cls | text | parameter => cases hmem

theorem holds_declared (h : (ofSources sources).find cls = .ok info)
    (hmem : candidate ∈ kind.declared info) :
    (ofSources sources).Holds candidate.entity := by
  obtain ⟨decl, index, -, hdeclares⟩ := declares_of_find h hmem
  cases hdeclares with
  | field _ | method _ | constructor _ => exact ⟨info, h, _, hmem, rfl⟩

theorem declared_entity (h : (ofSources sources).find cls = .ok info)
    (hmem : candidate ∈ kind.declared info) :
    candidate.entity.kind = kind ∧ candidate.entity.owner = cls ∧
      candidate.entity.position? = none := by
  obtain ⟨decl, index, -, hdeclares⟩ := declares_of_find h hmem
  cases hdeclares <;> exact ⟨rfl, rfl, rfl⟩

/-! ## Names followed -/

theorem members_eq (hkind : kind ∈ [Kind.field, .method, .constructor])
    (h : registry.find cls = .ok info) :
    kind.members (registry.resolver : Resolver σ) cls = pure (kind.declared info) := by
  rw [members_resolver hkind, h]
  rfl

theorem names_declared (h : (ofSources sources).find cls = .ok info)
    (hmem : candidate ∈ kind.declared info) {text : String}
    (htext : (ofSources sources).signature candidate = .ok text) :
    (ofSources sources).Names ⟨info.name, some text⟩ candidate.entity := by
  obtain ⟨decl, index, -, hdeclares⟩ := declares_of_find h hmem
  cases hdeclares with
  | field _ | method _ | constructor _ => exact ⟨info, _, text, h, hmem, rfl, htext, rfl⟩

/-- **A name leads to an entity with that name**, of the kind that was asked for and at the same
position, or nowhere. -/
theorem locate_names (name : EntityName) (like : Entity) :
    Yields (fun found => ∀ entity, found = some entity →
        entity.kind = like.kind ∧ entity.position? = like.position? ∧
          (ofSources sources).Names name entity)
      (name.locate ((ofSources sources).resolver : Resolver σ) like) := by
  obtain ⟨clsName, member⟩ := name
  unfold EntityName.locate
  refine Yields.bind (Q := fun cls => (ofSources sources).load clsName = .ok cls)
    ((Call.ofExcept_leads _).weaken (fun _ => id) (fun _ _ => id) fun _ _ _ => trivial)
      fun cls hload => ?_
  obtain ⟨info, hinfo, rfl⟩ := exists_of_load hload
  cases member with
  | none =>
    cases like with
    | cls _ | parameter _ _ =>
      refine .pure ?_
      rintro _ ⟨⟩
      exact ⟨rfl, rfl, info, hinfo, rfl⟩
    | field _ | method _ | constructor _ => exact .pure fun _ h => nomatch h
  | some text =>
    cases like with
    | cls _ | parameter _ _ => exact .pure fun _ h => nomatch h
    | field _ | method _ | constructor _ =>
      dsimp only
      rw [members_eq (by simp [Entity.kind]) hinfo, pure_bind]
      refine (findSigned_leads text _).weaken (fun _ => id) (fun found _ hfound entity h => ?_)
        fun _ _ _ => trivial
      obtain ⟨candidate, hmem, htext, rfl⟩ := hfound entity h
      obtain ⟨hkind, -, hposition⟩ := declared_entity hinfo hmem
      exact ⟨hkind, hposition, names_declared hinfo hmem htext⟩

theorem Names.holds (h : registry.Names name entity) : registry.Holds entity := by
  cases entity with
  | cls id | parameter index id =>
    obtain ⟨info, hinfo, -⟩ := h
    exact ⟨info, hinfo⟩
  | field id | method id | constructor id =>
    obtain ⟨info, candidate, text, hinfo, hmem, hentity, -⟩ := h
    exact ⟨info, hinfo, candidate, hmem, hentity⟩

theorem locate_held (name : EntityName) (like : Entity) :
    Yields (fun found => ∀ value, found = some value → (ofSources sources).Holds value)
      (name.locate ((ofSources sources).resolver : Resolver σ) like) :=
  (locate_names name like).mono fun _ hfound value hvalue => (hfound value hvalue).2.2.holds

/-! ## Values of an earlier result -/

theorem gather_held (last : MatchResult) (g : Graph) (slots : List Slot) :
    Yields (fun seeds => ∀ seed ∈ seeds, ∀ value ∈ seed.2, (ofSources sources).Holds value)
      (Seed.gather ((ofSources sources).resolver : Resolver σ) last g slots) := by
  have hrelocate : ∀ report : Report, Yields
      (fun found => ∀ values, found = some values →
        ∀ value ∈ values, (ofSources sources).Holds value)
      (report.relocate ((ofSources sources).resolver : Resolver σ)) := by
    intro report
    refine Yields.mono (Report.relocate_located fun value _ name => locate_held name value)
      fun found h values hvalues => ?_
    have hheld : List.Forall₂ (fun value _ => (ofSources sources).Holds value ∧ True) values
        report.values :=
      (h values hvalues).flip.imp fun _ _ hvalue => ⟨hvalue, trivial⟩
    exact (List.forall₂_and_left _ _ |>.1 hheld).1
  refine Yields.mono (Seed.gather_located hrelocate last g slots) fun seeds h seed hseed => ?_
  obtain ⟨node, report, -, -, hheld⟩ := h seed hseed
  exact hheld

/-! ## Searches -/

variable {host : Host σ} {checks : Scan.ClassChecks} {g : Graph} {c : Constraints} {slot : Slot}

theorem pass_held (h : registry.find cls = .ok info) (checks : Scan.ClassChecks) :
    Leads (fun _ => True) (checks.pass (registry.resolver : Resolver σ) cls) (fun _ _ => True)
      fun _ _ => False := by
  have hanswer : ∀ {β : Type} (f : ClassInfo → β),
      Leads (fun _ => True) (Call.ofExcept (f <$> registry.find cls) : Call σ β) (fun _ _ => True)
        fun _ _ => False := by
    intro β f
    rw [h]
    exact .pure fun _ _ => trivial
  have hpure : ∀ answer, Leads (fun _ => True) (pure answer : Call σ Bool) (fun _ _ => True)
      fun _ _ => False := fun _ => .pure fun _ _ => trivial
  unfold Scan.ClassChecks.pass
  refine (hanswer (·.modifiers)).bind fun modifiers => ?_
  split
  · refine Leads.bind (Q := fun _ _ => True) ?_ fun passes => ?_
    · unfold Scan.ClassChecks.pass.superclassPasses
      split
      · exact hpure true
      · exact (hanswer (·.superclass)).bind fun _ => hpure _
    · split
      · unfold Scan.ClassChecks.pass.interfacesPass
        split
        · exact hpure true
        · exact (hanswer (·.interfaces)).bind fun _ => hpure _
      · exact hpure false
  · exact hpure false

/-- A scan for classes does not fail, and finds classes that are there. -/
theorem walk_held (hresolver : host.resolver = registry.resolver) (hdecides : host.Decides)
    (slot : Slot) (matchFirst : Bool) (checks : Scan.ClassChecks) (names : List String) :
    Leads (fun _ => True) (Scan.walk host slot matchFirst checks names)
      (fun values _ => ∀ value ∈ values, registry.Holds value) fun _ _ => False := by
  have hload : ∀ name, Leads (fun _ => True) (Task.attempt (host.resolver.loadClass name))
      (fun answer _ => answer = registry.load name) fun _ _ => False := by
    intro name trace _
    rw [hresolver]
    change Ends _ _ (Task.attempt (Call.ofExcept (registry.load name)) trace)
    cases registry.load name <;> rfl
  have hconsult : ∀ text, Leads (fun _ => True) (Task.consult host slot text) (fun _ _ => True)
      fun _ _ => False := by
    intro text trace _
    obtain ⟨decision, trace', hconsult, -⟩ :=
      (Trace.Since.refl host trace).consult hdecides slot text
    unfold Task.consult
    rw [hconsult]
    trivial
  induction names with
  | nil => exact .pure fun _ _ => List.forall_mem_nil _
  | cons name rest ih =>
    unfold Scan.walk
    refine (hload name).bind fun answer trace hanswer => ?_
    cases answer with
    | error e =>
      refine ((hconsult e.message).bind fun decision => ?_) trace trivial
      cases decision with
      | proceed => exact ih
      | abort => exact .pure fun _ _ => List.forall_mem_nil _
    | ok cls =>
      obtain ⟨info, hinfo, -⟩ := exists_of_load hanswer.symm
      have hpass : Leads (fun _ => True) (Task.ask (checks.pass host.resolver cls))
          (fun _ _ => True) fun _ _ => False :=
        hresolver ▸ Task.ask_returns (pass_held hinfo checks)
      have hcls : registry.Holds (.cls cls) := ⟨info, hinfo⟩
      refine (hpass.bind fun passes => ?_) trace trivial
      split
      · split
        · exact .pure fun _ _ => List.forall_mem_singleton.2 hcls
        · exact ih.bind fun values => .pure fun _ hvalues =>
            List.forall_mem_cons.2 ⟨hcls, hvalues⟩
      · exact ih

theorem members_held (hresolver : host.resolver = (ofSources sources).resolver)
    (hkind : kind ∈ [Kind.field, .method, .constructor])
    (hpublished : ∀ s ∈ c.references, (g.valuation s).isSome)
    (hheld : ∀ s values, g.valuation s = some values →
      ∀ value ∈ values, (ofSources sources).Holds value) :
    Leads (fun _ => True) (Scan.members host g kind c)
      (fun values _ => ∀ value ∈ values, (ofSources sources).Holds value) fun _ _ => False := by
  have howner : g.single c.declaringClass = .ok (c.declaringClass >>= g.resolvedClass?) :=
    Graph.single_of_published fun s hs => hpublished s (c.declaringClass_subset hs)
  have hvalueType : g.single c.valueType = .ok (c.valueType >>= g.resolvedClass?) :=
    Graph.single_of_published fun s hs => hpublished s (c.valueType_subset hs)
  unfold Scan.members
  rw [howner, hvalueType,
    Graph.active_of_published fun s hs => hpublished s (c.parameterTypes_subset hs),
    Task.ofExcept_ok_bind]
  cases hfound : c.declaringClass >>= g.resolvedClass? with
  | none => exact .pure fun _ _ => List.forall_mem_nil _
  | some cls =>
    obtain ⟨s, -, hresolved⟩ := Option.bind_eq_some_iff.1 hfound
    obtain ⟨values, hvalues, hfirst⟩ := Option.bind_eq_some_iff.1 hresolved
    obtain ⟨value, hhead, hcls⟩ := Option.bind_eq_some_iff.1 hfirst
    obtain ⟨info, hinfo⟩ :=
      (hheld s values hvalues value (List.mem_of_head? hhead)).exists_class hcls
    have hmembers : Leads (fun _ => True) (Task.ask (kind.members host.resolver cls))
        (fun candidates _ => candidates = kind.declared info) fun _ _ => False := by
      refine Task.ask_returns ?_
      rw [hresolver, members_resolver hkind, hinfo]
      exact .pure fun _ _ => rfl
    dsimp only
    rw [Task.ofExcept_ok_bind, Task.ofExcept_ok_bind]
    refine hmembers.bind fun candidates => .pure ?_
    rintro trace rfl value hvalue
    obtain ⟨candidate, hcandidate, rfl⟩ := Scan.mem_select hvalue
    exact holds_declared hinfo hcandidate

/-- **From values that are held, a search does not fail and finds values that are held.** -/
theorem search_held {ctx : RunContext σ}
    (hresolver : ctx.host.resolver = (ofSources sources).resolver) (hdecides : ctx.host.Decides)
    {node : Node} (hpublished : ∀ s ∈ node.constraints.references, (g.valuation s).isSome)
    (hheld : ∀ s values, g.valuation s = some values →
      ∀ value ∈ values, (ofSources sources).Holds value) :
    Leads (fun _ => True) (Run.search ctx g slot node)
      (fun values _ => ∀ value ∈ values, (ofSources sources).Holds value) fun _ _ => False := by
  have hnothing : Leads (fun _ => True) (pure [] : Task σ (List Entity))
      (fun values _ => ∀ value ∈ values, (ofSources sources).Holds value) fun _ _ => False :=
    .pure fun _ _ => List.forall_mem_nil _
  unfold Run.search Run.scan
  split
  · exact hnothing
  · cases node.kind with
    | cls =>
      unfold Scan.classes
      rw [Graph.single_of_published fun s hs =>
          hpublished s (node.constraints.superclass_subset hs),
        Graph.active_of_published fun s hs =>
          hpublished s (node.constraints.interfaces_subset hs),
        Task.ofExcept_ok_bind, Task.ofExcept_ok_bind]
      exact walk_held hresolver hdecides _ _ _ _
    | field | method | constructor =>
      exact members_held hresolver (by simp) hpublished hheld
    | text | parameter => exact hnothing

/-! ## Names that cannot be loaded -/

theorem load_of_unresolvable {name : String} (hdecl : declaration? sources name = none)
    (hlisted : ∃ source ∈ sources, name ∈ source.unresolvable) :
    (ofSources sources).load name = .error (.classNotFound name) := by
  have hmissing : (ofSources sources).missing.contains name = true := by
    rw [List.contains_iff_mem, missing_ofSources]
    exact List.mem_filter.2 ⟨List.mem_flatMap.2 hlisted, by rw [hdecl]; rfl⟩
  rw [load, if_pos hmissing]

theorem load_of_declaration? {name : String} {decl : ClassDecl}
    (hdecl : declaration? sources name = some decl) : (ofSources sources).load name =
      if decl.broken = true then .error (.linkage name brokenReason)
      else .ok (handle sources name) := by
  have hmissing : ¬ (ofSources sources).missing.contains name = true := by
    rw [List.contains_iff_mem, missing_ofSources]
    intro hmem
    have hnone := (List.mem_filter.1 hmem).2
    rw [hdecl] at hnone
    cases hnone
  have hknown : name ∈ names sources := mem_names.2 <| .inl <| mem_declared.2
    ⟨decl, List.mem_of_find?_eq_some hdecl, name_of_declaration? hdecl⟩
  have hfind := find_handle hknown
  rw [classInfo, hdecl] at hfind
  rw [load, if_neg hmissing, classId?_ofSources, if_pos hknown]
  dsimp only
  rw [hfind]
  rfl

/-- A name that no source declares, or whose first declaration is broken, with what becomes of a
question for its class. -/
inductive Lacks (sources : List Source) (name : String) : LookupError → Prop
  | undeclared : declaration? sources name = none → Lacks sources name (.classNotFound name)
  | broken {decl : ClassDecl} : declaration? sources name = some decl → decl.broken = true →
    Lacks sources name (.linkage name brokenReason)

/-- **A name that is listed cannot be loaded for one of two reasons.** -/
theorem load_listed {name : String} (hname : ∃ source ∈ sources, name ∈ source.listed)
    {e : LookupError} (h : (ofSources sources).load name = .error e) : Lacks sources name e := by
  cases hdecl : declaration? sources name with
  | none =>
    obtain ⟨source, hsource, hlisted⟩ := hname
    have hunresolvable : name ∈ source.unresolvable := by
      refine (List.mem_append.1 hlisted).resolve_left fun hdeclared => ?_
      obtain ⟨decl, hmem, hsame⟩ := List.mem_map.1 hdeclared
      refine absurd hsame ?_
      have hother := List.find?_eq_none.1 hdecl decl (List.mem_flatMap.2 ⟨source, hsource, hmem⟩)
      simpa using hother
    rw [load_of_unresolvable hdecl ⟨source, hsource, hunresolvable⟩] at h
    cases h
    exact .undeclared hdecl
  | some decl =>
    rw [load_of_declaration? hdecl] at h
    split_ifs at h with hbroken
    cases h
    exact .broken hdecl hbroken

end Registry

end Metamatch
