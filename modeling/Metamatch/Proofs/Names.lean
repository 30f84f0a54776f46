import Mathlib.Data.List.Forall2
import Mathlib.Data.List.Nodup
import Mathlib.Data.List.Pairwise
import Metamatch.Proofs.Registry.Sources
import Metamatch.Proofs.Surroundings
import Metamatch.Registry

/-!
# Names in a registry

A registry answers questions without looking at the surroundings, and gives each of its classes a
name of its own. So the name of an entity leads back to it, or nowhere.

* `Registry.signature`, `Registry.Distinct`: signatures, and registries in which no class declares
  two members of one kind with the same one.
* `Registry.Names`: the names that a registry gives to its entities.
* `Registry.describeAll_leads`, `Registry.relocate_leads`: values named, and found again.
-/

namespace Metamatch

variable {σ ε α β : Type}

/-! ## Answers -/

/-- A question to a registry goes wrong only by an error. -/
abbrev Mishap.IsError (mishap : Mishap) : Prop := ∃ e, mishap = .error e

namespace Call

theorem ofExcept_leads (answer : Except LookupError α) :
    Leads (fun _ => True) (ofExcept answer : Call σ α) (fun a _ => answer = .ok a)
      fun mishap _ => mishap.IsError := by
  intro world _
  cases answer with
  | ok a => exact rfl
  | error e => exact ⟨e, rfl⟩

theorem attempt_returns {call : Call σ α} {Q : α → Prop}
    (h : Leads (fun _ => True) call (fun a _ => Q a) fun mishap _ => mishap.IsError) :
    Leads (fun _ => True) call.attempt (fun answer _ => ∀ a, answer = .ok a → Q a)
      fun _ _ => False := by
  refine (attempt_leads h).weaken (fun _ => id) (fun answer _ hq a ha => ?_) ?_
  · rw [ha] at hq
    exact hq
  · rintro payload _ ⟨e, ⟨⟩⟩

theorem ofExcept_inj {answer answer' : Except LookupError α} {world : σ}
    (h : ofExcept answer world = ofExcept answer' world) : answer = answer' := by
  cases answer <;> cases answer' <;> cases h <;> rfl

theorem ofExcept_map (f : α → β) (answer : Except LookupError α) :
    f <$> (ofExcept answer : Call σ α) = ofExcept (f <$> answer) := by
  cases answer <;> rfl

theorem ofExcept_bind (answer : Except LookupError α) (f : α → Except LookupError β) :
    ((ofExcept answer : Call σ α) >>= fun a => ofExcept (f a)) = ofExcept (answer >>= f) := by
  cases answer <;> rfl

theorem mapM_ofExcept (f : α → Except LookupError β) (items : List α) :
    items.mapM (fun a => (ofExcept (f a) : Call σ β)) = ofExcept (items.mapM f) := by
  induction items with
  | nil => rfl
  | cons a rest ih =>
    rw [List.mapM_cons, List.mapM_cons, ih, ← ofExcept_bind]
    refine bind_congr fun b => ?_
    rw [← ofExcept_bind]
    rfl

end Call

/-! ## Members and signatures -/

theorem eq_of_nodup_filterMap {f : α → Option β} {items : List α} (h : (items.filterMap f).Nodup)
    {a a' : α} (ha : a ∈ items) (ha' : a' ∈ items) {b : β} (hb : f a = some b)
    (hb' : f a' = some b) : a = a' := by
  have hpairwise := List.pairwise_filterMap.1 h
  have : Std.Symm fun a a' : α => ∀ b, f a = some b → ∀ b', f a' = some b' → b ≠ b' :=
    ⟨fun _ _ h b hb b' hb' => (h b' hb' b hb).symm⟩
  by_contra hne
  exact hpairwise.forall ha ha' hne b hb b hb' rfl

/-- The members of a kind that a class declares. -/
def Kind.declared (kind : Kind) (info : ClassInfo) : List Candidate :=
  match kind with
  | .field => info.fields.map .ofField
  | .method => info.methods.map .ofMethod
  | .constructor => info.constructors.map .ofConstructor
  | .cls | .text | .parameter => []

namespace Registry

variable (registry : Registry)

/-- The text that tells a member from others of its class. -/
def signature (candidate : Candidate) : Except LookupError String := do
  let className (id : ClassId) := (·.name) <$> registry.find id
  let parameters ← candidate.parameters.mapM fun types => types.mapM className
  let valueType ← candidate.valueType.mapM className
  return Candidate.signatureText candidate.name parameters valueType

/-- The signatures of the members of a kind that a class declares. -/
def signatures (info : ClassInfo) (kind : Kind) : List String :=
  (kind.declared info).filterMap fun candidate => (registry.signature candidate).toOption

/-- No class declares two members of one kind with the same signature. -/
def Distinct : Prop :=
  ∀ info ∈ registry.classes, ∀ kind ∈ Kind.all, (registry.signatures info kind).Nodup

instance : Decidable registry.Distinct :=
  inferInstanceAs (Decidable (∀ info ∈ registry.classes, ∀ kind ∈ Kind.all, _))

variable {registry}

theorem signature_resolver (candidate : Candidate) :
    candidate.signature registry.resolver =
      (Call.ofExcept (registry.signature candidate) : Call σ String) := by
  let name (cls : ClassId) : Except LookupError String := (·.name) <$> registry.find cls
  have hparameters : (candidate.parameters.mapM fun types =>
      types.mapM (registry.resolver : Resolver σ).className) =
        Call.ofExcept (candidate.parameters.mapM fun types => types.mapM name) := by
    cases candidate.parameters with
    | none => rfl
    | some types =>
      have htypes := Call.mapM_ofExcept (σ := σ) name types
      exact (congrArg (some <$> ·) htypes).trans (Call.ofExcept_map some _)
  have hvalueType : candidate.valueType.mapM (registry.resolver : Resolver σ).className =
      Call.ofExcept (candidate.valueType.mapM name) := by
    cases candidate.valueType with
    | none => rfl
    | some type => exact Call.ofExcept_map some _
  unfold Candidate.signature signature
  rw [hparameters, hvalueType, ← Call.ofExcept_bind]
  refine bind_congr fun parameters => ?_
  rw [← Call.ofExcept_bind]
  rfl

theorem members_resolver {kind : Kind} (hkind : kind ∈ [Kind.field, .method, .constructor])
    (owner : ClassId) : kind.members registry.resolver owner =
      (Call.ofExcept (kind.declared <$> registry.find owner) : Call σ (List Candidate)) := by
  have hmap : ∀ {β : Type} (f : ClassInfo → List β) (g : β → Candidate),
      (List.map g <$> (Call.ofExcept (f <$> registry.find owner) : Call σ (List β))) =
        Call.ofExcept ((fun info => (f info).map g) <$> registry.find owner) := by
    intro β f g
    rw [Call.ofExcept_map, Functor.map_map]
  cases kind with
  | field => exact hmap (·.fields) .ofField
  | method => exact hmap (·.methods) .ofMethod
  | constructor => exact hmap (·.constructors) .ofConstructor
  | cls | text | parameter => simp at hkind

/-! ## Names -/

theorem exists_of_map_eq_ok {f : ClassInfo → β} {answer : Except LookupError ClassInfo} {b : β}
    (h : f <$> answer = .ok b) : ∃ info, answer = .ok info ∧ f info = b := by
  cases answer with
  | error e => cases h
  | ok info =>
    cases h
    exact ⟨info, rfl, rfl⟩

/-- The name that a registry gives to a member: that of the class with the signature. -/
def NamesMember (registry : Registry) (name : EntityName) (owner : ClassId) (entity : Entity) :
    Prop :=
  ∃ info candidate signature, registry.find owner = .ok info ∧
    candidate ∈ entity.kind.declared info ∧ candidate.entity = entity ∧
    registry.signature candidate = .ok signature ∧ name = ⟨info.name, some signature⟩

/-- The name that a registry gives to an entity: that of the class, and for a member its signature
besides. -/
def Names (registry : Registry) (name : EntityName) (entity : Entity) : Prop :=
  match entity with
  | .cls id | .parameter _ id =>
    ∃ info, registry.find id = .ok info ∧ name = ⟨info.name, none⟩
  | .field id | .method id | .constructor id => registry.NamesMember name id.owner entity

theorem className_leads (cls : ClassId) :
    Leads (fun _ => True) ((registry.resolver : Resolver σ).className cls)
      (fun name _ => ∃ info, registry.find cls = .ok info ∧ info.name = name)
      fun mishap _ => mishap.IsError :=
  (Call.ofExcept_leads _).weaken (fun _ => id) (fun _ _ => exists_of_map_eq_ok) fun _ _ => id

theorem nameMember_leads {owner : ClassId} {info : ClassInfo} {candidate : Candidate}
    {entity : Entity} (hinfo : registry.find owner = .ok info)
    (hmem : candidate ∈ entity.kind.declared info) (hentity : candidate.entity = entity) :
    Leads (fun _ => True)
      (do
        let cls ← (registry.resolver : Resolver σ).className owner
        let signature ← candidate.signature registry.resolver
        return some (⟨cls, some signature⟩ : EntityName))
      (fun found _ => ∀ name, found = some name → registry.NamesMember name owner entity)
      fun mishap _ => mishap.IsError := by
  refine (className_leads owner).bind fun cls world ⟨other, hother, hcls⟩ => ?_
  subst hcls
  cases hinfo.symm.trans hother
  rw [signature_resolver]
  refine ((Call.ofExcept_leads _).bind fun signature => .pure fun _ hsignature => ?_) world trivial
  rintro name ⟨⟩
  exact ⟨info, candidate, signature, hinfo, hmem, hentity, hsignature, rfl⟩

theorem describe_leads (entity : Entity) :
    Leads (fun _ => True) (entity.describe (registry.resolver : Resolver σ))
      (fun found _ => ∀ name, found = some name → registry.Names name entity)
      fun mishap _ => mishap.IsError := by
  unfold Entity.describe
  cases entity with
  | cls cls | parameter index cls =>
    refine (className_leads cls).bind fun name => .pure ?_
    rintro _ ⟨info, hinfo, rfl⟩ _ ⟨⟩
    exact ⟨info, hinfo, rfl⟩
  | field member | method member | constructor member =>
    dsimp only
    rw [members_resolver (by simp [Entity.kind])]
    refine (Call.ofExcept_leads _).bind fun candidates => ?_
    split
    · exact .pure fun _ _ name h => nomatch h
    · next candidate hfound =>
      intro world hcandidates
      obtain ⟨info, hinfo, rfl⟩ := exists_of_map_eq_ok hcandidates
      exact nameMember_leads hinfo (List.mem_of_find?_eq_some hfound)
        (by simpa using List.find?_some hfound) world trivial

/-! ## Names followed -/

theorem exists_of_load {name : String} {cls : ClassId} (h : registry.load name = .ok cls) :
    ∃ info, registry.find cls = .ok info ∧ info.name = name := by
  have hmissing : registry.missing.contains name = false := by
    by_contra hmissing
    rw [load, if_pos (Bool.not_eq_false _ ▸ hmissing)] at h
    cases h
  rw [load, hmissing] at h
  cases hid : registry.classId? name with
  | none => simp [hid] at h
  | some id =>
    obtain ⟨info, hinfo, hname⟩ := registry.leads name id hid
    have hfind : registry.find id = .ok info := by
      simp [find, hinfo]
    simp only [hid, hfind] at h
    change (if info.broken then Except.error _ else Except.ok _) = _ at h
    split_ifs at h
    cases h
    exact ⟨info, hfind, hname⟩

theorem getElem?_of_find {cls : ClassId} {info : ClassInfo} (h : registry.find cls = .ok info) :
    registry.classes[cls.index]? = some info := by
  unfold find at h
  split at h <;> cases h
  assumption

theorem find_unique (hnames : (registry.classes.map (·.name)).Nodup) {cls cls' : ClassId}
    {info info' : ClassInfo} (h : registry.find cls = .ok info)
    (h' : registry.find cls' = .ok info') (hname : info.name = info'.name) : cls = cls' := by
  have hget : ∀ {cls : ClassId} {info : ClassInfo}, registry.find cls = .ok info →
      (registry.classes.map (·.name))[cls.index]? = some info.name := by
    intro cls info h
    rw [List.getElem?_map, getElem?_of_find h, Option.map_some]
  obtain ⟨index⟩ := cls
  obtain ⟨index'⟩ := cls'
  have hindex := hget h
  have hindex' := hget h'
  rw [hname, ← hindex'] at hindex
  have hlt : index < (registry.classes.map (·.name)).length :=
    (List.getElem?_eq_some_iff.1 (hget h)).1
  exact congrArg ClassId.mk ((List.getElem?_inj hlt hnames).1 hindex)

theorem findSigned_leads (text : String) (candidates : List Candidate) :
    Leads (fun _ => True)
      (EntityName.findSigned (registry.resolver : Resolver σ) text candidates)
      (fun found _ => ∀ entity, found = some entity →
        ∃ candidate ∈ candidates, registry.signature candidate = .ok text ∧
          candidate.entity = entity)
      fun mishap _ => mishap.IsError := by
  induction candidates with
  | nil => exact .pure fun _ _ entity h => nomatch h
  | cons candidate rest ih =>
    unfold EntityName.findSigned
    rw [signature_resolver]
    refine (Call.ofExcept_leads _).bind fun signature world hsignature => ?_
    split
    · next heq =>
      rintro entity ⟨⟩
      exact ⟨candidate, List.mem_cons_self, heq ▸ hsignature, rfl⟩
    · refine (ih.weaken (fun _ => id) (fun found _ h entity hfound => ?_) fun _ _ => id)
        world trivial
      obtain ⟨other, hmem, hother⟩ := h entity hfound
      exact ⟨other, List.mem_cons_of_mem candidate hmem, hother⟩

/-- Members of one class, kind and signature are the same. -/
theorem Distinct.eq_of_signature (h : registry.Distinct) {cls : ClassId} {info : ClassInfo}
    (hinfo : registry.find cls = .ok info) {kind : Kind} {candidate candidate' : Candidate}
    (hc : candidate ∈ kind.declared info) (hc' : candidate' ∈ kind.declared info) {text : String}
    (htext : registry.signature candidate = .ok text)
    (htext' : registry.signature candidate' = .ok text) : candidate = candidate' := by
  have hmem : info ∈ registry.classes := List.mem_of_getElem? (getElem?_of_find hinfo)
  have hnodup := h info hmem kind (by cases kind <;> decide)
  exact eq_of_nodup_filterMap hnodup hc hc' (congrArg Except.toOption htext)
    (congrArg Except.toOption htext')

theorem locateMember_leads (hnames : (registry.classes.map (·.name)).Nodup)
    (hdistinct : registry.Distinct) {name : EntityName} {owner cls : ClassId} {entity : Entity}
    (hkind : entity.kind ∈ [Kind.field, .method, .constructor])
    (hname : registry.NamesMember name owner entity) (hcls : registry.load name.cls = .ok cls) :
    ∃ signature, name.member = some signature ∧
      Leads (fun _ => True)
        (entity.kind.members (registry.resolver : Resolver σ) cls >>=
          EntityName.findSigned registry.resolver signature)
        (fun found _ => ∀ other, found = some other → other = entity)
        fun mishap _ => mishap.IsError := by
  obtain ⟨info, candidate, signature, hinfo, hmem, hentity, hsignature, rfl⟩ := hname
  obtain ⟨info', hinfo', hsame⟩ := exists_of_load hcls
  cases find_unique hnames hinfo' hinfo hsame
  refine ⟨signature, rfl, ?_⟩
  rw [members_resolver hkind, hinfo]
  refine (findSigned_leads signature _).weaken (fun _ => id) (fun found _ h other hfound => ?_)
    fun _ _ => id
  obtain ⟨candidate', hmem', hsignature', rfl⟩ := h other hfound
  rw [hdistinct.eq_of_signature hinfo hmem' hmem hsignature' hsignature, hentity]

/-- **The name of an entity leads back to it**, or nowhere. -/
theorem locate_leads (hnames : (registry.classes.map (·.name)).Nodup)
    (hdistinct : registry.Distinct) {name : EntityName} {entity : Entity}
    (hname : registry.Names name entity) :
    Leads (fun _ => True) (name.locate (registry.resolver : Resolver σ) entity)
      (fun found _ => ∀ other, found = some other → other = entity)
      fun mishap _ => mishap.IsError := by
  unfold EntityName.locate
  refine (Call.ofExcept_leads _).bind fun cls world hcls => ?_
  cases entity with
  | cls other | parameter index other =>
    obtain ⟨info, hinfo, rfl⟩ := hname
    obtain ⟨info', hinfo', hsame⟩ := exists_of_load hcls
    cases find_unique hnames hinfo' hinfo hsame
    rintro _ ⟨⟩
    rfl
  | field member | method member | constructor member =>
    obtain ⟨signature, hsignature, hleads⟩ :=
      locateMember_leads hnames hdistinct (by simp [Entity.kind]) hname hcls
    rw [hsignature]
    exact hleads world trivial

/-! ## Reports -/

theorem describeAll_leads (values : List Entity) :
    Leads (fun _ => True) (Entity.describeAll (registry.resolver : Resolver σ) values)
      (fun found _ => ∀ names, found = some names →
        ∀ item ∈ values.zip names, registry.Names item.2 item.1)
      fun _ _ => False := by
  induction values with
  | nil => exact .pure fun _ _ names _ => by simp
  | cons value rest ih =>
    unfold Entity.describeAll
    refine (Call.attempt_returns (describe_leads value)).bind fun answer world hanswer => ?_
    split
    · next name =>
      refine (ih.bind fun found => .pure fun _ hfound names hnames => ?_) world trivial
      obtain ⟨others, rfl, rfl⟩ := Option.map_eq_some_iff.1 hnames
      exact List.forall_mem_cons.2 ⟨hanswer _ rfl name rfl, hfound others rfl⟩
    · exact fun names h => nomatch h
    · exact fun names h => nomatch h

theorem locateAll_leads (hnames : (registry.classes.map (·.name)).Nodup)
    (hdistinct : registry.Distinct) {items : List (Entity × EntityName)}
    (h : ∀ item ∈ items, registry.Names item.2 item.1) :
    Leads (fun _ => True) (EntityName.locateAll (registry.resolver : Resolver σ) items)
      (fun found _ => ∀ values, found = some values → values = items.map Prod.fst)
      fun _ _ => False := by
  induction items with
  | nil =>
    refine .pure fun _ _ values hvalues => ?_
    cases hvalues
    rfl
  | cons item rest ih =>
    obtain ⟨hitem, h⟩ := List.forall_mem_cons.1 h
    unfold EntityName.locateAll
    refine (Call.attempt_returns (locate_leads hnames hdistinct hitem)).bind
      fun answer world hanswer => ?_
    split
    · next value =>
      refine ((ih h).bind fun found => .pure fun _ hfound values hvalues => ?_) world trivial
      obtain ⟨others, rfl, rfl⟩ := Option.map_eq_some_iff.1 hvalues
      rw [hanswer _ rfl value rfl, hfound others rfl]
      rfl
    · exact fun values h => nomatch h
    · exact fun values h => nomatch h

end Registry

/-- The names of a report are those that a registry gives to its values. -/
def Report.Named (registry : Registry) (report : Report) : Prop :=
  ∀ item ∈ report.values.zip report.names, registry.Names item.2 item.1

namespace Registry

variable {registry : Registry}

/-- **What a report names is found again as it was**, or not at all. -/
theorem relocate_leads (hnames : (registry.classes.map (·.name)).Nodup)
    (hdistinct : registry.Distinct) {report : Report} (h : report.Named registry) :
    Leads (fun _ => True) (report.relocate (registry.resolver : Resolver σ))
      (fun found _ => ∀ values, found = some values → values = report.values)
      fun _ _ => False := by
  unfold Report.relocate
  split
  · next hlength =>
    have hmap : (report.values.zip report.names).map Prod.fst = report.values :=
      List.map_fst_zip (Nat.le_of_eq hlength.symm)
    have hlocate := locateAll_leads (σ := σ) hnames hdistinct h
    rwa [hmap] at hlocate
  · exact .pure fun _ _ values h => nomatch h

theorem report_leads (prune : Bool) (slot : Slot) (node : Node) :
    Leads (fun _ => True) (node.report (registry.resolver : Resolver σ) prune slot)
      (fun report _ => report.Named registry) fun _ _ => False := by
  unfold Node.report
  dsimp only
  split
  · refine (describeAll_leads _).bind fun names => .pure fun _ hnames => ?_
    cases names with
    | none => exact fun item hitem => by simp at hitem
    | some names => exact hnames names rfl
  · exact .pure fun _ _ item hitem => by simp at hitem

/-- **Reports name their values**, and no crash keeps them from being made. -/
theorem reports_leads (prune : Bool) (slot : Slot) (nodes : List Node) :
    Leads (fun _ => True) (Node.reports (registry.resolver : Resolver σ) prune slot nodes)
      (fun reports _ => ∀ report ∈ reports, report.Named registry) fun _ _ => False := by
  induction nodes generalizing slot with
  | nil => exact .pure fun _ _ => by simp
  | cons node rest ih =>
    unfold Node.reports
    refine (report_leads prune slot node).bind fun here world hhere => ?_
    exact ((ih (slot + 1)).bind fun others => .pure fun _ hothers =>
      List.forall_mem_cons.2 ⟨hhere, hothers⟩) world trivial

/-! ## Registries of sources -/

theorem nodup_ofSources (sources : List Source) :
    ((ofSources sources).classes.map (·.name)).Nodup := by
  change (ofSources sources).known.Nodup
  rw [known_ofSources]
  exact nodup_eraseDups _

end Registry

end Metamatch
