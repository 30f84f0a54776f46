import Metamatch.Proofs.Identities

/-!
# Signatures and what they spell

A signature is a text that joins the names of types with commas, parentheses and a colon, which the
names may have as well. Where they do not, the text tells what it was made of.

* `Spelling.Plain`: types whose names cannot be taken for separators.
* `Spelling.text_injective`: plain spellings with one text are one spelling.
* `Registry.Spells`: the spelling of an entity.
* `spellings_of_signatures`: members with one signature, and a name that is followed.
-/

namespace Metamatch

variable {σ : Type}

/-! ## Separators -/

theorem eq_nil_of_cons_eq_append {α : Type} {c : α} {ys zs ys' : List α}
    (h : c :: ys = zs ++ c :: ys') (hys : c ∉ ys) : zs = [] ∧ ys = ys' := by
  cases zs with
  | nil => exact ⟨rfl, (List.cons.inj h).2⟩
  | cons z zs =>
    obtain ⟨-, rfl⟩ := List.cons.inj h
    exact absurd (List.mem_append_right _ List.mem_cons_self) hys

theorem eq_of_append_cons {α : Type} {c : α} {xs xs' ys ys' : List α}
    (h : xs ++ c :: ys = xs' ++ c :: ys') (hys : c ∉ ys) (hys' : c ∉ ys') :
    xs = xs' ∧ ys = ys' := by
  -- one of the fronts begins with the other, and what it has beyond is nothing
  obtain ⟨zs, rfl, hzs⟩ | ⟨zs, rfl, hzs⟩ := List.append_eq_append_iff.1 h
  · obtain ⟨rfl, rfl⟩ := eq_nil_of_cons_eq_append hzs hys
    exact ⟨(List.append_nil _).symm, rfl⟩
  · obtain ⟨rfl, rfl⟩ := eq_nil_of_cons_eq_append hzs hys'
    exact ⟨List.append_nil _, rfl⟩

namespace Spelling

/-- Types that can be told apart between commas and parentheses: no name has a comma or an opening
parenthesis, and there is not just one name, an empty one. -/
structure Separable (types : List String) : Prop where
  notMem_comma : ∀ type ∈ types, ',' ∉ type.toList
  notMem_parenthesis : ∀ type ∈ types, '(' ∉ type.toList
  ne_empty : types ≠ [""]

/-- A spelling whose types cannot be taken for separators. The name of the member may be any
text. -/
structure Plain (spelling : Spelling) : Prop where
  separable : ∀ types ∈ spelling.parameters, Separable types
  notMem_colon : ∀ type ∈ spelling.valueType, ':' ∉ type.toList

theorem Separable.splitOn_intercalate {types : List String} (h : Separable types) :
    (String.intercalate "," types).toList.splitOn ',' =
      if types = [] then [""].map String.toList else types.map String.toList := by
  rw [String.toList_intercalate]
  split_ifs with hnil
  · rw [hnil]
    rfl
  · refine List.splitOn_intercalate ',' (List.forall_mem_map.2 h.notMem_comma) ?_
    rwa [ne_eq, List.map_eq_nil_iff]

theorem Separable.eq_of_intercalate {types types' : List String} (h : Separable types)
    (h' : Separable types')
    (heq : String.intercalate "," types = String.intercalate "," types') : types = types' := by
  have hinj : Function.Injective (List.map String.toList) :=
    List.map_injective_iff.2 fun _ _ => String.toList_inj.1
  have hsplit := congrArg (·.toList.splitOn ',') heq
  simp only [h.splitOn_intercalate, h'.splitOn_intercalate] at hsplit
  split_ifs at hsplit with hnil hnil' hnil'
  · rw [hnil, hnil']
  · exact absurd (hinj hsplit).symm h'.ne_empty
  · exact absurd (hinj hsplit) h.ne_empty
  · exact hinj hsplit

theorem Separable.notMem_intercalate {types : List String} (h : Separable types) :
    '(' ∉ (String.intercalate "," types).toList := by
  have hparenthesis := h.notMem_parenthesis
  clear h
  induction types with
  | nil => simp
  | cons type rest ih => cases rest <;> simp_all [String.intercalate_cons_cons]

/-- A name and the types in parentheses after it. -/
theorem Separable.eq_of_parentheses {types types' : List String} (h : Separable types)
    (h' : Separable types') {name name' : String}
    (heq : name ++ "(" ++ String.intercalate "," types ++ ")" =
      name' ++ "(" ++ String.intercalate "," types' ++ ")") : name = name' ∧ types = types' := by
  have hlist := congrArg String.toList heq
  simp only [String.toList_append] at hlist
  have hopen := List.append_cancel_right hlist
  rw [List.append_assoc, List.append_assoc] at hopen
  obtain ⟨hname, htypes⟩ := eq_of_append_cons hopen h.notMem_intercalate h'.notMem_intercalate
  exact ⟨String.toList_inj.1 hname, h.eq_of_intercalate h' (String.toList_inj.1 htypes)⟩

/-- A text and the value type after it. -/
theorem eq_of_colon {front front' type type' : String}
    (heq : front ++ ":" ++ type = front' ++ ":" ++ type') (h : ':' ∉ type.toList)
    (h' : ':' ∉ type'.toList) : front = front' ∧ type = type' := by
  have hlist := congrArg String.toList heq
  simp only [String.toList_append, List.append_assoc] at hlist
  obtain ⟨hfront, htype⟩ := eq_of_append_cons hlist h h'
  exact ⟨String.toList_inj.1 hfront, String.toList_inj.1 htype⟩

theorem text_field (name type : String) :
    text ⟨some name, none, some type⟩ = name ++ ":" ++ type := by
  simp [text, Candidate.signatureText, String.append_assoc]

theorem text_method (name : String) (types : List String) (type : String) :
    text ⟨some name, some types, some type⟩ =
      name ++ "(" ++ String.intercalate "," types ++ ")" ++ ":" ++ type := by
  simp only [text, Candidate.signatureText, Option.getD_some, String.append_assoc]

theorem text_constructor (types : List String) :
    text ⟨none, some types, none⟩ = "<init>" ++ "(" ++ String.intercalate "," types ++ ")" := by
  simp only [text, Candidate.signatureText, Option.getD_none, String.append_assoc,
    String.append_empty]

/-- **Plain spellings of members of one kind are told apart by their texts.** -/
theorem text_injective {kind : Kind} {spelling spelling' : Spelling} (hkind : OfKind kind spelling)
    (hkind' : OfKind kind spelling') (h : spelling.Plain) (h' : spelling'.Plain)
    (heq : spelling.text = spelling'.text) : spelling = spelling' := by
  cases hkind with
  | field name type =>
    cases hkind' with
    | field name' type' =>
      rw [text_field, text_field] at heq
      obtain ⟨rfl, rfl⟩ := eq_of_colon heq (h.notMem_colon _ rfl) (h'.notMem_colon _ rfl)
      rfl
  | method name types type =>
    cases hkind' with
    | method name' types' type' =>
      rw [text_method, text_method] at heq
      obtain ⟨hfront, rfl⟩ := eq_of_colon heq (h.notMem_colon _ rfl) (h'.notMem_colon _ rfl)
      obtain ⟨rfl, rfl⟩ := (h.separable _ rfl).eq_of_parentheses (h'.separable _ rfl) hfront
      rfl
  | constructor types =>
    cases hkind' with
    | constructor types' =>
      rw [text_constructor, text_constructor] at heq
      obtain ⟨-, rfl⟩ := (h.separable _ rfl).eq_of_parentheses (h'.separable _ rfl) heq
      rfl

/-- Any of the separators in the name of a type makes two spellings one text, and so does the one
empty name. -/
example :
    text ⟨some "put", some ["B,C"], some "void"⟩ = text ⟨some "put", some ["B", "C"], some "void"⟩ ∧
    text ⟨some "put", some ["(B"], some "void"⟩ = text ⟨some "put(", some ["B"], some "void"⟩ ∧
    text ⟨some "put", some [""], some "void"⟩ = text ⟨some "put", some [], some "void"⟩ ∧
    text ⟨some "a", none, some "b:c"⟩ = text ⟨some "a:b", none, some "c"⟩ := by
  decide +kernel

end Spelling

/-! ## Members with one signature -/

namespace Registry

variable {sources sources' : List Source} {kind : Kind} {cls cls' : ClassId}
  {info info' : ClassInfo} {candidate candidate' : Candidate} {entity found : Entity}
  {name : EntityName}

/-- The spelling of a member that the registry holds. -/
def Spells (registry : Registry) (entity : Entity) (spelling : Spelling) : Prop :=
  ∃ info, registry.find entity.owner = .ok info ∧
    ∃ candidate ∈ entity.kind.declared info, candidate.entity = entity ∧
      registry.spell candidate = .ok spelling

theorem Spells.unique {spelling spelling' : Spelling}
    (h : (ofSources sources).Spells entity spelling)
    (h' : (ofSources sources).Spells entity spelling') : spelling = spelling' := by
  obtain ⟨info, hinfo, candidate, hmem, hentity, hspell⟩ := h
  obtain ⟨info', hinfo', candidate', hmem', hentity', hspell'⟩ := h'
  cases hinfo.symm.trans hinfo'
  cases declared_eq_of_entity hinfo hmem hmem' (hentity'.trans hentity.symm)
  exact Except.ok.inj (hspell.symm.trans hspell')

/-- **Members with one signature are spelled alike if they are spelled plainly.** They may be of
different registries. -/
theorem spelled_of_signature (h : (ofSources sources).find cls = .ok info)
    (hmem : candidate ∈ kind.declared info) (h' : (ofSources sources').find cls' = .ok info')
    (hmem' : candidate' ∈ kind.declared info')
    (heq : (ofSources sources).signature candidate = (ofSources sources').signature candidate') :
    ∃ spelling spelling', (ofSources sources).spell candidate = .ok spelling ∧
      (ofSources sources').spell candidate' = .ok spelling' ∧
      (spelling.Plain → spelling'.Plain → spelling = spelling') := by
  obtain ⟨spelling, hspell, hkind⟩ := exists_spell h hmem
  obtain ⟨spelling', hspell', hkind'⟩ := exists_spell h' hmem'
  rw [signature_of_spell hspell, signature_of_spell hspell'] at heq
  exact ⟨spelling, spelling', hspell, hspell', fun hplain hplain' =>
    Spelling.text_injective hkind hkind' hplain hplain' (Except.ok.inj heq)⟩

theorem Names.member (hkind : entity.kind ∈ [Kind.field, .method, .constructor])
    {registry : Registry} (h : registry.Names name entity) :
    registry.NamesMember name entity.owner entity := by
  cases entity with
  | cls _ | parameter _ _ => simp [Entity.kind] at hkind
  | field _ | method _ | constructor _ => exact h

theorem spells_of_names (hkind : entity.kind ∈ [Kind.field, .method, .constructor])
    (hsame : found.kind = entity.kind) (h : (ofSources sources).Names name entity)
    (h' : (ofSources sources').Names name found) :
    ∃ spelling spelling', (ofSources sources).Spells entity spelling ∧
      (ofSources sources').Spells found spelling' ∧
      (spelling.Plain → spelling'.Plain → spelling = spelling') := by
  obtain ⟨info, candidate, text, hinfo, hmem, hentity, htext, rfl⟩ := h.member hkind
  obtain ⟨info', candidate', text', hinfo', hmem', hentity', htext', hname⟩ :=
    h'.member (hsame ▸ hkind)
  obtain ⟨-, rfl⟩ : info.name = info'.name ∧ text = text' := by simpa using hname
  obtain ⟨spelling, spelling', hspell, hspell', hplain⟩ := spelled_of_signature hinfo hmem hinfo'
    (hsame ▸ hmem') (htext.trans htext'.symm)
  exact ⟨spelling, spelling', ⟨info, hinfo, candidate, hmem, hentity, hspell⟩,
    ⟨info', hinfo', candidate', hmem', hentity', hspell'⟩, hplain⟩

end Registry

/-- **A signature tells what a member is made of, if it is spelled plainly**, so that the name of a
member leads to one with the same name and types in any registry. -/
theorem spellings_of_signatures (sources sources' : List Source) (world : σ) :
    (∀ (kind : Kind) (cls cls' : ClassId) (info info' : ClassInfo)
        (candidate candidate' : Candidate),
      (Registry.ofSources sources).find cls = .ok info → candidate ∈ kind.declared info →
      (Registry.ofSources sources').find cls' = .ok info' → candidate' ∈ kind.declared info' →
      candidate.signature (Registry.ofSources sources).resolver world =
        candidate'.signature (Registry.ofSources sources').resolver world →
      ∃ spelling spelling', (Registry.ofSources sources).spell candidate = .ok spelling ∧
        (Registry.ofSources sources').spell candidate' = .ok spelling' ∧
        (spelling.Plain → spelling'.Plain → spelling = spelling')) ∧
    ∀ (entity found : Entity) (name : EntityName),
      entity.kind ∈ [Kind.field, .method, .constructor] →
      entity.describe (Registry.ofSources sources).resolver world = (.ok (some name), world) →
      name.locate (Registry.ofSources sources').resolver entity world =
        (.ok (some found), world) →
      found.kind = entity.kind ∧
        ∃ spelling spelling', (Registry.ofSources sources).Spells entity spelling ∧
          (Registry.ofSources sources').Spells found spelling' ∧
          (spelling.Plain → spelling'.Plain → spelling = spelling') := by
  refine ⟨fun kind cls cls' info info' candidate candidate' h hmem h' hmem' heq => ?_,
    fun entity found name hkind hdescribe hlocate => ?_⟩
  · rw [Registry.signature_resolver, Registry.signature_resolver] at heq
    exact Registry.spelled_of_signature h hmem h' hmem' (Call.ofExcept_inj heq)
  · have hnames := (Registry.describe_leads entity).ok trivial hdescribe name rfl
    obtain ⟨hsame, -, hnames'⟩ := (Registry.locate_names name entity).ok trivial hlocate found rfl
    exact ⟨hsame, Registry.spells_of_names hkind hsame hnames hnames'⟩

namespace Sample

/-- The class of `repeating` after another one, and with one method only. -/
def moved : List Source := [{
  classes := [{ name := "Zero" },
    { name := "A", methods := [{ name := "put", parameters := ["B"] }] }] }]

/-- A class with two methods of one name: the first has two parameters, the second has one, and the
name of its type has a comma. -/
def joined : List Source := [{
  classes := [{ name := "A", methods := [{ name := "put", parameters := ["B", "C"] },
    { name := "put", parameters := ["B,C"] }] }] }]

end Sample

/-- The third method of one registry has the signature of a method of another, where the class has
another place. Its name leads there, and both are spelled alike. -/
theorem spellings_of_moved :
    (∃ info info' candidate candidate' spelling,
      (Registry.ofSources Sample.repeating).find ⟨0⟩ = .ok info ∧
      (Registry.ofSources Sample.moved).find ⟨1⟩ = .ok info' ∧
      candidate ∈ Kind.method.declared info ∧ candidate' ∈ Kind.method.declared info' ∧
      (Registry.ofSources Sample.repeating).spell candidate = .ok spelling ∧
      (Registry.ofSources Sample.moved).spell candidate' = .ok spelling) ∧
    ∃ spelling, (Registry.ofSources Sample.repeating).Spells (.method ⟨⟨0⟩, 2⟩) spelling ∧
      (Registry.ofSources Sample.moved).Spells (.method ⟨⟨1⟩, 0⟩) spelling := by
  obtain ⟨hsignatures, hnames⟩ := spellings_of_signatures Sample.repeating Sample.moved ()
  have hplain : Spelling.Plain ⟨some "put", some ["B"], some "void"⟩ :=
    ⟨by rintro _ ⟨⟩; exact ⟨by decide, by decide, by decide⟩, by rintro _ ⟨⟩; decide⟩
  constructor
  · obtain ⟨spelling, spelling', hspell, hspell', hsame⟩ :=
      hsignatures .method ⟨0⟩ ⟨1⟩ _ _ _ _ rfl
        (List.mem_cons_of_mem _ (List.mem_cons_of_mem _ List.mem_cons_self)) rfl List.mem_cons_self
        rfl
    refine ⟨_, _, _, _, spelling, rfl, rfl,
      List.mem_cons_of_mem _ (List.mem_cons_of_mem _ List.mem_cons_self), List.mem_cons_self,
      hspell, ?_⟩
    cases hspell
    cases hspell'
    rw [hsame hplain hplain]
    rfl
  · obtain ⟨-, spelling, spelling', hspells, hspells', hsame⟩ :=
      hnames (.method ⟨⟨0⟩, 2⟩) (.method ⟨⟨1⟩, 0⟩) ⟨"A", some "put(B):void"⟩ (by decide) rfl rfl
    have hput : (Registry.ofSources Sample.repeating).Spells (.method ⟨⟨0⟩, 2⟩)
        ⟨some "put", some ["B"], some "void"⟩ :=
      ⟨_, rfl, _, List.mem_cons_of_mem _ (List.mem_cons_of_mem _ List.mem_cons_self), rfl, rfl⟩
    have hput' : (Registry.ofSources Sample.moved).Spells (.method ⟨⟨1⟩, 0⟩)
        ⟨some "put", some ["B"], some "void"⟩ :=
      ⟨_, rfl, _, List.mem_cons_self, rfl, rfl⟩
    cases hspells.unique hput
    cases hspells'.unique hput'
    exact ⟨_, hspells, hsame hplain hplain ▸ hspells'⟩

/-- The two methods have one signature, and the name of the second leads to the first. -/
theorem spellings_of_joined :
    (∃ info candidate candidate' spelling spelling' text,
      (Registry.ofSources Sample.joined).find ⟨0⟩ = .ok info ∧
      candidate ∈ Kind.method.declared info ∧ candidate' ∈ Kind.method.declared info ∧
      candidate.signature (Registry.ofSources Sample.joined).resolver () = (.ok text, ()) ∧
      candidate'.signature (Registry.ofSources Sample.joined).resolver () = (.ok text, ()) ∧
      (Registry.ofSources Sample.joined).spell candidate = .ok spelling ∧
      (Registry.ofSources Sample.joined).spell candidate' = .ok spelling' ∧
      spelling.parameters = some ["B", "C"] ∧ spelling'.parameters = some ["B,C"]) ∧
    (Entity.method ⟨⟨0⟩, 1⟩).describe (Registry.ofSources Sample.joined).resolver () =
      (.ok (some ⟨"A", some "put(B,C):void"⟩), ()) ∧
    (EntityName.mk "A" (some "put(B,C):void")).locate (Registry.ofSources Sample.joined).resolver
      (.method ⟨⟨0⟩, 1⟩) () = (.ok (some (.method ⟨⟨0⟩, 0⟩)), ()) := by
  refine ⟨⟨_, _, _, _, _, _, rfl, List.mem_cons_self, List.mem_cons_of_mem _ List.mem_cons_self,
    rfl, rfl, rfl, rfl, rfl, rfl⟩, rfl, rfl⟩

end Metamatch
