import Metamatch.Proofs.Saved
import Metamatch.Saved.Source

/-!
# Sources read back

Declarations hold nothing that a reader could refuse: modifier words have 32 bits, and every default
that a reader puts in for a missing field is written out all the same.

* `Json.Standard.compact_list`: the text of a list, by the texts of its items.
* `ClassDecl.ofJson?_gives`, `Source.ofJson?_gives`: declarations and sources read back from JSON.
* `Registry.dumpText`, `compact_dump`: the text of a dump, by the texts of its sources.
* `load?_save_of_sources`: sources and dumps read back from their texts.
-/

namespace Metamatch

open Json (Gives)

/-! ## Texts without blanks -/

namespace Json

@[simp] theorem Layout.breakAt_compact (depth : Nat) : Layout.compact.breakAt depth = [] := rfl

@[simp] theorem Layout.gap_compact : Layout.compact.gap = [] := rfl

theorem toList_compact (value : Json) : value.compact.toList = write .compact 0 value := by
  rw [compact, String.toList_ofList]

theorem writeItems_compact {items : List Json} (depth : Nat)
    (h : ∀ item ∈ items, ∀ depth, write .compact depth item = item.compact.toList) :
    writeItems .compact depth items =
      items.flatMap (fun item => ',' :: item.compact.toList) ++ [']'] := by
  induction items with
  | nil => rfl
  | cons item items ih =>
    obtain ⟨hitem, hitems⟩ := List.forall_mem_cons.1 h
    rw [writeItems, hitem, ih hitems, List.flatMap_cons, List.append_assoc]
    simp

theorem writeMembers_compact {members : List (JsonText × Json)} (depth : Nat)
    (h : ∀ member ∈ members, ∀ depth,
      write .compact depth member.2 = member.2.compact.toList) :
    writeMembers .compact depth members =
      members.flatMap (fun member =>
        ',' :: (writeJsonText member.1 ++ ':' :: member.2.compact.toList)) ++ ['}'] := by
  induction members with
  | nil => rfl
  | cons member members ih =>
    obtain ⟨hmember, hmembers⟩ := List.forall_mem_cons.1 h
    rw [writeMembers, hmember, ih hmembers, List.flatMap_cons]
    simp

theorem Standard.write_compact {value : Json} (h : Standard value) :
    ∀ depth, write .compact depth value = value.compact.toList := by
  induction h with
  | null | nat | str =>
    intro depth
    rw [toList_compact]
    rfl
  | bool value =>
    intro depth
    rw [toList_compact]
    rfl
  | @list items _ ih =>
    intro depth
    rw [toList_compact]
    cases items with
    | nil => rfl
    | cons item items =>
      obtain ⟨hitem, hitems⟩ := List.forall_mem_cons.1 ih
      rw [write, write, hitem, hitem, writeItems_compact _ hitems, writeItems_compact _ hitems]
      rfl
  | @record members _ ih =>
    intro depth
    rw [toList_compact]
    cases members with
    | nil => rfl
    | cons member members =>
      obtain ⟨hmember, hmembers⟩ := List.forall_mem_cons.1 ih
      have hrest : ∀ member ∈ members.map fun member => ((some member.1 : JsonText), member.2),
          ∀ depth, write .compact depth member.2 = member.2.compact.toList := by
        exact List.forall_mem_map.2 hmembers
      rw [Json.record, List.map_cons, write, write, hmember, hmember, writeMembers_compact _ hrest,
        writeMembers_compact _ hrest]
      rfl

theorem intercalate_comma (first : List Char) (rest : List (List Char)) :
    [','].intercalate (first :: rest) = first ++ rest.flatMap (',' :: ·) := by
  induction rest generalizing first with
  | nil => simp
  | cons next rest ih => rw [List.intercalate_cons_cons, ih, List.flatMap_cons]; simp

/-- The texts of the items of a list, with commas between them and in brackets. -/
def listText (items : List String) : String := "[" ++ ",".intercalate items ++ "]"

theorem Standard.compact_list {items : List Json} (h : ∀ item ∈ items, Standard item) :
    (Json.list items).compact = listText (items.map compact) := by
  rw [← String.toList_inj, toList_compact, listText]
  cases items with
  | nil => rfl
  | cons item items =>
    obtain ⟨hitem, hitems⟩ := List.forall_mem_cons.1 h
    have hwrite : ∀ item ∈ items, ∀ depth, write .compact depth item = item.compact.toList :=
      fun item hin => (hitems item hin).write_compact
    rw [write, hitem.write_compact, writeItems_compact 0 hwrite]
    simp [intercalate_comma, List.flatMap_map]

end Json

/-! ## Declarations -/

theorem Modifiers.ofJson?_gives (m : Modifiers) : Gives (ofJson? m.toJson) True m := by
  have hsame : ofNat m.toNat = m := by rw [ofNat, toNat, BitVec.ofNat_toNat, BitVec.setWidth_eq]
  have hgives := (Json.natBelow?_gives UInt32.size m.toNat).map ofNat
  rw [hsame] at hgives
  exact hgives.congr (iff_true_intro m.bits.isLt)

theorem Json.strings_gives (items : List String) :
    Gives (list? string? (strings items)) True items :=
  (list?_gives string?_gives items).congr (by simp)

theorem Json.optional_gives (text : Option String) :
    Gives (nullable? string? (text.elim .null .str)) True text := by
  cases text with
  | none => exact .pure none
  | some text => exact (string?_gives text).map some

theorem FieldDecl.ofJson?_gives (decl : FieldDecl) : Gives (ofJson? decl.toJson) True decl := by
  have hfields : decl.toJson.fields? ["name", "type", "modifiers"] =
      some [some (.str decl.name), some (.str decl.type), some decl.modifiers.toJson] := rfl
  unfold ofJson?
  rw [hfields, Option.bind_eq_bind, Option.bind_some]
  refine Gives.congr (Gives.bind (Json.string?_gives decl.name)
    (Gives.bind (Json.string?_gives decl.type)
      (decl.modifiers.ofJson?_gives.bind (.pure decl)))) ?_
  simp

theorem MethodDecl.ofJson?_gives (decl : MethodDecl) : Gives (ofJson? decl.toJson) True decl := by
  have hfields : decl.toJson.fields? ["name", "return_type", "parameters", "modifiers"] =
      some [some (.str decl.name), some (.str decl.returnType), some (.strings decl.parameters),
        some decl.modifiers.toJson] := rfl
  unfold ofJson?
  rw [hfields, Option.bind_eq_bind, Option.bind_some]
  refine Gives.congr (Gives.bind (Json.string?_gives decl.name)
    (Gives.bind (Json.string?_gives decl.returnType)
      ((Json.strings_gives decl.parameters).bind
        (decl.modifiers.ofJson?_gives.bind (.pure decl))))) ?_
  simp

theorem ConstructorDecl.ofJson?_gives (decl : ConstructorDecl) :
    Gives (ofJson? decl.toJson) True decl := by
  have hfields : decl.toJson.fields? ["parameters", "modifiers"] =
      some [some (.strings decl.parameters), some decl.modifiers.toJson] := rfl
  unfold ofJson?
  rw [hfields, Option.bind_eq_bind, Option.bind_some]
  refine Gives.congr (Gives.bind (Json.strings_gives decl.parameters)
    (decl.modifiers.ofJson?_gives.bind (.pure decl))) ?_
  simp

theorem ClassDecl.ofJson?_gives (decl : ClassDecl) : Gives (ofJson? decl.toJson) True decl := by
  have hfields : decl.toJson.fields?
      ["name", "modifiers", "superclass", "interfaces", "fields", "methods", "constructors",
        "broken"] =
      some [some (.str decl.name), some decl.modifiers.toJson,
        some (decl.superclass.elim .null .str), some (.strings decl.interfaces),
        some (.list (decl.fields.map FieldDecl.toJson)),
        some (.list (decl.methods.map MethodDecl.toJson)),
        some (.list (decl.constructors.map ConstructorDecl.toJson)),
        some (.bool decl.broken)] := rfl
  have hfieldDecls := Json.list?_gives FieldDecl.ofJson?_gives decl.fields
  have hmethods := Json.list?_gives MethodDecl.ofJson?_gives decl.methods
  have hconstructors := Json.list?_gives ConstructorDecl.ofJson?_gives decl.constructors
  have hbroken : Gives (Json.bool? (.bool decl.broken)) True decl.broken := .pure decl.broken
  unfold ofJson?
  rw [hfields, Option.bind_eq_bind, Option.bind_some]
  refine Gives.congr (Gives.bind (Json.string?_gives decl.name)
    (decl.modifiers.ofJson?_gives.bind ((Json.optional_gives decl.superclass).bind
      ((Json.strings_gives decl.interfaces).bind (hfieldDecls.bind (hmethods.bind
        (hconstructors.bind (hbroken.bind (.pure decl)))))))) ) ?_
  simp

theorem Source.ofJson?_gives (source : Source) : Gives (ofJson? source.toJson) True source := by
  have hfields : source.toJson.fields? ["classes", "unresolvable"] =
      some [some (.list (source.classes.map ClassDecl.toJson)),
        some (.strings source.unresolvable)] := rfl
  unfold ofJson?
  rw [hfields, Option.bind_eq_bind, Option.bind_some]
  refine Gives.congr ((Json.list?_gives ClassDecl.ofJson?_gives source.classes).bind
    ((Json.strings_gives source.unresolvable).bind (.pure source))) ?_
  simp

/-! ## Texts -/

theorem Json.Standard.strings (items : List String) : (Json.strings items).Standard :=
  .list (List.forall_mem_map.2 fun item _ => .str item)

theorem Modifiers.toJson_standard (m : Modifiers) : m.toJson.Standard := .nat m.toNat

theorem FieldDecl.toJson_standard (decl : FieldDecl) : decl.toJson.Standard :=
  .record (by simp [Json.Standard.str, Modifiers.toJson_standard])

theorem MethodDecl.toJson_standard (decl : MethodDecl) : decl.toJson.Standard :=
  .record (by simp [Json.Standard.str, Json.Standard.strings, Modifiers.toJson_standard])

theorem ConstructorDecl.toJson_standard (decl : ConstructorDecl) : decl.toJson.Standard :=
  .record (by simp [Json.Standard.strings, Modifiers.toJson_standard])

theorem ClassDecl.toJson_standard (decl : ClassDecl) : decl.toJson.Standard := by
  have hsuperclass : (decl.superclass.elim Json.null .str).Standard := by
    cases decl.superclass with
    | none => exact .null
    | some name => exact .str name
  have hfields : (Json.list (decl.fields.map FieldDecl.toJson)).Standard :=
    .list (List.forall_mem_map.2 fun field _ => field.toJson_standard)
  have hmethods : (Json.list (decl.methods.map MethodDecl.toJson)).Standard :=
    .list (List.forall_mem_map.2 fun method _ => method.toJson_standard)
  have hconstructors : (Json.list (decl.constructors.map ConstructorDecl.toJson)).Standard :=
    .list (List.forall_mem_map.2 fun constructor _ => constructor.toJson_standard)
  exact .record (by simp [Json.Standard.str, Json.Standard.bool, Json.Standard.strings,
    Modifiers.toJson_standard, hsuperclass, hfields, hmethods, hconstructors])

theorem Source.toJson_standard (source : Source) : source.toJson.Standard := by
  have hclasses : (Json.list (source.classes.map ClassDecl.toJson)).Standard :=
    .list (List.forall_mem_map.2 fun decl _ => decl.toJson_standard)
  exact .record (by simp [Json.Standard.strings, hclasses])

/-! ## Dumps -/

namespace Registry

/-- A dump of sources: an object with the list of them. -/
def dump (sources : List Source) : Json :=
  .record [("sources", .list (sources.map Source.toJson))]

/-- The text of a dump, put together from the texts of its sources. -/
def dumpText (sources : List Source) : String :=
  "\x7b\"sources\":" ++ Json.listText (sources.map Source.save) ++ "\x7d"

theorem dump?_gives (sources : List Source) : Json.Gives (dump? (dump sources)) True sources := by
  have hfields : (dump sources).fields? ["sources"] =
      some [some (.list (sources.map Source.toJson))] := rfl
  unfold dump?
  rw [hfields, Option.bind_eq_bind, Option.bind_some]
  exact (Json.list?_gives Source.ofJson?_gives sources).congr (by simp)

theorem dump_standard (sources : List Source) : (dump sources).Standard := by
  have hsources : (Json.list (sources.map Source.toJson)).Standard :=
    .list (List.forall_mem_map.2 fun source _ => source.toJson_standard)
  exact .record (by simpa using hsources)

theorem compact_dump (sources : List Source) : (dump sources).compact = dumpText sources := by
  have hstandard : ∀ item ∈ sources.map Source.toJson, item.Standard :=
    List.forall_mem_map.2 fun source _ => source.toJson_standard
  have hlist : (Json.list (sources.map Source.toJson)).compact =
      Json.listText (sources.map Source.save) := by
    rw [Json.Standard.compact_list hstandard, List.map_map]
    rfl
  have hwrite := (Json.Standard.list hstandard).write_compact 1
  rw [hlist] at hwrite
  rw [← String.toList_inj, Json.toList_compact, dump, dumpText, Json.record, List.map_cons,
    Json.write, hwrite]
  simp only [String.toList_append]
  rfl

end Registry

/-- **Sources and dumps read back as they were written**, whatever names and modifier words they
hold. -/
theorem load?_save_of_sources :
    (∀ source : Source, Source.load? source.save = some source) ∧
      ∀ sources : List Source,
        Registry.load? (Registry.dumpText sources) = some (.ofSources sources) := by
  constructor
  · intro source
    unfold Source.load? Source.save
    rw [Json.parse?_compact source.toJson_standard]
    exact (source.ofJson?_gives source).2 ⟨trivial, rfl⟩
  · intro sources
    have hdump := (Registry.dump?_gives sources sources).2 ⟨trivial, rfl⟩
    unfold Registry.load?
    rw [← Registry.compact_dump, Json.parse?_compact (Registry.dump_standard sources)]
    simp only [Option.bind_eq_bind, Option.bind_some, hdump]
    rfl

end Metamatch
