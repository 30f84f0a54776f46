import Metamatch.Proofs.Json.RoundTrip
import Metamatch.Saved.Result

/-!
# Saved results read back

The numbers of a saved result are read with 32 or 64 bits. Results that keep to this read back as
they were, and no others read back at all.

* `Json.Gives`: what a reader comes to, and when.
* `Entity.Fits`, `Report.Fits`, `MatchResult.Fits`: numbers that are not too large.
* `MatchResult.load?_save`: what reads back is the result that was saved.
* `Json.Accepts`, `MatchResult.fits_of_load?`: whatever reads from a text has such numbers.
-/

namespace Metamatch

/-! ## Readers -/

namespace Json

variable {α β : Type}

/-- A reader comes to a value if a condition holds, and else to nothing. -/
def Gives (reading : Option α) (P : Prop) (a : α) : Prop := ∀ b, reading = some b ↔ P ∧ b = a

namespace Gives

variable {reading : Option α} {P Q : Prop} {a : α} {b : β}

theorem pure (a : α) : Gives (some a) True a := by
  intro b
  rw [Option.some.injEq, true_and]
  exact eq_comm

theorem bind (h : Gives reading P a) {f : α → Option β} (hf : Gives (f a) Q b) :
    Gives (reading.bind f) (P ∧ Q) b := by
  intro b'
  rw [Option.bind_eq_some_iff, and_assoc, ← hf b']
  constructor
  · rintro ⟨a', ha, hb⟩
    obtain ⟨hP, rfl⟩ := (h a').1 ha
    exact ⟨hP, hb⟩
  · rintro ⟨hP, hb⟩
    exact ⟨a, (h a).2 ⟨hP, rfl⟩, hb⟩

theorem map (h : Gives reading P a) (f : α → β) : Gives (reading.map f) P (f a) := by
  rw [Option.map_eq_bind]
  intro b
  rw [h.bind (.pure (f a)) b, and_true]

theorem congr (h : Gives reading P a) (hPQ : P ↔ Q) : Gives reading Q a := by
  intro b
  rw [h b, hPQ]

end Gives

/-! ### Shapes -/

theorem natBelow?_gives (bound n : Nat) : Gives (natBelow? bound (.nat n)) (n < bound) n := by
  intro m
  simp only [natBelow?, Option.ite_none_right_eq_some, Option.some.injEq]
  exact and_congr_right fun _ => eq_comm

theorem string?_gives (text : String) : Gives (string? (.str text)) True text := .pure text

theorem label?_gives {label : α → String} {ofLabel? : String → Option α}
    (h : ∀ a, ofLabel? (label a) = some a) (a : α) :
    Gives (label? ofLabel? (.str (label a))) True a := by
  simp only [label?, variant?, str, Option.map_some, h]
  exact .pure a

variable {toJson : α → Json} {value? : Json → Option α} {Fits : α → Prop}

theorem list?_gives (h : ∀ a, Gives (value? (toJson a)) (Fits a) a) (items : List α) :
    Gives (list? value? (.list (items.map toJson))) (∀ a ∈ items, Fits a) items := by
  induction items with
  | nil => exact (Gives.pure []).congr (by simp)
  | cons a rest ih =>
    rw [list?, List.map_cons, List.mapM_cons]
    refine ((h a).bind (ih.bind (.pure (a :: rest)))).congr ?_
    rw [List.forall_mem_cons, and_true]

/-- A field that is left out if there is nothing to say. -/
theorem nullable?_gives (h : ∀ a, Gives (value? (toJson a)) (Fits a) a)
    (hnull : ∀ a, toJson a ≠ .null) (a : Option α) :
    Gives (defaulted none (nullable? value?) (a.map toJson)) (∀ a' ∈ a, Fits a') a := by
  cases a with
  | none => exact (Gives.pure none).congr (by simp)
  | some a =>
    have hnullable : nullable? value? (toJson a) = (value? (toJson a)).map some := by
      unfold nullable?
      split
      · next hvalue => exact absurd hvalue (hnull a)
      · rfl
    rw [Option.map_some, defaulted, hnullable]
    exact ((h a).map some).congr (by simp)

/-- A list that is left out if it is empty. -/
theorem defaulted_gives (h : ∀ a, Gives (value? (toJson a)) (Fits a) a) (items : List α) :
    Gives (defaulted [] (list? value?)
        (if items.isEmpty then none else some (.list (items.map toJson))))
      (∀ a ∈ items, Fits a) items := by
  cases items with
  | nil => exact (Gives.pure []).congr (by simp)
  | cons a rest => exact list?_gives h (a :: rest)

end Json

open Json (Gives)

/-! ## Entities -/

/-- A handle of 32 bits. -/
def ClassId.Fits (id : ClassId) : Prop := id.index < UInt32.size

/-- A handle of 32 bits for the class and for the place. -/
def MemberId.Fits (id : MemberId) : Prop := id.owner.Fits ∧ id.index < UInt32.size

/-- An entity with a handle and a position of 32 bits. -/
def Entity.Fits : Entity → Prop
  | .cls id => id.Fits
  | .field id | .method id | .constructor id => id.Fits
  | .parameter index type => index < UInt32.size ∧ type.Fits

instance (id : ClassId) : Decidable id.Fits := inferInstanceAs (Decidable (_ < _))

instance (id : MemberId) : Decidable id.Fits := inferInstanceAs (Decidable (_ ∧ _))

instance : (entity : Entity) → Decidable entity.Fits
  | .cls id => inferInstanceAs (Decidable id.Fits)
  | .field id | .method id | .constructor id => inferInstanceAs (Decidable id.Fits)
  | .parameter _ type => inferInstanceAs (Decidable (_ ∧ type.Fits))

theorem ClassId.ofJson?_gives (id : ClassId) : Gives (ofJson? id.toJson) id.Fits id :=
  (Json.natBelow?_gives UInt32.size id.index).map ClassId.mk

theorem MemberId.ofJson?_gives (id : MemberId) : Gives (ofJson? id.toJson) id.Fits id := by
  have hfields : id.toJson.fields? ["class", "index"] =
      some [some id.owner.toJson, some (.nat id.index)] := rfl
  unfold ofJson?
  rw [hfields]
  refine (id.owner.ofJson?_gives.bind
    ((Json.natBelow?_gives UInt32.size id.index).bind (.pure id))).congr ?_
  rw [and_true, Fits]

theorem Entity.ofJson?_gives (entity : Entity) :
    Gives (ofJson? entity.toJson) entity.Fits entity := by
  have hvariant : entity.toJson.variant? =
      some (entity.kind.label, some (toJson.content entity)) := by
    cases entity <;> rfl
  unfold ofJson?
  rw [hvariant]
  simp only [Option.bind_eq_bind, Option.bind_some, Kind.ofLabel?_label]
  cases entity with
  | cls id => exact id.ofJson?_gives.map Entity.cls
  | field id => exact id.ofJson?_gives.map Entity.field
  | method id => exact id.ofJson?_gives.map Entity.method
  | constructor id => exact id.ofJson?_gives.map Entity.constructor
  | parameter index type =>
    have hfields : (toJson.content (.parameter index type)).fields? ["index", "class"] =
        some [some (.nat index), some type.toJson] := rfl
    rw [kind, ofContent?, hfields]
    refine ((Json.natBelow?_gives UInt32.size index).bind
      (type.ofJson?_gives.bind (.pure (Entity.parameter index type)))).congr ?_
    rw [and_true, Fits]

theorem EntityName.ofJson?_gives (name : EntityName) : Gives (ofJson? name.toJson) True name := by
  have hfields : name.toJson.fields? ["class", "member"] =
      some [some (.str name.cls), name.member.map .str] := by
    obtain ⟨cls, member⟩ := name
    cases member <;> rfl
  have hmember := Json.nullable?_gives Json.string?_gives (fun _ h => nomatch h) name.member
  unfold ofJson?
  rw [hfields, Option.bind_eq_bind, Option.bind_some]
  refine Gives.congr (Gives.bind (Json.string?_gives name.cls) (hmember.bind (.pure name))) ?_
  simp

/-! ## Results -/

/-- A report with slot and handles of 32 bits and a sweep of 64. -/
structure Report.Fits (report : Report) : Prop where
  slot : report.slot < UInt32.size
  sweep : ∀ sweep ∈ report.sweep, sweep < UInt64.size
  values : ∀ value ∈ report.values, value.Fits

/-- A failure with a slot of 32 bits. -/
def Failure.Fits (failure : Failure) : Prop := failure.slot < UInt32.size

/-- A result with slots and handles of 32 bits and sweeps of 64. -/
structure MatchResult.Fits (result : MatchResult) : Prop where
  sweeps : result.sweeps < UInt64.size
  reports : ∀ report ∈ result.reports, report.Fits
  failures : ∀ failure ∈ result.failures, failure.Fits

instance (report : Report) : Decidable report.Fits :=
  decidable_of_iff (report.slot < UInt32.size ∧ (∀ sweep ∈ report.sweep, sweep < UInt64.size) ∧
      ∀ value ∈ report.values, value.Fits)
    ⟨fun ⟨slot, sweep, values⟩ => ⟨slot, sweep, values⟩, fun h => ⟨h.slot, h.sweep, h.values⟩⟩

instance (failure : Failure) : Decidable failure.Fits := inferInstanceAs (Decidable (_ < _))

instance (result : MatchResult) : Decidable result.Fits :=
  decidable_of_iff (result.sweeps < UInt64.size ∧ (∀ report ∈ result.reports, report.Fits) ∧
      ∀ failure ∈ result.failures, failure.Fits)
    ⟨fun ⟨sweeps, reports, failures⟩ => ⟨sweeps, reports, failures⟩,
      fun h => ⟨h.sweeps, h.reports, h.failures⟩⟩

theorem Report.ofJson?_gives (report : Report) :
    Gives (ofJson? report.toJson) report.Fits report := by
  have hfields : report.toJson.fields?
      ["slot", "kind", "key", "outcome", "sweep", "values", "names"] =
      some [some (.nat report.slot), some report.kind.toJson, report.key.map .str,
        some report.outcome.toJson, report.sweep.map .nat,
        some (.list (report.values.map Entity.toJson)),
        if report.names.isEmpty then none
        else some (.list (report.names.map EntityName.toJson))] := by
    obtain ⟨slot, kind, key, outcome, sweep, values, names⟩ := report
    cases key <;> cases sweep <;> cases names <;> rfl
  have hkind := Json.label?_gives Kind.ofLabel?_label report.kind
  have hkey := Json.nullable?_gives Json.string?_gives (fun _ h => nomatch h) report.key
  have houtcome := Json.label?_gives Outcome.ofLabel?_label report.outcome
  have hsweep := Json.nullable?_gives (Json.natBelow?_gives UInt64.size) (fun _ h => nomatch h)
    report.sweep
  have hvalues := Json.list?_gives Entity.ofJson?_gives report.values
  have hnames := Json.defaulted_gives EntityName.ofJson?_gives report.names
  unfold ofJson?
  rw [hfields, Option.bind_eq_bind, Option.bind_some]
  refine Gives.congr (Gives.bind (Json.natBelow?_gives UInt32.size report.slot)
    (hkind.bind (hkey.bind (houtcome.bind (hsweep.bind
      (hvalues.bind (hnames.bind (.pure report)))))))) ?_
  constructor
  · rintro ⟨hslot, -, -, -, hsweep, hvalues, -⟩
    exact ⟨hslot, hsweep, hvalues⟩
  · rintro ⟨hslot, hsweep, hvalues⟩
    simpa [hslot] using ⟨hsweep, hvalues⟩

theorem Failure.ofJson?_gives (failure : Failure) :
    Gives (ofJson? failure.toJson) failure.Fits failure := by
  have hfields : failure.toJson.fields? ["slot", "message", "decision"] =
      some [some (.nat failure.slot), some (.str failure.message),
        some failure.decision.toJson] := rfl
  have hdecision := Json.label?_gives Decision.ofLabel?_label failure.decision
  unfold ofJson?
  rw [hfields, Option.bind_eq_bind, Option.bind_some]
  refine Gives.congr (Gives.bind (Json.natBelow?_gives UInt32.size failure.slot)
    (Gives.bind (Json.string?_gives failure.message) (hdecision.bind (.pure failure)))) ?_
  simp [Fits]

theorem MatchResult.ofJson?_gives (result : MatchResult) :
    Gives (ofJson? result.toJson) result.Fits result := by
  have hfields : result.toJson.fields? ["sweeps", "matchers", "failures"] =
      some [some (.nat result.sweeps), some (.list (result.reports.map Report.toJson)),
        some (.list (result.failures.map Failure.toJson))] := rfl
  have hreports := Json.list?_gives Report.ofJson?_gives result.reports
  have hfailures := Json.list?_gives Failure.ofJson?_gives result.failures
  have hparts :
      Gives (some (ofParts result.sweeps result.reports result.failures)) True result := by
    rw [ofParts_eq]
    exact .pure result
  unfold ofJson?
  rw [hfields, Option.bind_eq_bind, Option.bind_some]
  refine Gives.congr (Gives.bind (Json.natBelow?_gives UInt64.size result.sweeps)
    (hreports.bind (hfailures.bind hparts))) ?_
  constructor
  · rintro ⟨hsweeps, hreports, hfailures, -⟩
    exact ⟨hsweeps, hreports, hfailures⟩
  · rintro ⟨hsweeps, hreports, hfailures⟩
    exact ⟨hsweeps, hreports, hfailures, trivial⟩

/-! ## Texts -/

theorem Entity.toJson_standard (entity : Entity) : entity.toJson.Standard := by
  have hcontent : (toJson.content entity).Standard := by
    cases entity with
    | cls id => exact .nat id.index
    | field id | method id | constructor id =>
      exact .record (by simp [ClassId.toJson, Json.Standard.nat])
    | parameter index type => exact .record (by simp [ClassId.toJson, Json.Standard.nat])
  exact .record (by simpa using hcontent)

theorem EntityName.toJson_standard (name : EntityName) : name.toJson.Standard := by
  obtain ⟨cls, member⟩ := name
  refine .record ?_
  cases member <;> simp [Json.Standard.str]

theorem Report.toJson_standard (report : Report) : report.toJson.Standard := by
  obtain ⟨slot, kind, key, outcome, sweep, values, names⟩ := report
  have hvalues : (Json.list (values.map Entity.toJson)).Standard :=
    .list (by simpa using fun value _ => value.toJson_standard)
  have hnames : (Json.list (names.map EntityName.toJson)).Standard :=
    .list (by simpa using fun name _ => name.toJson_standard)
  have hkind : kind.toJson.Standard := .str kind.label
  have houtcome : outcome.toJson.Standard := .str outcome.label
  refine .record ?_
  cases names with
  | nil => cases key <;> cases sweep <;> simp [Json.Standard.nat, Json.Standard.str, *]
  | cons name rest =>
    rw [List.map_cons] at hnames
    cases key <;> cases sweep <;> simp [Json.Standard.nat, Json.Standard.str, *]

theorem Failure.toJson_standard (failure : Failure) : failure.toJson.Standard :=
  .record (by simp [Decision.toJson, Json.Standard.nat, Json.Standard.str])

theorem MatchResult.toJson_standard (result : MatchResult) : result.toJson.Standard := by
  have hreports : (Json.list (result.reports.map Report.toJson)).Standard :=
    .list (by simpa using fun report _ => report.toJson_standard)
  have hfailures : (Json.list (result.failures.map Failure.toJson)).Standard :=
    .list (by simpa using fun failure _ => failure.toJson_standard)
  exact .record (by simp [Json.Standard.nat, hreports, hfailures])

/-- **A result that is saved reads back as it was** if its numbers keep to 32 and 64 bits, and else
not at all. -/
theorem MatchResult.load?_save (result : MatchResult) :
    Gives (load? result.save) result.Fits result := by
  unfold load? save
  rw [Json.parse?_pretty result.toJson_standard]
  exact result.ofJson?_gives

/-! ## What reads back at all -/

namespace Json

variable {α : Type} {value? : Json → Option α} {P : α → Prop}

/-- Whatever a reader comes to meets a condition. -/
def Accepts (value? : Json → Option α) (P : α → Prop) : Prop :=
  ∀ value a, value? value = some a → P a

theorem natBelow?_accepts (bound : Nat) : Accepts (natBelow? bound) (· < bound) := by
  intro value n h
  cases value with
  | nat m =>
    rw [natBelow?, Option.ite_none_right_eq_some] at h
    obtain ⟨hlt, hm⟩ := h
    exact Option.some.inj hm ▸ hlt
  | null | bool | numeral | text | list | object => cases h

theorem list?_accepts (h : Accepts value? P) :
    Accepts (list? value?) fun items => ∀ a ∈ items, P a := by
  intro value items hitems
  cases value with
  | list values =>
    rw [list?] at hitems
    induction values generalizing items with
    | nil =>
      cases hitems
      exact List.forall_mem_nil _
    | cons value rest ih =>
      simp only [List.mapM_cons, Option.bind_eq_bind, Option.bind_eq_some_iff] at hitems
      obtain ⟨a, ha, others, hothers, heq⟩ := hitems
      cases heq
      exact List.forall_mem_cons.2 ⟨h value a ha, ih others hothers⟩
  | null | bool | nat | numeral | text | object => cases hitems

theorem nullable?_accepts (h : Accepts value? P) :
    Accepts (nullable? value?) fun a => ∀ a' ∈ a, P a' := by
  intro value a ha
  unfold nullable? at ha
  split at ha
  · cases ha
    exact fun _ h => nomatch h
  · obtain ⟨b, hb, rfl⟩ := Option.map_eq_some_iff.1 ha
    intro a' ha'
    exact Option.mem_some_iff.1 ha' ▸ h _ b hb

theorem Accepts.required (h : Accepts value? P) {field : Option Json} {a : α}
    (ha : required value? field = some a) : P a := by
  obtain ⟨value, -, hvalue⟩ := Option.bind_eq_some_iff.1 ha
  exact h value a hvalue

theorem Accepts.defaulted (h : Accepts value? P) {default : α} (hdefault : P default)
    {field : Option Json} {a : α} (ha : defaulted default value? field = some a) : P a := by
  cases field with
  | none => exact Option.some.inj ha ▸ hdefault
  | some value => exact h value a ha

end Json

theorem ClassId.ofJson?_accepts : Json.Accepts ofJson? Fits := by
  intro value id h
  obtain ⟨index, hindex, rfl⟩ := Option.map_eq_some_iff.1 h
  exact Json.natBelow?_accepts _ _ _ hindex

theorem MemberId.ofJson?_accepts : Json.Accepts ofJson? Fits := by
  intro value id h
  unfold ofJson? at h
  simp only [Option.bind_eq_bind, Option.bind_eq_some_iff] at h
  obtain ⟨fields, -, h⟩ := h
  split at h
  · simp only [Option.bind_eq_some_iff] at h
    obtain ⟨owner, howner, index, hindex, heq⟩ := h
    cases heq
    exact ⟨ClassId.ofJson?_accepts.required howner,
      (Json.natBelow?_accepts UInt32.size).required hindex⟩
  · cases h

theorem Entity.ofContent?_accepts (kind : Kind) : Json.Accepts (ofContent? kind) Fits := by
  intro value entity h
  cases kind with
  | cls =>
    obtain ⟨id, hid, rfl⟩ := Option.map_eq_some_iff.1 h
    exact ClassId.ofJson?_accepts _ _ hid
  | field | method | constructor =>
    obtain ⟨id, hid, rfl⟩ := Option.map_eq_some_iff.1 h
    exact MemberId.ofJson?_accepts _ _ hid
  | text => cases h
  | parameter =>
    simp only [ofContent?, Option.bind_eq_bind, Option.bind_eq_some_iff] at h
    obtain ⟨fields, -, h⟩ := h
    split at h
    · simp only [Option.bind_eq_some_iff] at h
      obtain ⟨index, hindex, type, htype, heq⟩ := h
      cases heq
      exact ⟨(Json.natBelow?_accepts UInt32.size).required hindex,
        ClassId.ofJson?_accepts.required htype⟩
    · cases h

theorem Entity.ofJson?_accepts : Json.Accepts ofJson? Fits := by
  intro value entity h
  unfold ofJson? at h
  simp only [Option.bind_eq_bind, Option.bind_eq_some_iff] at h
  obtain ⟨variant, -, h⟩ := h
  split at h
  · obtain ⟨kind, -, h⟩ := Option.bind_eq_some_iff.1 h
    exact ofContent?_accepts kind _ _ h
  · cases h

theorem Report.ofJson?_accepts : Json.Accepts ofJson? Fits := by
  intro value report h
  unfold ofJson? at h
  simp only [Option.bind_eq_bind, Option.bind_eq_some_iff] at h
  obtain ⟨fields, -, h⟩ := h
  split at h
  · simp only [Option.bind_eq_some_iff] at h
    obtain ⟨slot, hslot, kind, -, key, -, outcome, -, sweep, hsweep, values, hvalues, names, -,
      heq⟩ := h
    cases heq
    exact ⟨(Json.natBelow?_accepts UInt32.size).required hslot,
      (Json.nullable?_accepts (Json.natBelow?_accepts UInt64.size)).defaulted
        (by simp) hsweep,
      (Json.list?_accepts Entity.ofJson?_accepts).defaulted (List.forall_mem_nil _) hvalues⟩
  · cases h

theorem Failure.ofJson?_accepts : Json.Accepts ofJson? Fits := by
  intro value failure h
  unfold ofJson? at h
  simp only [Option.bind_eq_bind, Option.bind_eq_some_iff] at h
  obtain ⟨fields, -, h⟩ := h
  split at h
  · simp only [Option.bind_eq_some_iff] at h
    obtain ⟨slot, hslot, message, -, decision, -, heq⟩ := h
    cases heq
    exact (Json.natBelow?_accepts UInt32.size).required hslot
  · cases h

theorem MatchResult.ofJson?_accepts : Json.Accepts ofJson? Fits := by
  intro value result h
  unfold ofJson? at h
  simp only [Option.bind_eq_bind, Option.bind_eq_some_iff] at h
  obtain ⟨fields, -, h⟩ := h
  split at h
  · simp only [Option.bind_eq_some_iff] at h
    obtain ⟨sweeps, hsweeps, reports, hreports, failures, hfailures, heq⟩ := h
    cases heq
    exact ⟨(Json.natBelow?_accepts UInt64.size).required hsweeps,
      (Json.list?_accepts Report.ofJson?_accepts).required hreports,
      (Json.list?_accepts Failure.ofJson?_accepts).defaulted (List.forall_mem_nil _) hfailures⟩
  · cases h

/-- **Every result that reads from a text keeps to 32 and 64 bits**, however it is written there. -/
theorem MatchResult.fits_of_load? {text : String} {result : MatchResult}
    (h : load? text = some result) : result.Fits := by
  obtain ⟨value, -, hvalue⟩ := Option.bind_eq_some_iff.1 h
  exact ofJson?_accepts value result hvalue

end Metamatch
