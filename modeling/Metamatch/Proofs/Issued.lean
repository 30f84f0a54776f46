import Metamatch.Graph.Issued
import Metamatch.Proofs.Run.Completion

/-!
# Construction with issued handles

References can be set only as long as a matcher is open, and only to matchers that are frozen. So
every matcher depends on matchers that were frozen before it, and none on itself.

* `Graph.Layered`: what handles and references say of a graph.
* `Graph.Layered.open_constrain`, `Graph.Layered.finalize`, `Graph.Layered.insert`: what keeps it.
* `ClientCall.respond_layered`: one call.
* `acyclic_of_issued`: no matcher depends on itself, and no run leaves one unresolved.
-/

namespace Metamatch

variable {g g' : Graph} {slot m d s : Slot} {issued : List Handle}

/-! ## The order of freezing -/

/-- Removing the references of a matcher that nothing refers to, or giving it others, keeps chains
of references finite. -/
theorem wellFounded_update {refs refs' : Slot → List Slot} (hwf : WellFounded fun d m => d ∈ refs m)
    (hother : ∀ k ≠ m, refs' k = refs k) (hnone : ∀ k, m ∉ refs' k) :
    WellFounded fun d m => d ∈ refs' m := by
  have hacc : ∀ k ≠ m, Acc (fun d m => d ∈ refs' m) k := by
    intro k
    induction k using hwf.induction with
    | _ k ih =>
      intro hk
      refine .intro k fun d hd => ih d (hother k hk ▸ hd) ?_
      rintro rfl
      exact hnone k hd
  refine ⟨fun k => .intro k fun d hd => hacc d ?_⟩
  rintro rfl
  exact hnone k hd

namespace Graph

/-- The matcher is there and frozen. -/
def Frozen (g : Graph) (s : Slot) : Prop := (g.get? s).map (·.finalized) = some true

/-- Handles refer to matchers that are there, and those of values to frozen ones. References lead
to frozen matchers only, and every chain of them comes to an end. -/
structure Layered (issued : List Handle) (g : Graph) : Prop where
  inRange : ∀ handle ∈ issued, handle.slot < g.size
  frozen : ∀ handle ∈ issued, handle.form ≠ .matcher → g.Frozen handle.slot
  references : ∀ m, ∀ d ∈ g.references m, g.Frozen d
  wellFounded : WellFounded fun d m => d ∈ g.references m

theorem frozen_modify {f : Node → Node} (hf : ∀ node, (f node).finalized = node.finalized) :
    (g.modify d f).Frozen s ↔ g.Frozen s := by
  rw [Frozen, get?_modify, Option.map_map, Frozen]
  refine iff_of_eq (congrArg (· = some true) (congrArg (Option.map · (g.get? s)) ?_))
  funext node
  by_cases hd : d = s
  · rw [Function.comp_apply, if_pos hd, hf]
  · rw [Function.comp_apply, if_neg hd]

theorem frozen_subscribe : (g.subscribe m d).Frozen s ↔ g.Frozen s := by
  rw [subscribe, frozen_modify, frozen_modify] <;> exact fun _ => rfl

theorem frozen_unsubscribe : (g.unsubscribe m d).Frozen s ↔ g.Frozen s := by
  rw [Frozen, map_get?_unsubscribe fun _ _ _ _ => rfl, Frozen]

namespace Layered

theorem congr (h : g.Layered issued) (hsize : g'.size = g.size)
    (hfrozen : ∀ s, g'.Frozen s ↔ g.Frozen s) (hrefs : g'.references = g.references) :
    g'.Layered issued where
  inRange handle hh := hsize ▸ h.inRange handle hh
  frozen handle hh hform := (hfrozen _).2 (h.frozen handle hh hform)
  references m d hd := (hfrozen d).2 (h.references m d (hrefs ▸ hd))
  wellFounded := hrefs ▸ h.wellFounded

theorem subscribe (h : g.Layered issued) (m d : Slot) : (g.subscribe m d).Layered issued :=
  h.congr size_subscribe (fun _ => frozen_subscribe) references_subscribe

theorem unsubscribe (h : g.Layered issued) (m d : Slot) : (g.unsubscribe m d).Layered issued :=
  h.congr size_unsubscribe (fun _ => frozen_unsubscribe) references_unsubscribe

theorem modify (h : g.Layered issued) {f : Node → Node}
    (hf : ∀ node, (f node).finalized = node.finalized)
    (hr : ∀ node, (f node).constraints.references = node.constraints.references) :
    (g.modify slot f).Layered issued :=
  h.congr (size_modify f) (fun _ => frozen_modify hf) (references_modify hr)

/-- **An open matcher may refer to frozen ones**: nothing refers to it yet. -/
theorem open_constrain (h : g.Layered issued) (hopen : ¬ g.Frozen slot)
    {f : Constraints → Constraints}
    (hf : ∀ c, ∀ d ∈ (f c).references, d ∈ c.references ∨ g.Frozen d) :
    (g.modify slot fun node => { node with constraints := f node.constraints }).Layered issued := by
  set g₁ := g.modify slot fun node => { node with constraints := f node.constraints } with hg₁
  have hfrozen : ∀ s, g₁.Frozen s ↔ g.Frozen s := fun s => frozen_modify fun _ => rfl
  have hother : ∀ m ≠ slot, g₁.references m = g.references m := by
    intro m hm
    rw [Graph.references, hg₁, get?_modify, Graph.references]
    cases g.get? m <;> simp [Ne.symm hm]
  have hrefs : ∀ m, ∀ d ∈ g₁.references m, g.Frozen d := by
    intro m d hd
    by_cases hm : m = slot
    · subst hm
      rw [Graph.references, hg₁, get?_modify] at hd
      cases hnode : g.get? m with
      | none => simp [hnode] at hd
      | some node =>
        rw [hnode, Option.map_some, if_pos rfl, Option.elim_some] at hd
        rcases hf _ d hd with hold | hnew
        · exact h.references m d (references_of_get? hnode ▸ hold)
        · exact hnew
    · exact h.references m d (hother m hm ▸ hd)
  refine ⟨fun handle hh => ?_, fun handle hh hform => (hfrozen _).2 (h.frozen handle hh hform),
    fun m d hd => (hfrozen d).2 (hrefs m d hd), ?_⟩
  · rw [hg₁, size_modify]
    exact h.inRange handle hh
  · exact wellFounded_update h.wellFounded hother fun k hk => hopen (hrefs k slot hk)

theorem finalize (h : g.Layered issued) (slot : Slot) :
    (g.modify slot ({ · with finalized := true })).Layered issued := by
  have hfrozen : ∀ s, g.Frozen s → (g.modify slot ({ · with finalized := true })).Frozen s := by
    intro s hs
    rw [Frozen] at hs
    obtain ⟨node, hnode, hfin⟩ := Option.map_eq_some_iff.1 hs
    rw [Frozen, get?_modify, hnode, Option.map_some, Option.map_some]
    split_ifs
    · rfl
    · rw [hfin]
  have hrefs : (g.modify slot ({ · with finalized := true })).references = g.references :=
    references_modify fun _ => rfl
  refine ⟨fun handle hh => ?_, fun handle hh hform => hfrozen _ (h.frozen handle hh hform),
    fun m d hd => hfrozen d (h.references m d (hrefs ▸ hd)), hrefs ▸ h.wellFounded⟩
  rw [size_modify]
  exact h.inRange handle hh

theorem insert (h : g.Layered issued) (kind : Kind) : (g.insert kind).Layered issued := by
  have hnone : g.get? g.size = none := get?_eq_none (Nat.le_refl _)
  have hfrozen : ∀ s, g.Frozen s → (g.insert kind).Frozen s := by
    intro s hs
    rw [Frozen, get?_insert]
    split_ifs with heq
    · rw [Frozen, heq, hnone] at hs
      cases hs
    · exact hs
  have hrefs : (g.insert kind).references = g.references := by
    funext s
    rw [Graph.references, get?_insert, Graph.references]
    split_ifs with heq
    · rw [heq, hnone]
      rfl
    · rfl
  refine ⟨fun handle hh => ?_, fun handle hh hform => hfrozen _ (h.frozen handle hh hform),
    fun m d hd => hfrozen d (h.references m d (hrefs ▸ hd)), hrefs ▸ h.wellFounded⟩
  rw [size_insert]
  exact Nat.lt_succ_of_lt (h.inRange handle hh)

theorem issue (h : g.Layered issued) {handle : Handle} (hsize : handle.slot < g.size)
    (hfrozen : handle.form ≠ .matcher → g.Frozen handle.slot) :
    g.Layered ([handle] ++ issued) where
  inRange := List.forall_mem_cons.2 ⟨hsize, h.inRange⟩
  frozen := List.forall_mem_cons.2 ⟨hfrozen, h.frozen⟩
  references := h.references
  wellFounded := h.wellFounded

end Layered

end Graph

/-! ## Handles and the slots behind them -/

theorem SetTest.exists_handle {test : SetTest} (h : s ∈ test.slots) :
    ∃ handle ∈ test.handles, handle.slot = s ∧ handle.form ≠ .matcher := by
  have hleaf : s ∈ test.leaves := SetTest.mem_slots.1 h
  clear h
  induction test with
  | member operand | nonMember operand =>
    exact ⟨_, List.mem_cons_self, (List.mem_singleton.1 hleaf).symm, by simp⟩
  | allOf slot | anyOf slot =>
    exact ⟨_, List.mem_cons_self, (List.mem_singleton.1 hleaf).symm, by simp⟩
  | and left right ihl ihr | or left right ihl ihr =>
    rcases List.mem_append.1 hleaf with hl | hr
    · obtain ⟨handle, hh, hs⟩ := ihl hl
      exact ⟨handle, List.mem_append_left _ hh, hs⟩
    · obtain ⟨handle, hh, hs⟩ := ihr hr
      exact ⟨handle, List.mem_append_right _ hh, hs⟩
  | not inner ih => exact ih hleaf

theorem Setting.exists_handle {setting : Setting} (h : s ∈ setting.slots) :
    ∃ handle ∈ setting.handles, handle.slot = s ∧ handle.form ≠ .matcher := by
  cases setting with
  | superclass cls | declaringClass cls | valueType cls =>
    exact ⟨_, List.mem_cons_self, (List.mem_singleton.1 h).symm, by simp⟩
  | interfaces test | parameterTypes test => exact test.exists_handle h
  | matchFirst | key | require | packagePrivate | name | parameterCount => cases h

namespace Graph.Layered

theorem frozen_of_setting (h : g.Layered issued) {setting : Setting}
    (hsetting : setting.handles ⊆ issued) (hd : d ∈ setting.slots) : g.Frozen d := by
  obtain ⟨handle, hh, rfl, hform⟩ := setting.exists_handle hd
  exact h.frozen handle (hsetting hh) hform

theorem settingsInRange (h : g.Layered issued) {settings : List Setting}
    (hs : ClientCall.SettingsIssued issued settings) :
    ClientCall.SettingsInRange g.size settings := by
  intro setting hsetting d hd
  obtain ⟨handle, hh, rfl, -⟩ := setting.exists_handle hd
  exact h.inRange handle (hs setting hsetting hh)

theorem call_inRange (h : g.Layered issued) {call : ClientCall} (hc : call.Entitled issued) :
    call.InRange g.size := by
  have hmore : ∀ {settings}, ClientCall.SettingsInRange g.size settings →
      ClientCall.SettingsInRange (g.size + 1) settings :=
    fun hs setting hsetting d hd => Nat.lt_succ_of_lt (hs setting hsetting d hd)
  cases call with
  | matcher kind => exact hc
  | edit slot settings =>
    obtain ⟨⟨handle, hh, -, rfl⟩, hs⟩ := hc
    exact ⟨h.inRange handle hh, h.settingsInRange hs⟩
  | build slot | buildFirst slot =>
    obtain ⟨handle, hh, -, rfl⟩ := hc
    exact h.inRange handle hh
  | all kind settings | first kind settings => exact ⟨hc.1, hmore (h.settingsInRange hc.2)⟩
  | exactClass name => trivial
  | setKey slot key | observe slot trigger number =>
    obtain ⟨handle, hh, rfl⟩ := hc
    exact h.inRange handle hh

end Graph.Layered

/-! ## Edits -/

namespace Edit

/-- A graph of which a matcher is still open. -/
structure Open (issued : List Handle) (slot : Slot) (g : Graph) : Prop where
  layered : g.Layered issued
  inRange : slot < g.size
  notFrozen : ¬ g.Frozen slot

namespace Open

theorem modify {f : Node → Node} (h : Open issued slot g)
    (hf : ∀ node, (f node).finalized = node.finalized)
    (hr : ∀ node, (f node).constraints.references = node.constraints.references) :
    Open issued slot (g.modify slot f) where
  layered := h.layered.modify hf hr
  inRange := Graph.size_modify (g := g) f ▸ h.inRange
  notFrozen := (Graph.frozen_modify hf).not.2 h.notFrozen

theorem subscribe (h : Open issued slot g) (m d : Slot) : Open issued slot (g.subscribe m d) where
  layered := h.layered.subscribe m d
  inRange := lt_of_lt_of_eq h.inRange Graph.size_subscribe.symm
  notFrozen := Graph.frozen_subscribe.not.2 h.notFrozen

theorem unsubscribe (h : Open issued slot g) (m d : Slot) :
    Open issued slot (g.unsubscribe m d) where
  layered := h.layered.unsubscribe m d
  inRange := lt_of_lt_of_eq h.inRange Graph.size_unsubscribe.symm
  notFrozen := Graph.frozen_unsubscribe.not.2 h.notFrozen

theorem constrain (h : Open issued slot g) {f : Constraints → Constraints}
    (hf : ∀ c, ∀ d ∈ (f c).references, d ∈ c.references ∨ g.Frozen d) :
    Open issued slot
      (g.modify slot fun node => { node with constraints := f node.constraints }) where
  layered := h.layered.open_constrain h.notFrozen hf
  inRange := lt_of_lt_of_eq h.inRange (Graph.size_modify _).symm
  notFrozen := by
    rw [Graph.frozen_modify fun _ => by rfl]
    exact h.notFrozen

end Open

theorem set_open {setting : Setting} (hs : setting.handles ⊆ issued) :
    Keeps (Open issued slot) (set slot setting) := by
  have hfrozen : ∀ g, Open issued slot g → ∀ d ∈ setting.slots, g.Frozen d :=
    fun g hg d hd => hg.layered.frozen_of_setting hs hd
  have hreplace : ∀ (f : Constraints → Constraints) (old new : List Slot),
      (∀ c, ∀ d ∈ (f c).references, d ∈ c.references ∨ d ∈ setting.slots) →
      Keeps (Open issued slot) (replace slot f old new) := by
    intro f old new hf
    refine (update_keeps fun g hg => hg.constrain fun c d hd => ?_).bind fun _ =>
      relink_keeps (fun g d hg => hg.unsubscribe slot d) fun g d hg => hg.subscribe slot d
    exact (hf c d hd).imp_right (hfrozen g hg d)
  refine (node_keeps slot).bind fun node => ?_
  cases setting <;> dsimp only
  case superclass | declaringClass | valueType | interfaces | parameterTypes =>
    refine hreplace _ _ _ fun c d hd => ?_
    simp only [Constraints.references, Constraints.singleSlots, Constraints.testSlots,
      SetTest.slotsOf, Option.toList_some, Option.elim_some, List.mem_append,
      List.mem_singleton, Setting.slots] at hd ⊢
    tauto
  case key key => exact update_keeps fun g hg => hg.modify (fun _ => rfl) fun _ => rfl
  all_goals exact update_keeps fun g hg => hg.modify (fun _ => rfl) fun _ => rfl

theorem sets_open {settings : List Setting} (hs : ClientCall.SettingsIssued issued settings) :
    Keeps (Open issued slot) (settings.forM (set slot)) :=
  Leads.forM fun setting hsetting => set_open (hs setting hsetting)

theorem editable_open {slot : Slot} : Leads (fun g => g.Layered issued ∧ slot < g.size)
    (editable slot) (fun _ => Open issued slot) fun _ => (·.Layered issued) := by
  intro g ⟨hg, hslot⟩
  obtain ⟨node, hnode⟩ := Graph.lt_size_iff.1 hslot
  rw [editable_apply hnode]
  split_ifs with hfin
  · exact hg
  · refine ⟨hg, hslot, ?_⟩
    rw [Graph.Frozen, hnode, Option.map_some]
    simpa using hfin

theorem matcher_open (kind : Kind) : Leads (·.Layered issued) (matcher kind) (Open issued)
    fun _ => (·.Layered issued) := by
  intro g hg
  refine ⟨hg.insert kind, ?_, ?_⟩
  · rw [Graph.size_insert]
    exact Nat.lt_succ_self g.size
  · rw [Graph.Frozen, Graph.get?_insert, if_pos rfl]
    exact Bool.false_ne_true ∘ Option.some.inj

/-- Handles of a matcher may be given out. -/
def Issuable (issued : List Handle) (slot : Slot) (g : Graph) : Prop :=
  ∀ form kind, g.Layered ([⟨form, kind, slot⟩] ++ issued)

theorem finalize_issue : Leads (Open issued slot) (update slot ({ · with finalized := true }))
    (fun _ => Issuable issued slot)
    fun _ => (·.Layered issued) := by
  intro g hg
  rw [update_apply _ hg.inRange]
  intro form kind
  refine (hg.layered.finalize slot).issue ?_ fun _ => ?_
  · exact lt_of_lt_of_eq hg.inRange (Graph.size_modify _).symm
  · obtain ⟨node, hnode⟩ := Graph.lt_size_iff.1 hg.inRange
    rw [Graph.Frozen, Graph.get?_modify, hnode]
    simp

theorem open_leads {α : Type} {edit : Edit α} (h : Keeps (Open issued slot) edit) :
    Leads (Open issued slot) edit (fun _ => Open issued slot) fun _ => (·.Layered issued) :=
  h.weaken (fun _ hg => hg) (fun _ _ hg => hg) fun _ _ hg => hg.layered

theorem matchFirst_open :
    Keeps (Open issued slot) (constrain slot ({ · with matchFirst := true })) :=
  update_keeps fun _ hg => hg.modify (fun _ => rfl) fun _ => rfl

theorem build_issue : Leads (fun g => g.Layered issued ∧ slot < g.size) (build slot)
    (fun _ => Issuable issued slot)
    fun _ => (·.Layered issued) :=
  Leads.bind (Leads.ignore editable_open) fun _ => finalize_issue

theorem buildFirst_issue : Leads (fun g => g.Layered issued ∧ slot < g.size) (buildFirst slot)
    (fun _ => Issuable issued slot)
    fun _ => (·.Layered issued) := by
  refine Leads.bind (Leads.ignore editable_open) fun _ => ?_
  refine Leads.bind (open_leads matchFirst_open) fun _ => ?_
  exact build_issue.weaken (fun _ hg => ⟨hg.layered, hg.inRange⟩) (fun _ _ hg => hg)
    fun _ _ hg => hg

theorem all_issue {settings : List Setting} (kind : Kind)
    (hs : ClientCall.SettingsIssued issued settings) :
    Leads (·.Layered issued) (all kind settings)
      (Issuable issued) fun _ => (·.Layered issued) := by
  refine (matcher_open kind).bind fun slot => ?_
  refine Leads.bind (open_leads (sets_open hs)) fun _ => ?_
  exact finalize_issue.bind fun _ => Leads.pure fun _ hg => hg

theorem first_issue {settings : List Setting} (kind : Kind)
    (hs : ClientCall.SettingsIssued issued settings) :
    Leads (·.Layered issued) (first kind settings)
      (Issuable issued) fun _ => (·.Layered issued) := by
  refine (matcher_open kind).bind fun slot => ?_
  refine Leads.bind (open_leads (sets_open hs)) fun _ => ?_
  refine Leads.bind (open_leads matchFirst_open) fun _ => ?_
  exact finalize_issue.bind fun _ => Leads.pure fun _ hg => hg

end Edit

/-! ## Calls -/

namespace ClientCall

theorem freeze_layered {edit : Edit Unit} (form : HandleForm) (hs : Editable issued slot)
    (h : Leads (fun g => g.Layered issued ∧ slot < g.size) edit
      (fun _ => Edit.Issuable issued slot) fun _ => (·.Layered issued)) :
    Leads (·.Layered issued)
      (Edit.node slot >>= fun node => edit >>= fun _ => pure [⟨form, node.kind, slot⟩])
      (fun handles g => g.Layered (handles ++ issued)) fun _ => (·.Layered issued) := by
  obtain ⟨handle, hh, -, rfl⟩ := hs
  refine (Edit.node_keeps handle.slot).bind fun node => ?_
  refine (h.weaken (fun g hg => ⟨hg, hg.inRange handle hh⟩) (fun _ _ hg => hg)
    fun _ _ hg => hg).bind fun _ => ?_
  exact Leads.pure fun _ hg => hg form node.kind

/-- **A call with handles that were given out keeps the order of freezing**, and so do the handles
that it gives out in turn. -/
theorem respond_layered {call : ClientCall} (hc : call.Entitled issued) :
    Leads (·.Layered issued) call.respond (fun handles g => g.Layered (handles ++ issued))
      fun _ => (·.Layered issued) := by
  cases call with
  | matcher kind =>
    refine (Edit.matcher_open kind).bind fun slot => Leads.pure fun g hg => ?_
    exact hg.layered.issue hg.inRange fun hform => absurd rfl hform
  | edit slot settings =>
    obtain ⟨⟨handle, hh, -, rfl⟩, hs⟩ := hc
    refine Leads.bind ?_ fun _ => Leads.pure fun _ (hg : Graph.Layered issued _) => hg
    intro g hg
    refine (Leads.bind (Leads.ignore Edit.editable_open) fun _ => ?_) g ⟨hg, hg.inRange handle hh⟩
    exact (Edit.sets_open hs).weaken (fun _ hg => hg) (fun _ _ hg => hg.layered)
      fun _ _ hg => hg.layered
  | build slot => exact freeze_layered .sequence hc Edit.build_issue
  | buildFirst slot => exact freeze_layered .single hc Edit.buildFirst_issue
  | all kind settings =>
    exact (Edit.all_issue kind hc.2).bind fun _ => Leads.pure fun _ hg => hg .sequence kind
  | first kind settings =>
    exact (Edit.first_issue kind hc.2).bind fun _ => Leads.pure fun _ hg => hg .single kind
  | exactClass name =>
    refine (Edit.first_issue .cls ?_).bind fun _ => Leads.pure fun _ hg => hg .single .cls
    intro setting hs handle hh
    rw [List.mem_singleton] at hs
    subst hs
    cases hh
  | setKey slot key =>
    refine (Edit.update_keeps fun g hg => ?_).bind fun _ => Leads.pure fun _ hg => hg
    exact hg.modify (fun _ => rfl) fun _ => rfl
  | observe slot trigger number =>
    refine (Edit.update_keeps fun g hg => ?_).bind fun _ => Leads.pure fun _ hg => hg
    exact hg.modify (fun _ => rfl) fun _ => rfl

theorem freeze_after (g : Graph) (slot : Slot) (form : HandleForm) (rest : Edit Unit) :
    ((Edit.node slot >>= fun node => (discard (Edit.editable slot) >>= fun _ => rest) >>= fun _ =>
      pure [⟨form, node.kind, slot⟩] : Edit (List Handle)) g).2 =
    ((discard (Edit.editable slot) >>= fun _ => rest : Edit Unit) g).2 := by
  rw [bind_apply]
  cases hnode : g.get? slot with
  | some node =>
    rw [Edit.node_apply hnode]
    exact congrArg Prod.snd (map_apply _ _ g)
  | none =>
    have h : Edit.node slot g = (.error (.outOfRange slot), g) := by
      rw [Edit.node_eq, hnode]
      rfl
    rw [bind_apply, discard_apply, Edit.editable, bind_apply, h]
    rfl

theorem respond_after (call : ClientCall) (g : Graph) : (call.respond g).2 = call.after g := by
  have hmap : ∀ {α : Type} (edit : Edit α) (f : α → List Handle),
      ((edit >>= fun a => pure (f a)) g).2 = (edit g).2 :=
    fun edit f => congrArg Prod.snd (map_apply edit f g)
  have hdiscard : ∀ {α : Type} (edit : Edit α),
      ((discard edit : Edit Unit) g).2 = (edit g).2 :=
    fun edit => congrArg Prod.snd (discard_apply edit g)
  cases call with
  | matcher kind => rfl
  | edit slot settings => exact hmap _ _
  | build slot => exact freeze_after g slot .sequence _
  | buildFirst slot => exact freeze_after g slot .single _
  | all kind settings => exact (hmap _ _).trans (hdiscard _).symm
  | first kind settings => exact (hmap _ _).trans (hdiscard _).symm
  | exactClass name => exact (hmap _ _).trans (hdiscard _).symm
  | setKey slot key => exact hmap _ _
  | observe slot trigger number => exact hmap _ _

theorem after_layered {call : ClientCall} (hg : g.Layered issued) (hc : call.Entitled issued) :
    (call.after g).Layered (call.given g ++ issued) := by
  have h := call.respond_layered hc g hg
  have hafter := call.respond_after g
  have hgiven : call.given g = (call.respond g).1.toOption.getD [] := rfl
  rw [← hafter, hgiven]
  revert h
  generalize (call.respond g : Except EditError (List Handle) × Graph) = r
  rcases r with ⟨e | handles, g'⟩
  · exact id
  · exact id

/-- Calls with handles that were given out have them in range. -/
theorem AllIssued.layered_built {calls : List ClientCall} (h : AllIssued issued g calls)
    (hg : g.Layered issued) (hbuilt : g.Built) :
    (∃ issued', (g.afterAll calls).Layered issued') ∧ (g.afterAll calls).Built := by
  induction calls generalizing issued g with
  | nil => exact ⟨⟨issued, hg⟩, hbuilt⟩
  | cons call rest ih =>
    exact ih h.2 (after_layered hg h.1) (hbuilt.call call (hg.call_inRange h.1))

end ClientCall

/-- **Issued handles build no deadlock.** If every call on a session uses none but handles that
earlier calls on it gave out, no matcher depends on itself, and no run of the session that returns
leaves a matcher unresolved. -/
theorem acyclic_of_issued {calls : List ClientCall} (h : ClientCall.AllIssued [] {} calls) :
    (∀ m, ¬ Relation.TransGen (fun m d => d ∈ (Graph.afterAll {} calls).references m) m m) ∧
    ∀ (session : Session), session.graph = Graph.afterAll {} calls →
      ∀ (arrange : List Slot → List Slot), (∀ items, (arrange items).Perm items) →
      ∀ (σ : Type) (lists : List (List String)) (host : Host σ) (world : σ) (result : MatchResult),
        (session.execute arrange lists host world).1 = .ok result →
        ∀ m, result.outcome? m ≠ some .unresolved := by
  have hempty : Graph.Layered [] {} :=
    ⟨by simp, by simp, fun m d hd => (by cases hd), ⟨fun m => .intro m fun d hd => (by cases hd)⟩⟩
  obtain ⟨⟨issued, hlayered⟩, hbuilt⟩ := h.layered_built hempty .empty
  have hacyclic : ∀ m,
      ¬ Relation.TransGen (fun m d => d ∈ (Graph.afterAll {} calls).references m) m m :=
    fun m hm => hlayered.wellFounded.transGen.asymmetric m m
      (Relation.transGen_swap.2 hm) (Relation.transGen_swap.2 hm)
  refine ⟨hacyclic, ?_⟩
  intro session hgraph arrange harrange σ lists host world result hresult m hm
  obtain ⟨ground, pub, hfin⟩ := (session.execute_ends (hgraph ▸ hbuilt) harrange lists host
    world).of_ok hresult
  obtain ⟨-, c, -, hc⟩ := hfin.unresolved_iff.1 hm
  -- a run follows no references but those of the graph
  have hrefs : ∀ m d, d ∈ session.dependencies host world m → d ∈ session.graph.references m := by
    intro m d hd
    rw [Session.dependencies] at hd
    split_ifs at hd
    · cases hd
    · exact hd
  exact hacyclic c (hgraph ▸ Relation.TransGen.mono hrefs c c hc)

/-- A matcher is made before the one that it refers to, is edited twice and exchanges references
before it is frozen; edits that come too late are refused. -/
def ClientCall.forward : List ClientCall :=
  [.matcher .method, .exactClass "A", .edit 0 [.declaringClass 1, .valueType 1], .matcher .cls,
    .edit 2 [.superclass 1], .buildFirst 2,
    .edit 0 [.declaringClass 2, .parameterTypes (.member (.parameter 1 0))], .build 0,
    .edit 2 [.superclass 2], .all .field [.valueType 2], .setKey 3 "fields"]

theorem acyclic_of_forward :
    ClientCall.AllIssued [] {} ClientCall.forward ∧
    (∀ m, ¬ Relation.TransGen
      (fun m d => d ∈ (Graph.afterAll {} ClientCall.forward).references m) m m) ∧
    ∃ result, (Sample.run ClientCall.forward).1 = .ok result ∧
      ∀ m, result.outcome? m ≠ some .unresolved := by
  have hissued : ClientCall.AllIssued [] {} ClientCall.forward := by decide +kernel
  have hok : (Sample.run ClientCall.forward).1.toOption.isSome := by decide +kernel
  obtain ⟨hacyclic, hruns⟩ := acyclic_of_issued hissued
  refine ⟨hissued, hacyclic, ?_⟩
  have hgraph : (Sample.session ClientCall.forward).graph =
      Graph.afterAll {} ClientCall.forward := by
    rw [Sample.session]
  have hall := hruns (Sample.session ClientCall.forward) hgraph List.reverse
    (fun items => items.reverse_perm) Nat [["B", "A"]] Sample.host 0
  change ∀ result, (Sample.run ClientCall.forward).1 = .ok result → _ at hall
  generalize (Sample.run ClientCall.forward).1 = outcome at hok hall
  cases outcome with
  | error e => cases hok
  | ok result => exact ⟨result, rfl, hall result rfl⟩

end Metamatch
