import Metamatch.Graph.Built
import Metamatch.Proofs.Computation
import Metamatch.Proofs.Graph.Links
import Metamatch.Proofs.SetTests

/-!
# Construction

Whatever a client does, with handles in range, lists and counters agree with the constraints.

* `ClientCall.sound`: one call keeps the law of construction.
* `Graph.Built.fresh`: every graph that calls build obeys it.
* `subscriptions_of_built`: what the law says of lists and counters.
-/

namespace Metamatch

variable {g : Graph} {slot m d : Slot} {node : Node} {refs : Slot → List Slot}

/-! ## Edits as functions -/

namespace Edit

theorem node_eq (slot : Slot) (g : Graph) :
    Edit.node slot g = ((g.get? slot).elim (.error (.outOfRange slot)) .ok, g) := by
  have hget : (get : Edit Graph) g = (.ok g, g) := rfl
  rw [Edit.node, bind_apply, hget]
  dsimp only
  cases g.get? slot <;> rfl

theorem node_apply (h : g.get? slot = some node) : Edit.node slot g = (.ok node, g) := by
  rw [node_eq, h]
  rfl

theorem discard_node_apply (h : slot < g.size) :
    (discard (Edit.node slot) : Edit PUnit) g = (.ok ⟨⟩, g) := by
  obtain ⟨node, h⟩ := Graph.lt_size_iff.1 h
  rw [discard_apply, node_apply h]
  rfl

theorem update_apply (f : Node → Node) (h : slot < g.size) :
    update slot f g = (.ok (), g.modify slot f) := by
  rw [update, bind_apply, discard_node_apply h]
  rfl

theorem editable_apply (h : g.get? slot = some node) : editable slot g =
    if node.finalized then (.error (.refused (.finalized slot)), g) else (.ok node, g) := by
  rw [editable, bind_apply, node_apply h]
  by_cases hf : node.finalized = true
  · simp only [if_pos hf]
    rfl
  · simp only [if_neg hf]
    rfl

theorem subscribe_apply (h : d < g.size) : subscribe m d g = (.ok (), g.subscribe m d) := by
  rw [subscribe, bind_apply, discard_node_apply h]
  rfl

theorem unsubscribe_apply (h : d < g.size) : unsubscribe m d g = (.ok (), g.unsubscribe m d) := by
  rw [unsubscribe, bind_apply, discard_node_apply h]
  rfl

theorem relink_apply {old new : List Slot} (hold : ∀ d ∈ old, d < g.size)
    (hnew : ∀ d ∈ new, d < g.size) :
    relink m old new g =
      (.ok (), new.foldl (·.subscribe m ·) (old.foldl (·.unsubscribe m ·) g)) := by
  have hunsub : old.forM (unsubscribe m) g = (.ok ⟨⟩, old.foldl (·.unsubscribe m ·) g) :=
    forM_apply (·.size = g.size)
      (fun d hd t ht => ⟨unsubscribe_apply (ht ▸ hold d hd), by rw [Graph.size_unsubscribe, ht]⟩)
      rfl
  rw [relink, bind_apply, hunsub]
  exact forM_apply (·.size = g.size)
    (fun d hd t ht => ⟨subscribe_apply (ht ▸ hnew d hd), by rw [Graph.size_subscribe, ht]⟩)
    (Graph.size_unsubscribeAll old)

/-! ### Conditions kept -/

variable {P : Graph → Prop}

theorem node_keeps (slot : Slot) : Keeps P (Edit.node slot) := by
  intro g hg
  rw [node_eq]
  cases g.get? slot <;> exact hg

theorem update_keeps {f : Node → Node} (h : ∀ g, P g → P (g.modify slot f)) :
    Keeps P (update slot f) :=
  (node_keeps slot).ignore.bind fun _ g hg => h g hg

theorem relink_keeps {old new : List Slot} (hold : ∀ g d, P g → P (g.unsubscribe m d))
    (hnew : ∀ g d, P g → P (g.subscribe m d)) : Keeps P (relink m old new) := by
  refine (Leads.forM fun d _ => ?_).bind fun _ => Leads.forM fun d _ => ?_
  · exact (node_keeps d).ignore.bind fun _ g hg => hold g d hg
  · exact (node_keeps d).ignore.bind fun _ g hg => hnew g d hg

end Edit

/-! ## Constraints -/

theorem Constraints.count_references (c : Constraints) (d : Slot) :
    c.references.count d = c.superclass.toList.count d + c.declaringClass.toList.count d +
      c.valueType.toList.count d + (SetTest.slotsOf c.interfaces).count d +
        (SetTest.slotsOf c.parameterTypes).count d := by
  simp only [references, singleSlots, testSlots, List.count_append]
  omega

namespace Graph

theorem references_constrain (f : Constraints → Constraints) (h : g.get? slot = some node) :
    (g.modify slot fun node => { node with constraints := f node.constraints }).references =
      Function.update g.references slot (f node.constraints).references := by
  funext s
  rw [references, get?_modify]
  by_cases hs : s = slot
  · subst hs
    simp [h]
  · rw [Function.update_of_ne hs, references]
    cases g.get? s <;> simp [Ne.symm hs]

namespace Fresh

theorem constrain (h : g.Fresh refs) (slot : Slot) (f : Constraints → Constraints) :
    (g.modify slot fun node => { node with constraints := f node.constraints }).Fresh refs :=
  h.modify (fun _ _ hn => ⟨hn.kind, hn.counter, hn.missed, hn.published, hn.pending⟩)
    fun _ _ => rfl

theorem replace (h : g.Fresh g.references) (hnode : g.get? slot = some node)
    {f : Constraints → Constraints} {old new : List Slot} (hnew : ∀ d ∈ new, d < g.size)
    (hold : ∀ d, old.count d ≤ node.constraints.references.count d)
    (hcount : ∀ d, (f node.constraints).references.count d + old.count d =
      node.constraints.references.count d + new.count d) :
    ∃ g', Edit.replace slot f old new g = (.ok (), g') ∧ g'.Fresh g'.references ∧
      g'.size = g.size := by
  set g₁ := g.modify slot fun node => { node with constraints := f node.constraints } with hg₁
  have hsize : g₁.size = g.size := size_modify _
  have hrefs : g.references slot = node.constraints.references := references_of_get? hnode
  have hmem : ∀ d ∈ old, d < g₁.size := by
    intro d hd
    have := List.count_pos_iff.2 hd
    rw [hsize]
    exact h.inRange slot d (hrefs ▸ List.count_pos_iff.1 (by have := hold d; omega))
  refine ⟨new.foldl (·.subscribe slot ·) (old.foldl (·.unsubscribe slot ·) g₁), ?_, ?_, ?_⟩
  · rw [Edit.replace, bind_apply, Edit.update_apply _ (lt_size hnode)]
    exact Edit.relink_apply hmem fun d hd => hsize ▸ hnew d hd
  · have hnew' : ∀ d ∈ new, d < (old.foldl (·.unsubscribe slot ·) g₁).size := by
      rw [size_unsubscribeAll, hsize]
      exact hnew
    have hfresh := ((h.constrain slot f).unsubscribeAll old).subscribeAll (m := slot) hnew'
    rw [references_subscribeAll, references_unsubscribeAll, hg₁, references_constrain f hnode]
    refine hfresh.congr fun k => ?_
    by_cases hk : k = slot
    · subst hk
      simp only [Function.update_self]
      refine List.perm_iff_count.2 fun d => ?_
      have := hcount d
      have := hold d
      rw [List.count_append, List.count_reverse, List.count_diff, hrefs]
      omega
    · simp only [Function.update_of_ne hk]
      exact .refl _
  · rw [size_subscribeAll, size_unsubscribeAll, hsize]

end Fresh

end Graph

/-! ## Calls -/

/-- A graph of `n` matchers whose lists and counters agree with the constraints. -/
def Graph.Agrees (n : Nat) (g : Graph) : Prop := g.Fresh g.references ∧ g.size = n

namespace Edit

variable {n : Nat}

/-- An edit after which lists and counters agree with the constraints, even if it is refused. -/
abbrev Sound {α : Type} (n n' : Nat) (edit : Edit α) : Prop :=
  Leads (Graph.Agrees n) edit (fun _ => Graph.Agrees n') (fun _ => Graph.Agrees n')

theorem update_sound {f : Node → Node} (hs : slot < n)
    (hf : ∀ node refs, node.Fresh refs → (f node).Fresh refs)
    (hc : ∀ node m, (f node).subscribers.count (.matcher m) = node.subscribers.count (.matcher m))
    (hr : ∀ node, (f node).constraints.references = node.constraints.references) :
    Sound n n (update slot f) := by
  intro g ⟨hg, hn⟩
  rw [update_apply f (hn ▸ hs)]
  refine ⟨?_, by rw [Graph.size_modify, hn]⟩
  rw [Graph.references_modify hr]
  exact hg.modify hf hc

theorem constrain_sound {f : Constraints → Constraints} (hs : slot < n)
    (hf : ∀ c, (f c).references = c.references) : Sound n n (constrain slot f) :=
  update_sound hs (fun _ _ hn => ⟨hn.kind, hn.counter, hn.missed, hn.published, hn.pending⟩)
    (fun _ _ => rfl) fun node => hf node.constraints

theorem finalize_sound (hs : slot < n) : Sound n n (update slot ({ · with finalized := true })) :=
  update_sound hs (fun _ _ hn => ⟨hn.kind, hn.counter, hn.missed, hn.published, hn.pending⟩)
    (fun _ _ => rfl) fun _ => rfl

theorem setKey_sound (hs : slot < n) (key : String) : Sound n n (setKey slot key) :=
  update_sound hs
    (fun _ _ hn => ⟨hn.kind, hn.counter, hn.missed, hn.published, by simp⟩)
    (fun _ _ => rfl) fun _ => rfl

theorem observe_sound (hs : slot < n) (trigger : Trigger) (number : Nat) :
    Sound n n (observe slot trigger number) :=
  update_sound hs
    (fun _ _ hn => ⟨hn.kind, hn.counter, hn.missed, hn.published, by simp [Node.addSubscriber]⟩)
    (fun _ _ => by simp [Node.addSubscriber]) fun _ => rfl

theorem set_sound {setting : Setting} (hs : slot < n) (hr : ∀ d ∈ setting.slots, d < n) :
    Sound n n (set slot setting) := by
  intro g hg
  obtain ⟨node, hnode⟩ := Graph.lt_size_iff.1 (hg.2 ▸ hs)
  -- the constraints that hold a reference, as one exchange of references
  have hreplace : ∀ (f : Constraints → Constraints) (old new : List Slot), (∀ d ∈ new, d < n) →
      (∀ d, old.count d ≤ node.constraints.references.count d) →
      (∀ d, (f node.constraints).references.count d + old.count d =
        node.constraints.references.count d + new.count d) →
      Ends (fun _ => Graph.Agrees n) (fun _ => Graph.Agrees n) (replace slot f old new g) := by
    intro f old new hnew hold hcount
    obtain ⟨g', h, hg', hsize⟩ := hg.1.replace hnode (fun d hd => hg.2 ▸ hnew d hd) hold hcount
    rw [h]
    exact ⟨hg', hsize.trans hg.2⟩
  rw [set, bind_apply, node_apply hnode]
  cases setting <;> dsimp only
  case key key => exact setKey_sound hs key g hg
  case superclass | declaringClass | valueType =>
    refine hreplace _ _ _ hr (fun d => ?_) fun d => ?_ <;>
      simp only [Constraints.count_references, Option.toList_some] <;> omega
  case interfaces | parameterTypes =>
    refine hreplace _ _ _ hr (fun d => ?_) fun d => ?_ <;>
      simp only [Constraints.count_references, SetTest.slotsOf, Option.elim_some] <;> omega
  all_goals exact constrain_sound hs (by exact fun _ => rfl) g hg

theorem sets_sound {settings : List Setting} (hs : slot < n)
    (hr : ClientCall.SettingsInRange n settings) : Sound n n (settings.forM (set slot)) :=
  Leads.forM fun setting hsetting => set_sound hs (hr setting hsetting)

theorem editable_sound (hs : slot < n) : Sound n n (discard (editable slot)) := by
  intro g hg
  obtain ⟨node, hnode⟩ := Graph.lt_size_iff.1 (hg.2 ▸ hs)
  rw [discard_apply, editable_apply hnode]
  split_ifs <;> exact hg

theorem build_sound (hs : slot < n) : Sound n n (build slot) :=
  (editable_sound hs).bind fun _ => finalize_sound hs

theorem matcher_sound {kind : Kind} (hk : kind ∈ Kind.scheduled) :
    Leads (Graph.Agrees n) (matcher kind) (fun slot g => slot = n ∧ Graph.Agrees (n + 1) g)
      (fun _ => Graph.Agrees (n + 1)) := by
  intro g ⟨hg, hn⟩
  have hrefs : (g.insert kind).references = g.references := by
    funext s
    rw [Graph.references, Graph.get?_insert, Graph.references]
    split_ifs with hs
    · rw [Graph.get?_eq_none (Nat.le_of_eq hs.symm)]
      rfl
    · rfl
  refine ⟨hn, ?_, by rw [Graph.size_insert, hn]⟩
  rw [hrefs]
  exact hg.insert hk (by rw [Graph.references, Graph.get?_eq_none (Nat.le_refl _)]; rfl)

theorem matcher_bind_sound {kind : Kind} {rest : Slot → Edit Slot} (hk : kind ∈ Kind.scheduled)
    (hr : ∀ slot < n + 1, Sound (n + 1) (n + 1) (rest slot)) :
    Sound n (n + 1) (discard (matcher kind >>= rest)) := by
  have h : Sound n (n + 1) (matcher kind >>= rest) :=
    (matcher_sound hk).bind fun slot g hg => hr slot (hg.1 ▸ Nat.lt_succ_self n) g hg.2
  exact h.ignore

theorem all_sound {kind : Kind} {settings : List Setting} (hk : kind ∈ Kind.scheduled)
    (hr : ClientCall.SettingsInRange (n + 1) settings) :
    Sound n (n + 1) (discard (all kind settings)) := by
  refine matcher_bind_sound hk fun slot hs => ?_
  refine (sets_sound hs hr).bind fun _ => ?_
  refine (finalize_sound hs).bind fun _ => ?_
  exact Leads.pure fun _ h => h

theorem first_sound {kind : Kind} {settings : List Setting} (hk : kind ∈ Kind.scheduled)
    (hr : ClientCall.SettingsInRange (n + 1) settings) :
    Sound n (n + 1) (discard (first kind settings)) := by
  refine matcher_bind_sound hk fun slot hs => ?_
  refine (sets_sound hs hr).bind fun _ => ?_
  refine (constrain_sound hs fun _ => ?_).bind fun _ => ?_
  · rfl
  refine (finalize_sound hs).bind fun _ => ?_
  exact Leads.pure fun _ h => h

end Edit

/-- A call with handles in range leaves lists and counters in agreement with the constraints. -/
theorem ClientCall.sound {n : Nat} (call : ClientCall) (hc : call.InRange n) :
    ∃ n', Edit.Sound n n' call.perform := by
  cases call with
  | matcher kind =>
    exact ⟨n + 1, ((Edit.matcher_sound hc).weaken (fun _ h => h) (fun _ _ h => h.2)
      fun _ _ h => h).ignore⟩
  | edit slot settings =>
    exact ⟨n, (Edit.editable_sound hc.1).bind fun _ => Edit.sets_sound hc.1 hc.2⟩
  | build slot => exact ⟨n, Edit.build_sound hc⟩
  | buildFirst slot =>
    refine ⟨n, (Edit.editable_sound hc).bind fun _ => ?_⟩
    refine (Edit.constrain_sound hc fun _ => ?_).bind fun _ => Edit.build_sound hc
    rfl
  | all kind settings => exact ⟨n + 1, Edit.all_sound hc.1 hc.2⟩
  | first kind settings => exact ⟨n + 1, Edit.first_sound hc.1 hc.2⟩
  | exactClass name =>
    exact ⟨n + 1, Edit.first_sound (by decide) fun setting hs slot hslot => by
      rw [List.mem_singleton] at hs
      subst hs
      cases hslot⟩
  | setKey slot key => exact ⟨n, Edit.setKey_sound hc key⟩
  | observe slot trigger number => exact ⟨n, Edit.observe_sound hc trigger number⟩

theorem Graph.Built.fresh (h : g.Built) : g.Fresh g.references := by
  induction h with
  | empty =>
    have hget : ∀ s, (Graph.get? {} s) = none := fun _ => rfl
    refine ⟨fun m s hs => ?_, fun m s => ?_, fun m node hm => ?_⟩
    · simp [Graph.references, hget] at hs
    · simp [Graph.references, Graph.subscriptions, hget]
    · simp [hget] at hm
  | call call _ hc ih =>
    obtain ⟨n', h⟩ := call.sound hc
    exact ((h _ ⟨ih, rfl⟩).state (fun _ _ => id) fun _ _ => id).1

/-! ## Lists and counters -/

theorem SetTest.count_slotsOf (test : Option SetTest) (s : Slot) :
    (slotsOf test).count s = if ∃ t ∈ test, s ∈ t.leaves then 1 else 0 := by
  cases test with
  | none => simp [slotsOf]
  | some t =>
    have hmem : s ∈ t.slots ↔ s ∈ t.leaves := mem_slots
    rw [slotsOf, Option.elim_some]
    split_ifs with h
    · obtain ⟨t', ht, h⟩ := h
      cases Option.mem_def.1 ht
      exact List.count_eq_one_of_mem (nodup_slots t) (hmem.2 h)
    · exact List.count_eq_zero_of_not_mem fun hs => h ⟨t, rfl, hmem.1 hs⟩

theorem Constraints.count_singleSlots (c : Constraints) (s : Slot) :
    c.superclass.toList.count s + c.declaringClass.toList.count s + c.valueType.toList.count s =
      [c.superclass, c.declaringClass, c.valueType].count (some s) := by
  have h : ∀ o : Option Slot, o.toList.count s = [o].count (some s) := by
    intro o
    cases o <;> simp [List.count_singleton]
  rw [h, h, h, ← List.count_append, ← List.count_append]
  rfl

/-- **Lists and counters agree with the constraints.** Whatever calls built a graph, a matcher is
on the list of a slot once for each single reference to it and once for each expression that names
it, and its counter is one more than the number of all these entries. -/
theorem subscriptions_of_built (hg : g.Built) (hm : g.get? m = some node) :
    (∀ s, g.subscriptions m s =
      [node.constraints.superclass, node.constraints.declaringClass,
        node.constraints.valueType].count (some s) +
      (if ∃ test ∈ node.constraints.interfaces, s ∈ test.leaves then 1 else 0) +
      (if ∃ test ∈ node.constraints.parameterTypes, s ∈ test.leaves then 1 else 0)) ∧
    node.counter = 1 + ∑ s ∈ Finset.range g.size, g.subscriptions m s := by
  have hfresh := hg.fresh
  have hrefs : g.references m = node.constraints.references := Graph.references_of_get? hm
  constructor
  · intro s
    rw [hfresh.subscriptions, hrefs, Constraints.count_references, Constraints.count_singleSlots,
      SetTest.count_slotsOf, SetTest.count_slotsOf]
  · have hsum := sum_count_eq_countP (hfresh.inRange m) fun _ => True
    simp only [Finset.filter_true, decide_true, List.countP_true] at hsum
    rw [(hfresh.node m node hm).counter, ← hsum]
    simp only [hfresh.subscriptions]

/-- References of the last matcher overlap, some are replaced, and its last edit is refused. -/
def ClientCall.overlapping : List ClientCall :=
  [.exactClass "A", .exactClass "B", .matcher .method,
    .edit 2 [.declaringClass 0, .valueType 0, .valueType 0, .parameterTypes (.anyOf 1)],
    .edit 2 [.parameterTypes (.or (.anyOf 0) (.and (.allOf 0) (.member (.parameter 1 0))))],
    .buildFirst 2, .edit 2 [.superclass 1], .observe 0 .onMatch 0]

theorem subscriptions_of_overlapping :
    ∃ node, (Graph.afterAll {} ClientCall.overlapping).get? 2 = some node ∧
      (Graph.afterAll {} ClientCall.overlapping).subscriptions 2 0 = 2 + 0 + 1 ∧
      node.counter = 1 + ∑ s ∈ Finset.range 3,
        (Graph.afterAll {} ClientCall.overlapping).subscriptions 2 s := by
  have hbuilt : (Graph.afterAll {} ClientCall.overlapping).Built :=
    Graph.Built.empty.afterAll (by decide +kernel)
  have hsize : (Graph.afterAll {} ClientCall.overlapping).size = 3 := by decide +kernel
  obtain ⟨node, hnode⟩ : ∃ node, (Graph.afterAll {} ClientCall.overlapping).get? 2 = some node :=
    Option.isSome_iff_exists.1 (by decide +kernel)
  obtain ⟨hlist, hcounter⟩ := subscriptions_of_built hbuilt hnode
  have hcounts : ∀ node ∈ (Graph.afterAll {} ClientCall.overlapping).get? 2,
      [node.constraints.superclass, node.constraints.declaringClass,
        node.constraints.valueType].count (some 0) = 2 ∧
      (∀ test ∈ node.constraints.interfaces, 0 ∉ test.leaves) ∧
      ∃ test ∈ node.constraints.parameterTypes, 0 ∈ test.leaves := by
    decide +kernel
  obtain ⟨hsingle, hinterfaces, hparameters⟩ := hcounts node hnode
  refine ⟨node, hnode, ?_, hsize ▸ hcounter⟩
  rw [hlist, hsingle, if_neg (by simpa using hinterfaces), if_pos hparameters]

end Metamatch
