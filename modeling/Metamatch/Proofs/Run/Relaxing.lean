import Metamatch.Proofs.Run.Comparison

/-!
# Misses that are no constraints

Under the policy that drops constraints, a session comes to the same as one from which every
constraint with a missed reference is removed, however differently the two wait and are left out.

* `Constraints.without`: constraints without references to some slots, but for declaring classes.
* `Run.scan_without`: if these slots are missed, a scan does not tell the difference.
* `Session.Relaxes`: a session, and the same without these constraints.
* `Session.Relaxes.values_eq`: it finds the same values.
* `values_of_relaxed`: what that means for the reports.
-/

namespace Metamatch

variable {σ : Type}

/-! ## Constraints removed -/

/-- Constraints without references to the slots that are given up: a superclass or value type that
is one of them goes, as does a test that names one. The declaring class stays. -/
def Constraints.without (missed : Slot → Bool) (c : Constraints) : Constraints :=
  { c with
    superclass := c.superclass.filter fun s => !missed s
    valueType := c.valueType.filter fun s => !missed s
    interfaces := c.interfaces.filter fun test => test.slots.all fun s => !missed s
    parameterTypes := c.parameterTypes.filter fun test => test.slots.all fun s => !missed s }

theorem Constraints.references_without_subset (missed : Slot → Bool) (c : Constraints) :
    (c.without missed).references ⊆ c.references := by
  have hsingle : ∀ reference : Option Slot,
      (reference.filter fun s => !missed s).toList ⊆ reference.toList := by
    intro reference d hd
    rw [Option.mem_toList] at hd ⊢
    exact (Option.mem_filter_iff.1 hd).1
  have htest : ∀ test : Option SetTest,
      SetTest.slotsOf (test.filter fun test => test.slots.all fun s => !missed s) ⊆
        SetTest.slotsOf test := by
    intro test
    cases test with
    | none => exact List.Subset.refl _
    | some test =>
      rw [Option.filter_some]
      split
      · exact List.Subset.refl _
      · exact List.nil_subset _
  intro d hd
  simp only [references, singleSlots, testSlots, without, List.mem_append] at hd ⊢
  exact hd.imp (Or.imp (Or.imp (fun h => hsingle _ h) id) fun h => hsingle _ h)
    (Or.imp (fun h => htest _ h) fun h => htest _ h)

namespace Graph

variable {g : Graph} {missed : Slot → Bool}

theorem single_without {reference : Option Slot}
    (h : ∀ s ∈ reference, missed s = true → g.valuation s = some []) :
    g.single (reference.filter fun s => !missed s) = g.single reference := by
  cases reference with
  | none => rfl
  | some s =>
    rw [Option.filter_some]
    cases hs : missed s with
    | false => rfl
    | true =>
      rw [single, look_of_valuation (h s rfl hs)]
      rfl

theorem active_without {test : Option SetTest}
    (hpublished : ∀ s ∈ SetTest.slotsOf test, g.valuation s ≠ none)
    (h : ∀ s ∈ SetTest.slotsOf test, missed s = true → g.valuation s = some []) :
    g.active (test.filter fun test => test.slots.all fun s => !missed s) = g.active test := by
  cases test with
  | none => rfl
  | some test =>
    rw [Option.filter_some]
    split_ifs with hall
    · rfl
    · have hvalues : ∀ s ∈ test.slots, g.valuation s = some ((g.valuation s).getD []) := by
        intro s hs
        obtain ⟨values, hv⟩ := Option.ne_none_iff_exists'.1 (hpublished s hs)
        rw [hv]
        rfl
      have hmissed : (test.slots.all fun s => !((g.valuation s).getD []).isEmpty) = false := by
        rw [Bool.not_eq_true, List.all_eq_false] at hall
        obtain ⟨s, hs, hsm⟩ := hall
        refine List.all_eq_false.2 ⟨s, hs, ?_⟩
        rw [h s hs (by simpa using hsm)]
        simp
      rw [active, active, allPublished_eq hvalues, hmissed]
      rfl

end Graph

/-- **A scan does not tell a missed reference from none**, once all references are published. -/
theorem Run.scan_without (ctx : RunContext σ) {g : Graph} {missed : Slot → Bool} {slot : Slot}
    {node node' : Node} (hkind : node'.kind = node.kind)
    (hconstraints : node'.constraints = node.constraints.without missed)
    (hpublished : ∀ s ∈ node.constraints.references, g.valuation s ≠ none)
    (h : ∀ s ∈ node.constraints.references, missed s = true → g.valuation s = some []) :
    Run.scan ctx g slot node' = Run.scan ctx g slot node := by
  have hsuperclass := @Graph.single_without g missed node.constraints.superclass fun s hs =>
    h s (node.constraints.superclass_subset (Option.mem_toList.2 hs))
  have hvalueType := @Graph.single_without g missed node.constraints.valueType fun s hs =>
    h s (node.constraints.valueType_subset (Option.mem_toList.2 hs))
  have hinterfaces := @Graph.active_without g missed node.constraints.interfaces
    (fun s hs => hpublished s (node.constraints.interfaces_subset hs))
    fun s hs => h s (node.constraints.interfaces_subset hs)
  have htypes := @Graph.active_without g missed node.constraints.parameterTypes
    (fun s hs => hpublished s (node.constraints.parameterTypes_subset hs))
    fun s hs => h s (node.constraints.parameterTypes_subset hs)
  unfold scan
  rw [hkind, hconstraints]
  cases node.kind with
  | cls => simp only [Scan.classes, Constraints.without, hsuperclass, hinterfaces]
  | field | method | constructor =>
    simp only [Scan.members, Constraints.without, hvalueType, htypes]
  | text | parameter => rfl

/-! ## Sessions relaxed -/

/-- The matcher was published without values. -/
def MatchResult.missed (result : MatchResult) (m : Slot) : Bool :=
  result.outcome? m == some .missed

/-- The same matcher without references to the slots that are given up. -/
@[mk_iff]
structure Node.Relaxes (missed : Slot → Bool) (node node' : Node) : Prop where
  kind : node'.kind = node.kind
  constraints : node'.constraints = node.constraints.without missed
  key : node'.key = node.key
  observed : node'.Observed ↔ node.Observed

instance (node : Node) : Decidable node.Observed :=
  decidable_of_iff (node.subscribers.any fun
    | .observer _ _ => true
    | .matcher _ => false) <| by
    rw [List.any_eq_true]
    constructor
    · rintro ⟨slot | ⟨trigger, number⟩, hmem, h⟩
      · cases h
      · exact ⟨trigger, number, hmem⟩
    · rintro ⟨trigger, number, hmem⟩
      exact ⟨_, hmem, rfl⟩

instance (missed : Slot → Bool) (node node' : Node) : Decidable (node.Relaxes missed node') :=
  decidable_of_iff' _ (Node.relaxes_iff missed node node')

/-- The same session without references to the slots that are given up. Neither session has an
earlier result to take values over from. -/
structure Session.Relaxes (missed : Slot → Bool) (session session' : Session) : Prop where
  config : session'.config = session.config
  fresh : session.last = none ∧ session'.last = none
  nodes : List.Forall₂ (Node.Relaxes missed) session.graph.nodes session'.graph.nodes

/-- All references are to class matchers of the session. -/
def Graph.RefersToClasses (g : Graph) : Prop :=
  ∀ node ∈ g.nodes, ∀ d ∈ node.constraints.references, (g.get? d).any (·.kind == .cls) = true

instance (g : Graph) : Decidable g.RefersToClasses :=
  inferInstanceAs (Decidable (∀ node ∈ g.nodes, ∀ d ∈ node.constraints.references,
    (g.get? d).any (·.kind == .cls) = true))

namespace Session

theorem seeds_of_fresh {session : Session} (h : session.last = none) (host : Host σ) (world : σ) :
    session.seeds host world = [] := by
  rw [seeds, h]
  rfl

theorem lookup_of_fresh {session : Session} (h : session.last = none) (host : Host σ) (world : σ)
    (m : Slot) : (session.seeds host world).lookup m = none := by
  rw [seeds_of_fresh h]
  rfl

theorem dependencies_of_fresh {session : Session} (h : session.last = none) (host : Host σ)
    (world : σ) : session.dependencies host world = session.graph.references := by
  funext m
  rw [dependencies, seeded, seeds_of_fresh h]
  exact if_neg List.not_mem_nil

namespace Relaxes

variable {missed : Slot → Bool} {session session' : Session} {host : Host σ} {world world' : σ}
  {arrange arrange' : List Slot → List Slot} {lists : List (List String)}
  {ground ground' : Ground} {pub pub' : Publications} {result result' : MatchResult}
  {p p' : Progress σ} {m : Slot} {node : Node}
  (h : session.Relaxes missed session')

include h

theorem get? (hnode : session.graph.get? m = some node) :
    ∃ node', session'.graph.get? m = some node' ∧ node.Relaxes missed node' := by
  rcases forall₂_getElem? h.nodes m with ⟨hnone, -⟩ | ⟨old, node', hold, hnode', hrelaxes⟩
  · rw [Graph.get?, hnone] at hnode
    cases hnode
  · rw [Graph.get?, hold, Option.some.injEq] at hnode
    exact ⟨node', hnode', hnode ▸ hrelaxes⟩

theorem size_eq : session'.graph.size = session.graph.size := h.nodes.length_eq.symm

theorem references_subset (m : Slot) :
    session'.graph.references m ⊆ session.graph.references m := by
  by_cases hsize : m < session.graph.size
  · obtain ⟨node, hnode⟩ := Graph.lt_size_iff.1 hsize
    obtain ⟨node', hnode', hrelaxes⟩ := h.get? hnode
    rw [Graph.references_of_get? hnode, Graph.references_of_get? hnode', hrelaxes.constraints]
    exact node.constraints.references_without_subset missed
  · have hnone : session'.graph.get? m = none :=
      Graph.get?_eq_none (h.size_eq.symm ▸ Nat.not_lt.1 hsize)
    rw [Graph.references, hnone]
    exact List.nil_subset _

theorem dependencies_subset (m : Slot) :
    session'.dependencies host world' m ⊆ session.dependencies host world m := by
  rw [dependencies_of_fresh h.fresh.1, dependencies_of_fresh h.fresh.2]
  exact h.references_subset m

theorem unpruned (hg : session.Grounds host world ground)
    (hg' : session'.Grounds host world' ground') (hm : session'.Unpruned host world' m) :
    session.Unpruned host world m := by
  obtain ⟨node, hnode⟩ := Graph.lt_size_iff.1 (h.size_eq ▸ hm.1)
  obtain ⟨node', hnode', hrelaxes⟩ := h.get? hnode
  rw [hg'.unpruned_iff hnode', h.config, hrelaxes.key, hrelaxes.observed] at hm
  rw [hg.unpruned_iff hnode]
  refine fun hprune => (hm hprune).imp_left ?_
  rintro ⟨k, hk⟩
  exact ⟨k, h.dependencies_subset k hk⟩

theorem equation_eq (hg : session.Grounds host world ground)
    (hg' : session'.Grounds host world' ground') (hsteady : host.Steady)
    (hpolicy : session.config.missPolicy = .disableConstraint) (hm : m < session.graph.size)
    {v v' : Slot → List Entity}
    (hmissed : ∀ d ∈ session.dependencies host world m, missed d = true → v d = [])
    (hv : ∀ d ∈ session'.dependencies host world' m, v' d = v d) :
    session'.equation lists host world' v' m = session.equation lists host world v m := by
  obtain ⟨node, hnode⟩ := Graph.lt_size_iff.1 hm
  obtain ⟨node', hnode', hrelaxes⟩ := h.get? hnode
  have hlookup := lookup_of_fresh h.fresh.1 host world m
  have hlookup' := lookup_of_fresh h.fresh.2 host world' m
  have hrefs := dependencies_of_get? hlookup hnode
  have hrefs' := dependencies_of_get? hlookup' hnode'
  have hfill : ∀ d ∈ node.constraints.references,
      ((session.seededGraph host world).fill v).valuation d = some (v d) :=
    fun d hd => hg.valuation_fill (hrefs ▸ hd)
  have hshares : Graph.Shares id ((session.seededGraph host world).fill v)
      ((session'.seededGraph host world').fill v') node'.constraints.references := by
    intro d hd
    have hd' := hrefs' ▸ hd
    refine ⟨v d, hfill d ?_, hv d hd' ▸ hg'.valuation_fill hd'⟩
    exact hrefs ▸ h.dependencies_subset m hd'
  have hwithout : session.scanned lists host world v node' =
      session.scanned lists host world v node := by
    rw [scanned, Run.scan_without _ hrelaxes.kind hrelaxes.constraints
      (fun d hd => by simp [hfill d hd])
      fun d hd hmd => by rw [hfill d hd, hmissed d (hrefs ▸ hd) hmd]]
    rfl
  have hscanned : session'.scanned lists host world' v' node' =
      session.scanned lists host world v node :=
    (scanned_rename hsteady h.config rfl node'.constraints.rename_id.symm hshares).trans hwithout
  rw [hg.equation_of_get? hnode hlookup, hg'.equation_of_get? hnode' hlookup', h.config, hpolicy,
    hscanned]
  simp

section Runs

variable (hf : session.Finished (session.context arrange lists host) world ground pub result p)
  (hf' : session'.Finished (session'.context arrange' lists host) world' ground' pub' result' p')
  (hsteady : host.Steady) (hpolicy : session.config.missPolicy = .disableConstraint)
  (hmissed : ∀ d, missed d = true → pub.values d = [])

include hf hf' hsteady hpolicy hmissed

/-- **What is published is published with the same values** once references to missed slots are
removed, unless nothing asks for it any more. -/
theorem published_eq (hm : pub m ≠ none) (hm' : session'.Unpruned host world' m) :
    pub' m ≠ none ∧ pub'.values m = pub.values m := by
  have hg : session.Grounds host world ground := hf.grounds
  have hg' : session'.Grounds host world' ground' := hf'.grounds
  refine hf.induction (motive := fun m => session'.Unpruned host world' m →
    pub' m ≠ none ∧ pub'.values m = pub.values m) (fun m hm ih hm' => ?_) hm hm'
  have hpub' : pub' m ≠ none := by
    refine (hf'.published_iff hm').2 fun hcycle => hf.not_reachesCycle hm ?_
    rw [hg.refs_eq]
    exact hcycle.mono fun m => h.dependencies_subset m
  have hvalues : pub.values m = session.equation lists host world pub.values m :=
    hf.solves_of_unseeded hsteady (lookup_of_fresh h.fresh.1 host world m) hm
  have hvalues' : pub'.values m = session'.equation lists host world' pub'.values m :=
    hf'.solves_of_unseeded hsteady (lookup_of_fresh h.fresh.2 host world' m) hpub'
  refine ⟨hpub', ?_⟩
  rw [hvalues, hvalues', h.equation_eq hg hg' hsteady hpolicy (hf.unpruned hm).1
    (fun d _ => hmissed d) fun d hd => ?_]
  exact ((ih d (h.dependencies_subset m hd)).2 (hg'.unpruned hd)).2

theorem values_eq (hm : result.outcome? m ≠ some .unresolved)
    (hm' : result'.outcome? m ≠ some .pruned) : result'.values m = result.values m := by
  rw [hf.values_eq, hf'.values_eq]
  have hg : session.Grounds host world ground := hf.grounds
  have hg' : session'.Grounds host world' ground' := hf'.grounds
  by_cases hsize : m < session.graph.size
  · have hunpruned' : session'.Unpruned host world' m := by
      by_contra hpruned
      exact hm' (hf'.pruned_iff.2 ⟨h.size_eq.symm ▸ hsize, hpruned⟩)
    have hunpruned := h.unpruned hg hg' hunpruned'
    have hpub : pub m ≠ none := by
      rw [hf.published_iff hunpruned]
      exact fun hcycle => hm (hf.unresolved_iff.2 ⟨hunpruned, hcycle⟩)
    exact (h.published_eq hf hf' hsteady hpolicy hmissed hpub hunpruned').2
  · have hnone : pub m = none := hf.unpublished fun hm => hsize hm.1
    have hnone' : pub' m = none := hf'.unpublished fun hm => hsize (h.size_eq ▸ hm.1)
    rw [Publications.values, Publications.values, hnone, hnone']

end Runs

theorem unpruned_of_member (hg : session.Grounds host world ground)
    (hg' : session'.Grounds host world' ground') (hclasses : session.graph.RefersToClasses)
    (hnode : session.graph.get? m = some node) (hkind : node.kind ≠ .cls)
    (hm : session.Unpruned host world m) : session'.Unpruned host world' m := by
  obtain ⟨node', hnode', hrelaxes⟩ := h.get? hnode
  rw [hg.unpruned_iff hnode] at hm
  rw [hg'.unpruned_iff hnode', h.config, hrelaxes.key, hrelaxes.observed]
  refine fun hprune => .inr ((hm hprune).resolve_left ?_)
  rintro ⟨k, hk⟩
  rw [dependencies_of_fresh h.fresh.1, Graph.references] at hk
  cases hdependent : session.graph.get? k with
  | none => simp [hdependent] at hk
  | some dependent =>
    rw [hdependent, Option.elim_some] at hk
    have hcls := hclasses dependent (List.mem_of_getElem? hdependent) m hk
    rw [hnode, Option.any_some, beq_iff_eq] at hcls
    exact hkind hcls

end Relaxes

/-- A matcher of members without a class to search has no values. -/
theorem equation_of_unowned {session : Session} {host : Host σ} {world : σ} {ground : Ground}
    {lists : List (List String)} {v : Slot → List Entity} {m : Slot} {node : Node}
    (hg : session.Grounds host world ground)
    (hlookup : (session.seeds host world).lookup m = none)
    (hnode : session.graph.get? m = some node) (hkind : node.kind ≠ .cls)
    (howner : ∀ d ∈ node.constraints.declaringClass, v d = []) :
    session.equation lists host world v m = [] := by
  have hsingle : ((session.seededGraph host world).fill v).single
      node.constraints.declaringClass = .ok none := by
    cases hdeclaring : node.constraints.declaringClass with
    | none => rfl
    | some d =>
      have hd : d ∈ session.dependencies host world m := by
        rw [dependencies_of_get? hlookup hnode]
        exact node.constraints.declaringClass_subset (Option.mem_toList.2 hdeclaring)
      have hvaluation := hg.valuation_fill (v := v) hd
      rw [howner d hdeclaring] at hvaluation
      rw [Graph.single, Graph.look_of_valuation hvaluation]
      rfl
  have hscanned : session.scanned lists host world v node = [] := by
    unfold scanned Run.scan
    cases hk : node.kind with
    | cls => exact absurd hk hkind
    | field | method | constructor =>
      simp only [Scan.members, hsingle]
      rfl
    | text | parameter => rfl
  rw [hg.equation_of_get? hnode hlookup, hscanned, ite_self]

theorem Finished.missed_of_unowned {session : Session} {host : Host σ} {world : σ}
    {ground : Ground} {pub : Publications} {arrange : List Slot → List Slot}
    {lists : List (List String)} {result : MatchResult} {p : Progress σ} {m : Slot} {node : Node}
    (hf : session.Finished (session.context arrange lists host) world ground pub result p)
    (hsteady : host.Steady) (hlookup : (session.seeds host world).lookup m = none)
    (hnode : session.graph.get? m = some node) (hkind : node.kind ≠ .cls)
    (howner : ∀ d ∈ node.constraints.declaringClass, result.outcome? d = some .missed)
    (hm : pub m ≠ none) : result.outcome? m = some .missed := by
  have hg : session.Grounds host world ground := hf.grounds
  refine hf.missed_iff.2 ⟨hm, ?_⟩
  rw [hf.solves_of_unseeded hsteady hlookup hm]
  exact equation_of_unowned hg hlookup hnode hkind fun d hd => (hf.missed_iff.1 (howner d hd)).2

/-! ## Reports -/

theorem closes_of_fresh {session : Session} (hg : session.graph.Built) (h : session.last = none)
    {arrange : List Slot → List Slot} (harrange : ∀ items, (arrange items).Perm items)
    {host : Host σ} (hsteady : host.Steady) {verdict : String → Decision}
    (hverdict : host.Judges verdict) (lists : List (List String)) (world : σ) :
    ∃ ground pub count q, session.Closes arrange lists host world
      { world, graph := session.graph } ground pub count q := by
  refine session.execute_of_started hg harrange hsteady hverdict ?_
  rw [h]
  rfl

namespace Relaxes

variable {session session' : Session} {host : Host σ} {world world' : σ}
  {arrange arrange' : List Slot → List Slot} {lists : List (List String)}
  {start start' : Progress σ} {ground ground' : Ground} {pub pub' : Publications}
  {count count' : Nat} {q q' : Progress σ} {result result' : MatchResult} {m : Slot} {node : Node}

theorem missed_of_unowned (h : session.Relaxes result.missed session')
    (hf : session.Finished (session.context arrange lists host) world ground pub result q)
    (hf' : session'.Finished (session'.context arrange' lists host) world' ground' pub' result' q')
    (hsteady : host.Steady) (hpolicy : session.config.missPolicy = .disableConstraint)
    (hclasses : session.graph.RefersToClasses) (hnode : session.graph.get? m = some node)
    (hkind : node.kind ≠ .cls)
    (howner : ∀ d ∈ node.constraints.declaringClass, result.outcome? d = some .missed)
    (hm : pub m ≠ none) :
    result.outcome? m = some .missed ∧ result'.outcome? m = some .missed := by
  have hg : session.Grounds host world ground := hf.grounds
  have hg' : session'.Grounds host world' ground' := hf'.grounds
  have hmissed := hf.missed_of_unowned hsteady (lookup_of_fresh h.fresh.1 host world m) hnode hkind
    howner hm
  have hm' := h.unpruned_of_member hg hg' hclasses hnode hkind (hf.unpruned hm)
  obtain ⟨hpub', hvalues'⟩ := h.published_eq hf hf' hsteady hpolicy
    (fun d hd => (hf.missed_iff.1 (beq_iff_eq.1 hd)).2) hm hm'
  exact ⟨hmissed, hf'.missed_iff.2 ⟨hpub', hvalues'.trans (hf.missed_iff.1 hmissed).2⟩⟩

theorem returns (h : session.Relaxes result.missed session')
    (hc : session.Closes arrange lists host world start ground pub count q)
    (hc' : session'.Closes arrange' lists host world' start' ground' pub' count' q')
    (hsteady : host.Steady) (hpolicy : session.config.missPolicy = .disableConstraint)
    (hresult : (session.execute arrange lists host world).1 = .ok result)
    (hresolved : ∀ m, result.outcome? m ≠ some .unresolved) :
    ∃ result', (session'.execute arrange' lists host world').1 = .ok result' := by
  obtain ⟨hf, -⟩ := hc.of_ok hresult
  have hg : session.Grounds host world ground := hc.finished.grounds
  have hg' : session'.Grounds host world' ground' := hc'.finished.grounds
  have hthins : List.Forall₂ Node.Thins q.graph.nodes q'.graph.nodes := by
    refine forall₂_of_getElem? fun m => ?_
    rw [← Graph.get?, ← Graph.get?, hc.finished.standing.graph, hc'.finished.standing.graph,
      Ground.get?_after, Ground.get?_after]
    rcases forall₂_getElem? h.nodes m with ⟨hnone, hnone'⟩ | ⟨node, node', hnode, hnode', hrelaxes⟩
    · rw [hg.get?_eq_none hnone, hg'.get?_eq_none hnone']
      exact .none
    · obtain ⟨fresh, hfresh, -, -, hkey, -⟩ := hg.exists_node hnode
      obtain ⟨fresh', hfresh', -, -, hkey', -⟩ := hg'.exists_node hnode'
      have hkeys : fresh'.key = fresh.key := hkey'.trans (hrelaxes.key.trans hkey.symm)
      rw [hfresh, hfresh']
      refine .some ⟨hkeys, fun hne => .inr ?_⟩
      have hm' : session'.Unpruned host world' m := hg'.unpruned_of_key hnode' (by
        rwa [← hkey', hkeys])
      have hm := h.unpruned hg hg' hm'
      have hpub : pub m ≠ none := (hf.published_iff hm).2 fun hcycle =>
        hresolved m (hf.unresolved_iff.2 ⟨hm, hcycle⟩)
      exact (h.published_eq hc.finished hc'.finished hsteady hpolicy
        (fun d hd => (hf.missed_iff.1 (beq_iff_eq.1 hd)).2) hpub hm').2
  exact hc.returns_of_thins hc' hsteady hthins hresult

end Relaxes

end Session

/-- **A missed reference means no constraint.** A run that drops constraints and leaves nothing
unresolved comes to what the session without the missed references comes to. -/
theorem values_of_relaxed {session session' : Session} (hg : session.graph.Built)
    (hg' : session'.graph.Built) {arrange arrange' : List Slot → List Slot}
    (harrange : ∀ items, (arrange items).Perm items)
    (harrange' : ∀ items, (arrange' items).Perm items) {host : Host σ} (hsteady : host.Steady)
    {verdict : String → Decision} (hverdict : host.Judges verdict) (lists : List (List String))
    (world world' : σ) (hpolicy : session.config.missPolicy = .disableConstraint)
    (hclasses : session.graph.RefersToClasses) {result : MatchResult}
    (hresult : (session.execute arrange lists host world).1 = .ok result)
    (h : session.Relaxes result.missed session') :
    ((∀ m, result.outcome? m ≠ some .unresolved) →
      ∃ result', (session'.execute arrange' lists host world').1 = .ok result') ∧
    ∀ result', (session'.execute arrange' lists host world').1 = .ok result' →
      (∀ m, result.outcome? m ≠ some .unresolved → result'.outcome? m ≠ some .pruned →
        result'.values m = result.values m) ∧
      ∀ m node, session.graph.get? m = some node → node.kind ≠ .cls →
        ((∀ d ∈ node.constraints.declaringClass, result.outcome? d = some .missed) →
          (result.sweep? m).isSome →
            result.outcome? m = some .missed ∧ result'.outcome? m = some .missed) ∧
        ((∀ d ∈ node.constraints.declaringClass, result'.outcome? d = some .missed) →
          (result'.sweep? m).isSome → result'.outcome? m = some .missed) := by
  obtain ⟨ground, pub, count, q, hc⟩ :=
    Session.closes_of_fresh hg h.fresh.1 harrange hsteady hverdict lists world
  obtain ⟨ground', pub', count', q', hc'⟩ :=
    Session.closes_of_fresh hg' h.fresh.2 harrange' hsteady hverdict lists world'
  refine ⟨h.returns hc hc' hsteady hpolicy hresult, fun result' hresult' => ?_⟩
  obtain ⟨hf, -⟩ := hc.of_ok hresult
  obtain ⟨hf', -⟩ := hc'.of_ok hresult'
  have hmissed : ∀ d, result.missed d = true → pub.values d = [] :=
    fun d hd => (hf.missed_iff.1 (beq_iff_eq.1 hd)).2
  refine ⟨fun m => h.values_eq hf hf' hsteady hpolicy hmissed,
    fun m node hnode hkind => ⟨fun howner hm => ?_, fun howner hm => ?_⟩⟩
  · exact h.missed_of_unowned hf hf' hsteady hpolicy hclasses hnode hkind howner
      (hf.sweep?_isSome.1 hm)
  · obtain ⟨node', hnode', hrelaxes⟩ := h.get? hnode
    exact hf'.missed_of_unowned hsteady (Session.lookup_of_fresh h.fresh.2 host world' m) hnode'
      (hrelaxes.kind ▸ hkind) (fun d hd => howner d (by rwa [hrelaxes.constraints] at hd))
      (hf'.sweep?_isSome.1 hm)

namespace Sample

/-- A session that drops constraints and has no earlier result. -/
def fresh (calls : List ClientCall) : Session := { graph := Graph.afterAll {} calls }

/-- A run of such a session. -/
def runFresh (calls : List ClientCall) : Except RunError MatchResult × Progress Nat :=
  (fresh calls).execute id [["B", "A"]] host 0

/-- References to a missed class from a class, from a method and as a declaring class. -/
def lost : List ClientCall :=
  [.exactClass "A", .exactClass "C",
    .all .cls [.superclass 1, .interfaces (.not (.member (.value 1))), .key "class"],
    .all .method [.declaringClass 0, .valueType 1,
      .parameterTypes (.or (.member (.value 1)) (.member (.value 0))), .key "method"],
    .all .method [.declaringClass 1, .key "none"]]

/-- The same without these references, but for the declaring class. -/
def found : List ClientCall :=
  [.exactClass "A", .exactClass "C", .all .cls [.key "class"],
    .all .method [.declaringClass 0, .key "method"], .all .method [.declaringClass 1, .key "none"]]

/-- Two classes that wait for each other, and a test that names one of them and a missed class. -/
def tangled : List ClientCall :=
  [.matcher .cls, .all .cls [.superclass 0], .edit 0 [.superclass 1], .build 0, .exactClass "C",
    .all .cls [.interfaces (.or (.member (.value 2)) (.member (.value 0))), .key "class"]]

/-- The same without the test. -/
def untangled : List ClientCall :=
  [.matcher .cls, .all .cls [.superclass 0], .edit 0 [.superclass 1], .build 0, .exactClass "C",
    .all .cls [.key "class"]]

end Sample

/-- The class and the method are found as if the missed class had not been asked for. -/
theorem values_of_lost :
    ∃ result result', (Sample.runFresh Sample.lost).1 = .ok result ∧
      (Sample.runFresh Sample.found).1 = .ok result' ∧ result.outcome? 1 = some .missed ∧
      result'.values 2 = result.values 2 ∧ result.values 2 ≠ [] ∧
      result'.values 3 = result.values 3 ∧ result.values 3 ≠ [] ∧
      result.outcome? 4 = some .missed ∧ result'.outcome? 4 = some .missed := by
  have hlost : ∀ result ∈ (Sample.runFresh Sample.lost).1.toOption,
      List.Forall₂ (Node.Relaxes result.missed) (Sample.fresh Sample.lost).graph.nodes
        (Sample.fresh Sample.found).graph.nodes ∧
      result.reports.map (·.outcome) = [.resolved, .missed, .resolved, .resolved, .missed] ∧
      (result.sweep? 4).isSome ∧ result.values 2 ≠ [] ∧ result.values 3 ≠ [] := by
    decide +kernel
  have hfound : ∀ result' ∈ (Sample.runFresh Sample.found).1.toOption,
      result'.outcome? 2 ≠ some .pruned ∧ result'.outcome? 3 ≠ some .pruned := by
    decide +kernel
  have hok : (Sample.runFresh Sample.lost).1.toOption.isSome = true := by decide +kernel
  obtain ⟨result, hrun⟩ := Option.isSome_iff_exists.1 hok
  obtain ⟨hnodes, houtcomes, hsweep, h2, h3⟩ := hlost result hrun
  have houtcome : ∀ m, result.outcome? m =
      [Outcome.resolved, .missed, .resolved, .resolved, .missed][m]? := by
    intro m
    rw [← houtcomes, List.getElem?_map]
    rfl
  have hresolved : ∀ m, result.outcome? m ≠ some .unresolved := by
    intro m hm
    rw [houtcome] at hm
    have := List.mem_of_getElem? hm
    revert this
    decide
  obtain ⟨hreturns, hvalues⟩ := @values_of_relaxed _ (Sample.fresh Sample.lost)
    (Sample.fresh Sample.found) (Sample.built _ (by decide +kernel))
    (Sample.built _ (by decide +kernel)) id id (fun items => .refl items)
    (fun items => .refl items) _ Sample.steady (fun _ => .proceed) (fun _ _ => rfl) [["B", "A"]] 0 0
    rfl (by decide +kernel) result (eq_ok_of_toOption hrun) ⟨rfl, ⟨rfl, rfl⟩, hnodes⟩
  obtain ⟨result', hrun'⟩ := hreturns hresolved
  obtain ⟨hsame, hmissed⟩ := hvalues result' hrun'
  obtain ⟨hfound2, hfound3⟩ := hfound result' (by rw [Sample.runFresh, hrun']; rfl)
  have hmember : ((Sample.fresh Sample.lost).graph.get? 4).map
      (fun node => (node.kind, node.constraints.declaringClass)) = some (.method, some 1) := by
    decide +kernel
  obtain ⟨node, hnode, hfields⟩ := Option.map_eq_some_iff.1 hmember
  rw [Prod.mk.injEq] at hfields
  have hmissed4 := (hmissed 4 node hnode (by rw [hfields.1]; decide)).1
    (by rw [hfields.2]; rintro _ ⟨rfl⟩; exact houtcome 1) hsweep
  exact ⟨result, result', eq_ok_of_toOption hrun, hrun', houtcome 1, hsame 2 (hresolved 2) hfound2,
    h2, hsame 3 (hresolved 3) hfound3, h3, hmissed4⟩

/-- A matcher that is left unresolved may find something without its constraint: once a test with a
missed slot is dropped, so is the wait for another slot that it names. -/
theorem values_of_tangled :
    (Sample.fresh Sample.tangled).graph.Built ∧ (Sample.fresh Sample.untangled).graph.Built ∧
    (Sample.fresh Sample.tangled).graph.RefersToClasses ∧
    (Sample.fresh Sample.tangled).config.missPolicy = .disableConstraint ∧
    Sample.host.Steady ∧ Sample.host.Judges (fun _ => .proceed) ∧
    ∃ result result', (Sample.runFresh Sample.tangled).1 = .ok result ∧
      (Sample.runFresh Sample.untangled).1 = .ok result' ∧
      (Sample.fresh Sample.tangled).Relaxes result.missed (Sample.fresh Sample.untangled) ∧
      result.outcome? 3 = some .unresolved ∧ result'.outcome? 3 = some .resolved ∧
      result'.values 3 ≠ result.values 3 := by
  have htangled : ∀ result ∈ (Sample.runFresh Sample.tangled).1.toOption,
      List.Forall₂ (Node.Relaxes result.missed) (Sample.fresh Sample.tangled).graph.nodes
        (Sample.fresh Sample.untangled).graph.nodes ∧
      result.outcome? 3 = some .unresolved ∧ result.values 3 = [] := by
    decide +kernel
  have huntangled : ∀ result' ∈ (Sample.runFresh Sample.untangled).1.toOption,
      result'.outcome? 3 = some .resolved ∧ result'.values 3 ≠ [] := by
    decide +kernel
  have hok : (Sample.runFresh Sample.tangled).1.toOption.isSome = true := by decide +kernel
  have hok' : (Sample.runFresh Sample.untangled).1.toOption.isSome = true := by decide +kernel
  obtain ⟨result, hrun⟩ := Option.isSome_iff_exists.1 hok
  obtain ⟨result', hrun'⟩ := Option.isSome_iff_exists.1 hok'
  obtain ⟨hnodes, h3, hvalues⟩ := htangled result hrun
  obtain ⟨h3', hvalues'⟩ := huntangled result' hrun'
  exact ⟨Sample.built _ (by decide +kernel), Sample.built _ (by decide +kernel),
    by decide +kernel, rfl, Sample.steady, fun _ _ => rfl, result, result', eq_ok_of_toOption hrun,
    eq_ok_of_toOption hrun', ⟨rfl, ⟨rfl, rfl⟩, hnodes⟩, h3, h3', hvalues ▸ hvalues'⟩

end Metamatch
