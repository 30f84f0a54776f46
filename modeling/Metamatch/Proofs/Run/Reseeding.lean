import Metamatch.Proofs.Run.Meaning
import Metamatch.Proofs.Run.Returning
import Metamatch.Proofs.Saved

/-!
# Sessions that take over their own result

A session that takes over what it has found out before comes to the same, although it searches for
less and may leave out more.

* `Session.Finished.keyed?_eq`: reports by key, if no two matchers have the same one.
* `Session.Reseeds`: a session that takes over what the same matchers have come to.
* `Session.Reseeds.values_eq`: it comes to the same once more.
* `reports_of_reseeded`: what that means for the reports.
-/

namespace Metamatch

variable {σ : Type}

/-! ## Reports by key -/

/-- No two matchers have the same key. -/
def Graph.KeysDistinct (g : Graph) : Prop := (g.nodes.filterMap (·.key)).Nodup

instance (g : Graph) : Decidable g.KeysDistinct := inferInstanceAs (Decidable (List.Nodup _))

theorem MatchResult.Tells.map_key {prune : Bool} {result : MatchResult} {g : Graph}
    (h : result.Tells prune g) : result.reports.map (·.key) = g.nodes.map (·.key) := by
  rw [← List.forall₂_eq_eq_eq, List.forall₂_map_left_iff, List.forall₂_map_right_iff]
  exact List.Forall₂.imp (fun _ _ htells => htells.key) h

namespace Session

variable {session session' : Session} {host : Host σ} {world world' : σ}
  {arrange arrange' : List Slot → List Slot} {lists : List (List String)}
  {ground ground' : Ground} {pub pub' : Publications} {result result' : MatchResult}
  {p p' : Progress σ} {m : Slot}

namespace Finished

theorem outcome?_eq
    (h : session.Finished (session.context arrange lists host) world ground pub result p)
    (hm : session.Unpruned host world m) : result.outcome? m = some
      (if pub m = none then .unresolved else if pub.values m = [] then .missed else .resolved) := by
  cases hp : pub m with
  | none => rw [h.outcome?_of_unpublished hm.1 hp, if_pos hm, if_pos rfl]
  | some published =>
    rw [h.outcome?_of_published hp, if_neg (Option.some_ne_none _), Publications.values, hp]
    rfl

/-- What a report offers is published. -/
theorem published_of_offers
    (h : session.Finished (session.context arrange lists host) world ground pub result p)
    {report : Report} (hreport : result.report? m = some report) {kind : Kind}
    (hoffers : report.offers kind = true) : pub m ≠ none ∧ pub.values m = report.values := by
  have hvalues : result.values m = report.values := by
    rw [MatchResult.values, hreport]
    rfl
  refine ⟨fun hnone => ?_, (h.values_eq m).symm.trans hvalues⟩
  have houtcome : result.outcome? m = some .resolved := by
    rw [MatchResult.outcome?, hreport]
    simp only [Report.offers, Bool.and_eq_true, beq_iff_eq] at hoffers
    exact congrArg some hoffers.1.2
  by_cases hsize : m < session.graph.size
  · rw [h.outcome?_of_unpublished hsize hnone] at houtcome
    split_ifs at houtcome <;> cases houtcome
  · rw [h.outcome?_eq_none (Nat.not_lt.1 hsize)] at houtcome
    cases houtcome

theorem map_key {ctx : RunContext σ} (h : session.Finished ctx world ground pub result p) :
    result.reports.map (·.key) = session.graph.nodes.map (·.key) := by
  refine h.tells.map_key.trans (List.ext_getElem? fun m => ?_)
  have hkey : ((ground.after pub).get? m).map (·.key) = (session.graph.get? m).map (·.key) := by
    rw [Ground.get?_after, Option.map_map]
    exact h.grounds.map_get?_eq (·.key) (fun _ _ _ _ => rfl) m
  rwa [List.getElem?_map, List.getElem?_map, h.standing.graph]

theorem keyed?_eq {ctx : RunContext σ} (h : session.Finished ctx world ground pub result p)
    (hkeys : session.graph.KeysDistinct) {node : Node} (hnode : session.graph.get? m = some node)
    {key : String} (hkey : node.key = some key) :
    ∃ report, result.report? m = some report ∧ result.keyed? key = some report := by
  have hnodup : (result.reports.filterMap (·.key)).Nodup := by
    have heq := congrArg (List.filterMap id) h.map_key
    rw [List.filterMap_map, List.filterMap_map] at heq
    exact heq ▸ hkeys
  have hget : (result.report? m).map (·.key) = some (some key) := by
    have heq := congrArg (·[m]?) h.map_key
    simp only [List.getElem?_map] at heq
    rw [MatchResult.report?, heq, ← hkey]
    exact congrArg (Option.map _) hnode
  obtain ⟨report, hreport, hkey'⟩ := Option.map_eq_some_iff.1 hget
  have hmem : report ∈ result.reports := List.mem_of_getElem? hreport
  refine ⟨report, hreport, ?_⟩
  cases hfound : result.keyed? key with
  | none =>
    rw [MatchResult.keyed?_eq, List.find?_eq_none] at hfound
    exact absurd (beq_iff_eq.2 hkey') (hfound report (List.mem_reverse.2 hmem))
  | some other =>
    obtain ⟨hother, hkey''⟩ := MatchResult.mem_of_keyed? hfound
    rw [eq_of_nodup_filterMap hnodup hother hmem hkey'' hkey']

theorem keyed?_eq_none {ctx : RunContext σ} (h : session.Finished ctx world ground pub result p)
    {key : String} (hkey : some key ∉ session.graph.nodes.map (·.key)) :
    result.keyed? key = none := by
  rw [← h.map_key] at hkey
  rw [MatchResult.keyed?_eq, List.find?_eq_none]
  intro report hreport hbeq
  exact hkey (List.mem_map.2 ⟨report, List.mem_reverse.1 hreport, beq_iff_eq.1 hbeq⟩)

end Finished

/-! ## The same matchers once more -/

/-- A session with the same matchers as one that takes nothing over, which takes over nothing but
what is published in a run of that one. -/
structure Reseeds (session session' : Session) (host : Host σ) (world world' : σ)
    (pub : Publications) : Prop where
  graph : session'.graph = session.graph
  config : session'.config = session.config
  seeds : session.seeds host world = []
  taken : ∀ m values, (session'.seeds host world').lookup m = some values →
    pub m ≠ none ∧ pub.values m = values

namespace Reseeds

variable (h : session.Reseeds session' host world world' pub)

include h

theorem dependencies_eq (m : Slot) :
    session.dependencies host world m = session.graph.references m := by
  rw [dependencies, seeded, h.seeds]
  exact if_neg List.not_mem_nil

theorem dependencies_subset (m : Slot) :
    session'.dependencies host world' m ⊆ session.dependencies host world m := by
  rw [h.dependencies_eq, dependencies, h.graph]
  split_ifs
  · exact List.nil_subset _
  · exact List.Subset.refl _

theorem dependencies_of_unseeded (hlookup : (session'.seeds host world').lookup m = none) :
    session'.dependencies host world' m = session.dependencies host world m := by
  have hm : m ∉ session'.seeded host world' := fun hm => lookup_seeds_ne_none.2 hm hlookup
  rw [h.dependencies_eq, dependencies, if_neg hm, h.graph]

theorem unpruned (hg : session.Grounds host world ground)
    (hg' : session'.Grounds host world' ground') (hm : session'.Unpruned host world' m) :
    session.Unpruned host world m := by
  obtain ⟨node, hnode'⟩ := Graph.lt_size_iff.1 hm.1
  have hnode : session.graph.get? m = some node := h.graph ▸ hnode'
  rw [hg'.unpruned_iff hnode', h.config] at hm
  rw [hg.unpruned_iff hnode]
  refine fun hprune => (hm hprune).imp_left ?_
  rintro ⟨k, hk⟩
  exact ⟨k, h.dependencies_subset k hk⟩

theorem equation_eq (hsteady : host.Steady) (hg : session.Grounds host world ground)
    (hg' : session'.Grounds host world' ground') (hm : session'.Unpruned host world' m)
    (hlookup : (session'.seeds host world').lookup m = none) {v v' : Slot → List Entity}
    (hv : ∀ d ∈ session.dependencies host world m, v' d = v d) :
    session'.equation lists host world' v' m = session.equation lists host world v m := by
  obtain ⟨node, hnode⟩ := Graph.lt_size_iff.1 hm.1
  refine hg.equation_congr (ρ := id) hg' hsteady h.config (h.graph ▸ hnode) hnode rfl
    node.constraints.rename_id.symm ?_ hlookup (fun d => ?_) hv
  · rw [h.seeds]
    rfl
  · rw [id, h.dependencies_of_unseeded hlookup]
    simp

variable (hsteady : host.Steady)
  (h₁ : session.Finished (session.context arrange lists host) world ground pub result p)
  (h₂ : session'.Finished (session'.context arrange' lists host) world' ground' pub' result' p')

include hsteady h₁ h₂

/-- What is searched for again comes to the same if its dependencies have come to the same. -/
theorem values_of_unseeded (hm : pub' m ≠ none)
    (hlookup : (session'.seeds host world').lookup m = none)
    (hd : ∀ d ∈ session.dependencies host world m, pub d ≠ none ∧ pub'.values d = pub.values d) :
    pub m ≠ none ∧ pub'.values m = pub.values m := by
  have hg : session.Grounds host world ground := h₁.grounds
  have hg' : session'.Grounds host world' ground' := h₂.grounds
  have hm' : session'.Unpruned host world' m := by
    by_contra hm'
    exact hm (h₂.unpublished hm')
  have hne : pub m ≠ none := by
    refine (h₁.published_iff (h.unpruned hg hg' hm')).2 fun hcycle => ?_
    obtain ⟨d, hdm, hdcycle⟩ := hcycle.exists_dependency
    exact (h₁.published_iff (hg.unpruned hdm)).1 (hd d hdm).1 hdcycle
  have hnil : (session.seeds host world).lookup m = none := by
    rw [h.seeds]
    rfl
  refine ⟨hne, ?_⟩
  rw [h₂.solves_of_unseeded hsteady hlookup hm, h₁.solves_of_unseeded hsteady hnil hne]
  exact h.equation_eq hsteady hg hg' hm' hlookup fun d hdm => (hd d hdm).2

theorem published (hm : pub' m ≠ none) : pub m ≠ none ∧ pub'.values m = pub.values m := by
  have hg' : session'.Grounds host world' ground' := h₂.grounds
  -- along the dependencies, which come to an end, since what is published reaches no cycle
  induction m using (wellFounded_of_not_reachesCycle ground'.fresh_refs.inRange).induction with
  | _ m ih =>
    cases hlookup : (session'.seeds host world').lookup m with
    | some values =>
      obtain ⟨hne, hvalues⟩ := h.taken m values hlookup
      exact ⟨hne, (h₂.values_of_taken hlookup).trans hvalues.symm⟩
    | none =>
      refine h.values_of_unseeded hsteady h₁ h₂ hm hlookup ?_
      rw [← h.dependencies_of_unseeded hlookup, ← hg'.refs_eq]
      exact fun d hd =>
        ih d ⟨hd, h₂.not_reachesCycle hm⟩ (h₂.standing.sound.closed m hm d hd)

/-- **What takes its own values over comes to the same once more.** -/
theorem values_eq (hm : session'.Unpruned host world' m) :
    (pub' m = none ↔ pub m = none) ∧ pub'.values m = pub.values m := by
  by_cases hne : pub' m = none
  · have hcycle : ReachesCycle (session'.dependencies host world') m :=
      not_not.1 fun hcycle => (h₂.published_iff hm).2 hcycle hne
    have hnone : pub m = none := not_not.1 fun hne =>
      (h₁.published_iff (h.unpruned h₁.grounds h₂.grounds hm)).1 hne
        (hcycle.mono h.dependencies_subset)
    rw [Publications.values, Publications.values, hne, hnone]
    exact ⟨.rfl, rfl⟩
  · have hsame := h.published hsteady h₁ h₂ hne
    exact ⟨iff_of_false hne hsame.1, hsame.2⟩

theorem outcome?_eq (hm : session'.Unpruned host world' m) :
    result'.outcome? m = result.outcome? m := by
  obtain ⟨hnone, hvalues⟩ := h.values_eq hsteady h₁ h₂ hm
  rw [h₂.outcome?_eq hm, h₁.outcome?_eq (h.unpruned h₁.grounds h₂.grounds hm), hvalues]
  simp only [hnone]

theorem values_of_outcome (hm : result'.outcome? m ≠ some .pruned) :
    result'.values m = result.values m := by
  rw [h₁.values_eq, h₂.values_eq]
  by_cases hunpruned : session'.Unpruned host world' m
  · exact (h.values_eq hsteady h₁ h₂ hunpruned).2
  · have hnone : pub' m = none := h₂.unpublished hunpruned
    have hsize : session.graph.size ≤ m := by
      by_contra hsize
      rw [h₂.outcome?_of_unpublished (h.graph ▸ Nat.not_le.1 hsize) hnone, if_neg hunpruned] at hm
      exact hm rfl
    have hnone₁ : pub m = none := by
      by_contra hne
      have hlt := h₁.standing.sound.inRange m hne
      rw [h₁.grounds.size_eq] at hlt
      exact Nat.not_lt.2 hsize hlt
    rw [Publications.values, Publications.values, hnone, hnone₁]

theorem keyed?_eq (hkeys : session.graph.KeysDistinct) (key : String) :
    (result'.keyed? key).map (·.outcome) = (result.keyed? key).map (·.outcome) ∧
      result'.get? key = result.get? key := by
  by_cases hkey : some key ∈ session.graph.nodes.map (·.key)
  · obtain ⟨node, hmem, hkey⟩ := List.mem_map.1 hkey
    obtain ⟨m, hnode⟩ := List.mem_iff_getElem?.1 hmem
    have hm : session'.Unpruned host world' m := h₂.grounds.unpruned_of_key
      (h.graph ▸ hnode) (by simp [hkey])
    obtain ⟨report, hreport, hkeyed⟩ := h₁.keyed?_eq hkeys hnode hkey
    obtain ⟨report', hreport', hkeyed'⟩ :=
      h₂.keyed?_eq (h.graph ▸ hkeys) (h.graph ▸ hnode) hkey
    have houtcome := h.outcome?_eq hsteady h₁ h₂ hm
    have hvalues := (h.values_eq hsteady h₁ h₂ hm).2
    rw [MatchResult.outcome?, MatchResult.outcome?, hreport, hreport'] at houtcome
    rw [← h₁.values_eq, ← h₂.values_eq, MatchResult.values, MatchResult.values, hreport,
      hreport'] at hvalues
    rw [MatchResult.get?, MatchResult.get?, hkeyed, hkeyed']
    exact ⟨houtcome, congrArg some hvalues⟩
  · rw [MatchResult.get?, MatchResult.get?, h₁.keyed?_eq_none hkey,
      h₂.keyed?_eq_none (h.graph ▸ hkey)]
    exact ⟨rfl, rfl⟩

end Reseeds

theorem Finished.reseeds {registry : Registry}
    (h : session.Finished (session.context arrange lists host) world ground pub result p)
    (hlast : session.last = none) (hkeys : session.graph.KeysDistinct) (hsteady : host.Steady)
    (hresolver : host.resolver = registry.resolver)
    (hnames : (registry.classes.map (·.name)).Nodup) (hdistinct : registry.Distinct)
    (hnamed : result.Named registry) (world' : σ) :
    session.Reseeds { session with last := some result } host world world' pub where
  graph := rfl
  config := rfl
  seeds := by
    rw [Session.seeds, hlast]
    rfl
  taken m values hlookup := by
    rcases lookup_seeds hsteady { session with last := some result } world' with hok | ⟨hnil, -⟩
    · have hnamed' : ∀ last ∈ { session with last := some result }.last, last.Named registry := by
        simpa using hnamed
      obtain ⟨found, hfound, htaken⟩ :=
        located_of_named hresolver world' hnames hdistinct hnamed' m
      rw [hok m, hlookup, Except.ok.injEq] at hfound
      obtain ⟨_, node, report, ⟨⟩, hnode, hoffer, rfl⟩ := htaken values hfound.symm
      obtain ⟨key, hkey, hkeyed, hoffers⟩ := MatchResult.keyed?_of_offer? hoffer
      obtain ⟨report', hreport, hkeyed'⟩ := h.keyed?_eq hkeys hnode hkey
      cases hkeyed.symm.trans hkeyed'
      exact h.published_of_offers hreport hoffers
    · rw [hnil] at hlookup
      cases hlookup

end Session

/-- **A session that takes its own result over comes to the same**, directly or through the text,
over a registry in which each member has a signature of its own. -/
theorem reports_of_reseeded {session : Session} (hg : session.graph.Built)
    (hlast : session.last = none) (hkeys : session.graph.KeysDistinct) {sources : List Source}
    (hdistinct : (Registry.ofSources sources).Distinct) {host : Host σ}
    (hresolver : host.resolver = (Registry.ofSources sources).resolver)
    {verdict : String → Decision} (hverdict : host.Judges verdict)
    {arrange arrange' : List Slot → List Slot} (harrange : ∀ items, (arrange items).Perm items)
    (harrange' : ∀ items, (arrange' items).Perm items) (lists : List (List String))
    (world world' : σ) :
    ∃ result, (session.execute arrange lists host world).1 = .ok result ∧
      (result.Fits → MatchResult.load? result.save = some result) ∧
      ∀ last, last = result ∨ MatchResult.load? result.save = some last →
        ∃ result', ({ session with last := some last }.execute arrange' lists host world').1 =
            .ok result' ∧
          (∀ key, (result'.keyed? key).map (·.outcome) = (result.keyed? key).map (·.outcome) ∧
            result'.get? key = result.get? key) ∧
          ∀ m, result'.outcome? m ≠ some .pruned → result'.values m = result.values m := by
  have hnames := Registry.nodup_ofSources sources
  have hsteady : host.Steady :=
    (Registry.ofSources sources).steady hresolver (Host.judge_constant hverdict)
  obtain ⟨result, hresult, hnamed⟩ := session.execute_returns hg harrange hresolver hverdict
    hnames hdistinct (by simp [hlast]) lists world
  refine ⟨result, hresult, fun hfits => (result.load?_save result).2 ⟨hfits, rfl⟩, ?_⟩
  intro last hload
  obtain rfl : last = result := hload.elim id fun hload => ((result.load?_save last).1 hload).2
  obtain ⟨result', hresult', -⟩ := { session with last := some last }.execute_returns hg harrange'
    hresolver hverdict hnames hdistinct (by simpa using hnamed) lists world'
  obtain ⟨ground, pub, h₁⟩ := (session.execute_ends hg harrange lists host world).of_ok hresult
  obtain ⟨ground', pub', h₂⟩ := ({ session with last := some last }.execute_ends hg harrange' lists
    host world').of_ok hresult'
  have h := h₁.reseeds hlast hkeys hsteady hresolver hnames hdistinct hnamed world'
  exact ⟨result', hresult', h.keyed?_eq hsteady h₁ h₂ hkeys,
    fun m hm => h.values_of_outcome hsteady h₁ h₂ hm⟩

namespace Sample

/-- A class and its subclass, each with a member. -/
def sources : List Source := [{
  classes := [
    { name := "A", methods := [{ name := "run", returnType := "A" }] },
    { name := "B", superclass := some "A", fields := [{ name := "a", type := "A" }] }] }]

/-- Matchers with keys along a chain, the last of which finds nothing. -/
def keyed : List ClientCall :=
  [.exactClass "A", .all .cls [.superclass 0, .key "subclass"],
    .all .field [.declaringClass 1, .key "field"], .first .cls [.superclass 1, .key "leaf"]]

def keyedSession : Session where
  graph := Graph.afterAll {} keyed
  config := { missPolicy := .forceEmpty }

def keyedHost : Host Nat where
  resolver := (Registry.ofSources sources).resolver

/-- A run of these matchers, with an earlier result or without one. -/
def runKeyed (last : Option MatchResult) : Except RunError MatchResult × Progress Nat :=
  { keyedSession with last }.execute id [["B", "A"]] keyedHost 0

end Sample

/-- The first matcher of the chain is left out once its subclass is taken over. -/
theorem reports_of_keyed :
    ∃ result last result', (Sample.runKeyed none).1 = .ok result ∧
      MatchResult.load? result.save = some last ∧ (Sample.runKeyed (some last)).1 = .ok result' ∧
      (∀ key, (result'.keyed? key).map (·.outcome) = (result.keyed? key).map (·.outcome) ∧
        result'.get? key = result.get? key) ∧
      result.outcome? 0 = some .resolved ∧ result'.outcome? 0 = some .pruned := by
  have hfirst : ∀ result ∈ (Sample.runKeyed none).1.toOption, result.Fits ∧
      result.outcome? 0 = some .resolved ∧
      ∀ result' ∈ (Sample.runKeyed (some result)).1.toOption,
        result'.outcome? 0 = some .pruned := by
    decide +kernel
  obtain ⟨result, hresult, hfits, hagain⟩ := @reports_of_reseeded _ Sample.keyedSession
    (Graph.Built.empty.afterAll (by decide +kernel)) rfl (by decide +kernel) Sample.sources
    (by decide +kernel) Sample.keyedHost rfl (fun _ => .proceed) (fun _ _ => rfl) id id
    (fun items => .refl items) (fun items => .refl items) [["B", "A"]] 0 0
  change (Sample.runKeyed none).1 = .ok result at hresult
  obtain ⟨hfit, houtcome, hrest⟩ := hfirst result (by rw [hresult]; rfl)
  have hload := hfits hfit
  obtain ⟨result', hresult', hkeys, -⟩ := hagain result (.inr hload)
  change (Sample.runKeyed (some result)).1 = .ok result' at hresult'
  exact ⟨result, result, result', hresult, hload, hresult', hkeys, houtcome,
    hrest result' (by rw [hresult']; rfl)⟩

end Metamatch
