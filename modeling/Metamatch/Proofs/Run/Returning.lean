import Metamatch.Proofs.Names
import Metamatch.Proofs.Run.Arrangement
import Metamatch.Proofs.Run.Equations

/-!
# Runs that return

With a registry to ask and a policy that never crashes, nothing ends a run before its reports.

* `MatchResult.Named`: a result whose reports name their values as a registry does.
* `Session.located_of_named`: what a session takes over from such a result.
* `Session.execute_returns`: every run returns such a result.
-/

namespace Metamatch

variable {σ : Type}

theorem Host.judge_constant {host : Host σ} {verdict : String → Decision}
    (h : host.Judges verdict) (message : String) : Constant (host.judge message) :=
  fun t u => (h message t).trans (h message u).symm

/-- The reports of a result name their values as a registry does. -/
def MatchResult.Named (registry : Registry) (result : MatchResult) : Prop :=
  ∀ report ∈ result.reports, report.Named registry

namespace Session

variable {registry : Registry} {session : Session} {host : Host σ} {world : σ}

/-- A session takes over the values of reports as they are, if they are located at all. -/
theorem located_of_named (hresolver : host.resolver = registry.resolver) (world : σ)
    (hnames : (registry.classes.map (·.name)).Nodup) (hdistinct : registry.Distinct)
    (hnamed : ∀ last ∈ session.last, last.Named registry) (m : Slot) :
    ∃ found, session.located host world m = .ok found ∧ ∀ values, found = some values →
      ∃ last node report, session.last = some last ∧ session.graph.get? m = some node ∧
        last.offer? node = some report ∧ values = report.values := by
  unfold located Seed.located
  cases hlast : session.last with
  | none => exact ⟨none, rfl, fun _ h => nomatch h⟩
  | some last =>
    rw [Option.elim_some]
    cases hoffer : (session.graph.get? m).bind last.offer? with
    | none => exact ⟨none, rfl, fun _ h => nomatch h⟩
    | some report =>
      obtain ⟨node, hnode, hreport⟩ := Option.bind_eq_some_iff.1 hoffer
      obtain ⟨_, _, hkeyed, _⟩ := MatchResult.keyed?_of_offer? hreport
      have hmem := (MatchResult.mem_of_keyed? hkeyed).1
      have hleads :=
        Registry.relocate_leads (σ := σ) hnames hdistinct (hnamed last hlast report hmem)
      obtain ⟨found, u, hrelocate, hfound⟩ := hleads.returns (t := world) trivial
      refine ⟨found, ?_, fun values hvalues => ⟨last, node, report, rfl, hnode, hreport, ?_⟩⟩
      · rw [hresolver]
        exact congrArg Prod.fst hrelocate
      · exact hfound values hvalues

/-- Nothing goes wrong while values with names are located. -/
theorem gather_returns (hsteady : host.Steady) (hresolver : host.resolver = registry.resolver)
    (hnames : (registry.classes.map (·.name)).Nodup) (hdistinct : registry.Distinct)
    (hnamed : ∀ last ∈ session.last, last.Named registry) {last : MatchResult}
    (hlast : session.last = some last) {payload : Payload} :
    (Seed.gather host.resolver last session.graph session.graph.slots world :
      Except Payload (List (Slot × List Entity)) × σ).1 ≠ .error payload := by
  intro hgather
  have hleads := hsteady.gather_leads world last session.graph session.graph.slots world trivial
  obtain ⟨m, -, hm⟩ := hleads.of_error hgather
  obtain ⟨found, hfound, -⟩ :=
    located_of_named hresolver world hnames hdistinct hnamed m
  rw [located, hlast, Option.elim_some] at hfound
  rw [hfound] at hm
  cases hm

end Session

namespace Run

open Progress (At Stands Twins)

variable {registry : Registry} {ctx : RunContext σ} {start : Graph} {ground : Ground}
  {pub : Publications} {verdict : String → Decision}

theorem reportCrashes_returns (hverdict : ctx.host.Judges verdict) (slot : Slot)
    (payloads : List Payload) :
    Leads (At ctx start ground pub) (adapt .crash (reportCrashes ctx slot payloads))
      (fun _ => At ctx start ground pub) fun (_ : RunError) _ => False := by
  refine adapt_leads (E := fun _ _ => False) ?_ fun _ _ => id
  intro p hp
  exact ((reportCrashes_leads slot payloads).and
    (reportCrashes_since hverdict.decides slot payloads)).weaken (fun _ => id) (fun _ _ h => h.1)
      (fun _ _ h => h.2) p ⟨hp, .refl ctx.host p⟩

theorem sweeps_returns (hctx : ∀ items, (ctx.arrange items).Perm items)
    (hsteady : ctx.host.Steady) (hverdict : ctx.host.Judges verdict)
    (hd : ∀ s ∈ ground.detached, pub s ≠ none) (number fuel : Nat) :
    Leads (At ctx start ground pub) (sweeps ctx number fuel) (fun _ _ => True)
      fun _ _ => False := by
  intro p hp
  have hstands : Stands ctx start ground p verdict pub [] [] p :=
    ⟨hp, [], .refl ctx.host p, rfl, .refl _⟩
  have htwins : Twins ctx ctx.arrange start ground p verdict p p :=
    ⟨pub, [], [], [], [], hstands, hstands, .refl _, .refl _, hd⟩
  obtain ⟨count, q, -, hx, -⟩ :=
    sweeps_abreast hctx hctx hsteady hverdict number fuel p p htwins
  rw [hx]
  trivial

theorem collect_returns (hresolver : ctx.host.resolver = registry.resolver) (count : Nat) :
    Leads (fun _ => True) (collect ctx count) (fun result _ => result.Named registry)
      fun _ _ => False := by
  intro p _
  have hcollect := @collect_eq _ ctx count p
  have hreports := @Registry.reports_leads σ registry ctx.config.pruneUnconsumed 0 p.graph.nodes
  obtain ⟨reports, u, hreports, hnamed⟩ := hreports.returns (t := p.world) trivial
  rw [hresolver, hreports] at hcollect
  revert hcollect
  generalize (collect ctx count p : Except Payload MatchResult × Progress σ) = r
  rcases r with ⟨e | result, q⟩
  · exact fun h => nomatch h
  · intro h
    cases h
    exact hnamed

end Run

namespace Session

open Run
open Progress (At)

variable {registry : Registry} {session : Session} {host : Host σ} {world : σ}
  {arrange : List Slot → List Slot} {lists : List (List String)} {verdict : String → Decision}

/-- **Every run returns**, and names the values that it reports, if nothing but names of the same
registry is taken over. -/
theorem execute_returns (hg : session.graph.Built) (harrange : ∀ items, (arrange items).Perm items)
    (hresolver : host.resolver = registry.resolver) (hverdict : host.Judges verdict)
    (hnames : (registry.classes.map (·.name)).Nodup) (hdistinct : registry.Distinct)
    (hnamed : ∀ last ∈ session.last, last.Named registry) (lists : List (List String))
    (world : σ) :
    ∃ result, (session.execute arrange lists host world).1 = .ok result ∧
      result.Named registry := by
  set ctx := session.context arrange lists host with hctx
  have hsteady : host.Steady := registry.steady hresolver (Host.judge_constant hverdict)
  have hstart : Leads (· = { world, graph := session.graph }) (session.last.forM (seed ctx))
      (fun _ p => ∃ ground, session.Grounds host world ground ∧
        At ctx session.graph ground (session.seedPublications host world) p)
      fun _ _ => False := by
    refine start_leads_of hg (fun last payload ground p hlast hgather _ => ?_)
      fun ground pub slot payloads => reportCrashes_returns hverdict slot payloads
    exact gather_returns hsteady hresolver hnames hdistinct hnamed hlast hgather
  have hresolve : Leads (· = { world, graph := session.graph }) (resolve ctx session.last)
      (fun result _ => result.Named registry) fun _ _ => False := by
    unfold resolve
    refine hstart.bind fun _ p ⟨ground, hground, hp⟩ => ?_
    refine (graph_leads.bind fun g => ?_) p hp
    refine Leads.bind (Q := fun _ _ => True) ?_ fun count => ?_
    · exact (sweeps_returns harrange hsteady hverdict hground.published 1 _).weaken
        (fun _ hp => hp.2) (fun _ _ => id) fun _ _ => id
    · exact adapt_leads (collect_returns hresolver count) fun _ _ => id
  obtain ⟨result, p, hresult, hnamed⟩ := hresolve.returns rfl
  exact ⟨result, congrArg Prod.fst hresult, hnamed⟩

end Session

end Metamatch
