import Metamatch.Proofs.Run.Start
import Metamatch.Proofs.Run.Sweeps

/-!
# Seeding

* `Run.detachAll_leads`, `Run.publishSeeds_leads`: the references given up, then the values
  published.
* `Session.takeOver_leads`: the ground of the sweeps, and what is published on it.
* `Session.start_leads`: it, once the policy has been told of observers that crash.
-/

namespace Metamatch

variable {σ : Type}

namespace Run

open Progress (At Failed)

variable {ctx : RunContext σ} {start : Graph} {ground : Ground} {pub : Publications} {s : Slot}

theorem detach_leads (hs : s ∉ ground.detached) :
    Leads (At ctx start ground fun _ => none) (detach s)
      (fun _ => At ctx start (ground.detach s) fun _ => none) fun _ _ => False := by
  intro p hp
  have hp₀ : p.graph = ground.graph := hp.graph.trans ground.after_none
  have hrefs : ground.refs s = ground.graph.references s := by rw [Ground.refs, if_neg hs]
  have hrange : ∀ d ∈ ground.graph.references s, d < ground.graph.size :=
    fun d hd => ground.fresh_refs.inRange s d (hrefs ▸ hd)
  have hfind : (ground.graph.references s).find? (fun d => decide (ground.graph.size ≤ d)) = none :=
    List.find?_eq_none.2 fun d hd => by simpa using hrange d hd
  simp only [detach, change, hp₀, hfind]
  refine ⟨(ground.detach s).after_none.symm, (ground.detach s).sound_none ctx, ?_, ?_⟩
  · exact ⟨⟨hrange, rfl⟩, hp₀ ▸ hp.recorded⟩
  · refine List.forall_mem_cons.2 ⟨⟨?_, fun node hnode => ?_⟩, hp.safe⟩
    · exact ground.after_none ▸ Ground.balanced_after
    · have := (ground.fresh_refs.node s node hnode).counter
      rw [hrefs] at this
      change (ground.graph.references s).length < node.counter
      omega

theorem detachAll_leads {seeds : List (Slot × List Entity)} (hnodup : (seeds.map Prod.fst).Nodup)
    (hs : ∀ s ∈ seeds.map Prod.fst, s ∉ ground.detached) :
    Leads (At ctx start ground fun _ => none)
      (seeds.forM fun seed => adapt RunError.crash (detach seed.1))
      (fun _ => At ctx start ((seeds.map Prod.fst).foldl Ground.detach ground) fun _ => none)
      fun _ _ => False := by
  induction seeds generalizing ground with
  | nil => exact .pure fun _ hp => hp
  | cons seed rest ih =>
    rw [List.map_cons, List.nodup_cons] at hnodup
    rw [List.map_cons, List.forall_mem_cons] at hs
    refine (adapt_leads (detach_leads hs.1) fun _ _ => id).bind fun _ => ih hnodup.2 ?_
    intro s hmem
    rw [Ground.detach, List.mem_cons, not_or]
    exact ⟨fun h => hnodup.1 (h ▸ hmem), hs.2 s hmem⟩

/-! ## Publication of seeds -/

theorem publishSeeds_leads {seeds : List (Slot × List Entity)}
    (hnodup : (seeds.map Prod.fst).Nodup)
    (hs : ∀ s ∈ seeds.map Prod.fst, s < ground.graph.size ∧ pub s = none ∧ s ∈ ground.detached) :
    Leads (At ctx start ground pub) (publishSeeds ctx seeds)
      (fun _ => At ctx start ground fun m => ((seeds.lookup m).map (⟨·, 0⟩)).or (pub m))
      fun _ _ => False := by
  induction seeds generalizing pub with
  | nil => exact .pure fun p hp => by simpa using hp
  | cons seed rest ih =>
    obtain ⟨s, values⟩ := seed
    rw [List.map_cons, List.nodup_cons] at hnodup
    rw [List.map_cons, List.forall_mem_cons] at hs
    obtain ⟨⟨hsize, hpub, hd⟩, hs⟩ := hs
    have hready : ground.Ready pub s := ⟨hsize, hpub, by simp [Ground.refs, hd]⟩
    have hs₁ : ∀ t ∈ rest.map Prod.fst,
        t < ground.graph.size ∧ pub.add s values 0 t = none ∧ t ∈ ground.detached := by
      intro t ht
      obtain ⟨hsize, hpub, hd⟩ := hs t ht
      have hts : t ≠ s := fun h => hnodup.1 (by rwa [← h])
      exact ⟨hsize, by rwa [Ground.add_of_ne hts], hd⟩
    unfold publishSeeds
    refine (publish_leads hready fun h => absurd hd h).bind fun crashes => ?_
    refine (ih hnodup.2 hs₁).bind fun others => .pure fun p hp => ?_
    convert hp using 2
    rename_i m
    rw [List.lookup_cons]
    by_cases hm : m = s
    · subst hm
      have hlookup : rest.lookup m = none :=
        List.lookup_eq_none_iff.2 fun seed hmem =>
          bne_iff_ne.2 fun h => hnodup.1 (List.mem_map.2 ⟨seed, hmem, h.symm⟩)
      simp [hlookup, Ground.add_self]
    · simp [beq_false_of_ne hm, Ground.add_of_ne hm]

end Run

/-! ## The start of the sweeps -/

namespace Session

open Run
open Progress (At Failed)

variable {session : Session} {host : Host σ} {world : σ} {arrange : List Slot → List Slot}
  {lists : List (List String)}

theorem publishAll_leads {ctx : RunContext σ} (hg : session.graph.Built)
    {seeds : List (Slot × List Entity)}
    (hseeds : Seed.Gathered session.graph session.graph.slots seeds) :
    Leads (At ctx session.graph (.ofBuilt hg) fun _ => none)
      (do
        seeds.forM fun seed => adapt RunError.crash (detach seed.1)
        adapt .session (publishSeeds ctx seeds))
      (fun _ => At ctx session.graph ((seeds.map Prod.fst).foldl Ground.detach (.ofBuilt hg))
        fun m => (seeds.lookup m).map (⟨·, 0⟩))
      fun _ _ => False := by
  set ground := (seeds.map Prod.fst).foldl Ground.detach (.ofBuilt hg) with hground
  have hnodup := hseeds.1.nodup List.nodup_range
  have hslots : ∀ s ∈ seeds.map Prod.fst,
      s < ground.graph.size ∧ (none : Option Published) = none ∧ s ∈ ground.detached := by
    intro s hs
    rw [hground, Ground.graph_detachAll, Graph.foldl_eq Graph.size fun g s => g.size_detach s]
    exact ⟨List.mem_range.1 (hseeds.1.subset hs), rfl, Ground.mem_detachAll.2 (.inl hs)⟩
  have hpublish : Leads (At ctx session.graph ground fun _ => none) (publishSeeds ctx seeds)
      (fun _ => At ctx session.graph ground fun m => ((seeds.lookup m).map (⟨·, 0⟩)).or none)
      fun _ _ => False := publishSeeds_leads hnodup hslots
  simp only [Option.or_none] at hpublish
  refine (detachAll_leads hnodup fun _ _ => List.not_mem_nil).bind fun _ => ?_
  exact adapt_leads hpublish fun _ _ => id

theorem locate_leads {ctx : RunContext σ} {ground : Ground} {last : MatchResult}
    (hlast : session.last = some last)
    (hat : ∀ world, At ctx session.graph ground (fun _ => none) { world, graph := session.graph })
    {E : RunError → Progress σ → Prop}
    (hcrash : ∀ payload p, (Seed.gather host.resolver last session.graph session.graph.slots world :
        Except Payload (List (Slot × List Entity)) × σ).1 = .error payload →
      At ctx session.graph ground (fun _ => none) p → E (.crash payload) p) :
    Leads (· = { world, graph := session.graph })
      (adapt .crash (ask (Seed.gather host.resolver last session.graph session.graph.slots)))
      (fun seeds p => seeds = session.seeds host world ∧
        At ctx session.graph ground (fun _ => none) p)
      E := by
  have hask : Leads (· = { world, graph := session.graph })
      (ask (Seed.gather host.resolver last session.graph session.graph.slots))
      (fun seeds p => seeds = session.seeds host world ∧
        At ctx session.graph ground (fun _ => none) p)
      fun payload p => E (.crash payload) p := by
    rintro p rfl
    refine ask_ends ((Ends.self _).mono (fun seeds u hseeds => ⟨?_, hat u⟩)
      fun payload u hpayload => hcrash payload _ (congrArg Prod.fst hpayload) (hat u))
    rw [Session.seeds, hlast, Option.elim_some, hseeds]
    rfl
  exact adapt_leads hask fun _ _ => id

theorem takeOver_leads (hg : session.graph.Built) {last : MatchResult}
    (hlast : session.last = some last) {E : RunError → Progress σ → Prop}
    (hcrash : ∀ payload ground p,
      (Seed.gather host.resolver last session.graph session.graph.slots world :
        Except Payload (List (Slot × List Entity)) × σ).1 = .error payload →
      At (session.context arrange lists host) session.graph ground (fun _ => none) p →
        E (.crash payload) p) :
    Leads (· = { world, graph := session.graph })
      (takeOver (session.context arrange lists host) last)
      (fun _ p => ∃ ground, session.Grounds host world ground ∧
        At (session.context arrange lists host) session.graph ground
          (session.seedPublications host world) p)
      E := by
  set ctx := session.context arrange lists host
  let ground := Ground.ofBuilt hg
  have hat : ∀ world, At ctx session.graph ground (fun _ => none)
      { world, graph := session.graph } := fun world =>
    ⟨ground.after_none.symm, ground.sound_none ctx, rfl, by simp⟩
  unfold takeOver
  refine graph_leads.bind fun g => ?_
  rintro p ⟨hgraph, hp⟩
  rw [hgraph, hp]
  refine ((locate_leads hlast hat fun payload p => hcrash payload ground p).bind
    fun seeds => ?_) _ rfl
  rintro p ⟨rfl, hp⟩
  exact ((publishAll_leads hg (session.gathered host world)).weaken (fun _ => id)
    (fun _ p hp => ⟨_, session.grounds hg host world, hp⟩) fun _ _ => False.elim) p hp

/-- The sweeps start on the ground of the session, with the values taken over published. Only a
crash while these are located and the verdicts on observers that crash may come before. -/
theorem start_leads_of (hg : session.graph.Built) {E : RunError → Progress σ → Prop}
    (hcrash : ∀ last payload ground p, session.last = some last →
      (Seed.gather host.resolver last session.graph session.graph.slots world :
        Except Payload (List (Slot × List Entity)) × σ).1 = .error payload →
      At (session.context arrange lists host) session.graph ground (fun _ => none) p →
        E (.crash payload) p)
    (hreport : ∀ ground pub slot payloads,
      Leads (At (session.context arrange lists host) session.graph ground pub)
        (adapt .crash (reportCrashes (session.context arrange lists host) slot payloads))
        (fun _ => At (session.context arrange lists host) session.graph ground pub) E) :
    Leads (· = { world, graph := session.graph })
      (session.last.forM (seed (session.context arrange lists host)))
      (fun _ p => ∃ ground, session.Grounds host world ground ∧
        At (session.context arrange lists host) session.graph ground
          (session.seedPublications host world) p)
      E := by
  set ctx := session.context arrange lists host
  cases hlast : session.last with
  | none =>
    have hseeds : session.seeds host world = [] := by rw [seeds, hlast]; rfl
    have hpub : session.seedPublications host world = fun _ => none := by
      funext m
      rw [seedPublications, hseeds]
      rfl
    have hground := session.grounds hg host world
    rw [seeded, hseeds] at hground
    let ground := Ground.ofBuilt hg
    refine .pure fun p hp => ⟨ground, hground, ?_⟩
    rw [hp, hpub]
    exact ⟨ground.after_none.symm, ground.sound_none ctx, rfl, by simp⟩
  | some last =>
    change Leads _ (seed ctx last) _ _
    unfold seed
    refine (takeOver_leads hg hlast fun payload ground p => hcrash last payload ground p hlast).bind
      fun crashes => ?_
    rintro p ⟨ground, hground, hp⟩
    exact (Leads.forM fun crash _ => hreport ground _ crash.1 crash.2).weaken (fun _ => id)
      (fun _ p hp => ⟨ground, hground, hp⟩) (fun _ _ => id) p hp

/-- **The sweeps start on the ground of the session**, with the values taken over published. -/
theorem start_leads (hg : session.graph.Built) :
    Leads (· = { world, graph := session.graph })
      (session.last.forM (seed (session.context arrange lists host)))
      (fun _ p => ∃ ground, session.Grounds host world ground ∧
        At (session.context arrange lists host) session.graph ground
          (session.seedPublications host world) p)
      (Failed (session.context arrange lists host) session.graph) :=
  start_leads_of hg
    (fun _ payload ground _ _ _ hp => ⟨⟨payload, rfl⟩, ground, _, hp⟩)
    fun _ _ slot payloads => crash_leads (reportCrashes_leads slot payloads)

end Session

end Metamatch
