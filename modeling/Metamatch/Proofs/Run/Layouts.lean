import Metamatch.Proofs.Determined
import Metamatch.Proofs.Mirror.Layout
import Metamatch.Proofs.Mirror.Run
import Metamatch.Proofs.Run.Calm

/-!
# Layouts of sources

A run over a registry does not depend on how its handles are numbered.

* `Host.mirrors_of_sameContent`: hosts with registries of the same content mirror each other.
* `results_of_layouts`: so do the results of runs over them.
-/

namespace Metamatch

variable {σ τ : Type}

theorem Host.Judges.lockstep {host : Host σ} {host' : Host τ} {verdict : String → Decision}
    (h : host.Judges verdict) (h' : host'.Judges verdict) (message : String) :
    Lockstep (fun _ _ => True) Eq (host.judge message) (host'.judge message) := by
  intro world world' _
  rw [h, h']
  exact ⟨.ok rfl, trivial⟩

theorem Host.mirrors_of_sameContent {sources sources' : List Source}
    (h : Source.SameContent sources sources') {host : Host σ} {host' : Host τ}
    (hresolver : host.resolver = (Registry.ofSources sources).resolver)
    (hresolver' : host'.resolver = (Registry.ofSources sources').resolver)
    {verdict : String → Decision} (hverdict : host.Judges verdict)
    (hverdict' : host'.Judges verdict) (hcalm : host.Crashes fun _ _ => none)
    (hcalm' : host'.Crashes fun _ _ => none) :
    host.Mirrors (Registry.SameName (.ofSources sources) (.ofSources sources')) (fun _ _ => True)
      host' where
  resolver := by
    rw [hresolver, hresolver']
    exact Registry.mirrors_of_sameContent h _
  judge := hverdict.lockstep hverdict'
  calm := hcalm
  calm' := hcalm'
  apart _ _ _ _ _ := trivial
  apart' _ _ _ _ _ := trivial

theorem Host.calm_of_registry {host : Host σ} {registry : Registry}
    (hresolver : host.resolver = registry.resolver) {verdict : String → Decision}
    (hverdict : host.Judges verdict) : host.Calm :=
  Host.Decides.calm (fun message world => ⟨verdict message, hverdict message world⟩) hresolver

/-- **Neither handles nor the layout of sources matter**: runs over two registries whose sources
declare the same come to the same, but for the handles of what they find. -/
theorem results_of_layouts {sources sources' : List Source}
    (hcontent : Source.SameContent sources sources') {session : Session}
    (hg : session.graph.Built) {host : Host σ} {host' : Host τ}
    (hresolver : host.resolver = (Registry.ofSources sources).resolver)
    (hresolver' : host'.resolver = (Registry.ofSources sources').resolver)
    {verdict : String → Decision} (hverdict : host.Judges verdict)
    (hverdict' : host'.Judges verdict) (hcalm : host.Crashes fun _ _ => none)
    (hcalm' : host'.Crashes fun _ _ => none) {arrange : List Slot → List Slot}
    (harrange : ∀ items, (arrange items).Perm items) (world : σ) (world' : τ) :
    ∃ result result',
      (session.execute arrange (Registry.ofSources sources).lists host world).1 = .ok result ∧
      (session.execute arrange (Registry.ofSources sources').lists host' world').1 = .ok result' ∧
      result.Mirrors (Registry.SameName (.ofSources sources) (.ofSources sources')) result' := by
  have hmirrors := Host.mirrors_of_sameContent hcontent hresolver hresolver' hverdict hverdict'
    hcalm hcalm'
  have hgraph : session.graph.Mirrors
      (Registry.SameName (.ofSources sources) (.ofSources sources')) session.graph :=
    hg.fresh.mirrors hg.fresh (fun _ => rfl) (fun _ _ => .refl _) _
  obtain ⟨hagree, -⟩ := Session.execute_mirrors (Registry.sameName_biUnique sources sources')
    hmirrors hgraph rfl rfl (Registry.catalog_of_sameContent hcontent) arrange
    (show True from trivial)
  obtain ⟨result, hresult⟩ := Session.execute_returns_of_calm hg harrange
    (Registry.ofSources sources).lists (Host.calm_of_registry hresolver hverdict) world
  rw [hresult] at hagree
  obtain ⟨result', hresult', hsame⟩ := hagree.exists_ok
  exact ⟨result, result', hresult, hresult', hsame⟩

namespace Sample

/-- A class with a method, and a subclass with two fields of a type that is only mentioned. -/
def declA : ClassDecl where
  name := "A"
  methods := [{ name := "run" }]

def declB : ClassDecl where
  name := "B"
  superclass := some "A"
  fields := [{ name := "first", type := "C" }, { name := "second", type := "A" }]

/-- Both declared by one source. -/
def together : List Source := [{ classes := [declA, declB], unresolvable := ["X", "A"] }]

/-- Each declared by a source of its own, the subclass first. -/
def apart : List Source :=
  [{ classes := [declB], unresolvable := ["A"] }, { classes := [declA], unresolvable := ["X"] }]

theorem sameContent_apart : Source.SameContent together apart where
  classes := .swap declB declA []
  unresolvable name := by simp [together, apart, or_comm]
  nodup := by decide

/-- Matchers for the subclass and for its fields, and one with earlier values. -/
def subclass : List ClientCall :=
  [.exactClass "A", .all .cls [.superclass 0, .key "new"], .first .cls [.superclass 0],
    .all .field [.declaringClass 2, .key "fields"], .all .cls [.superclass 0, .key "kept"]]

/-- A run of the matchers over the registry of some sources. -/
def runOver (sources : List Source) : Except RunError MatchResult × Progress Unit :=
  (session subclass).execute id (Registry.ofSources sources).lists
    { resolver := (Registry.ofSources sources).resolver } ()

end Sample

/-- The handles of the subclass and of its fields differ, and nothing else does. -/
theorem results_of_apart :
    (∃ result result', (Sample.runOver Sample.together).1 = .ok result ∧
      (Sample.runOver Sample.apart).1 = .ok result' ∧
      result.Mirrors (Registry.SameName (.ofSources Sample.together) (.ofSources Sample.apart))
        result') ∧
    (Sample.runOver Sample.together).1.toOption.map (·.reports.map (·.values)) =
      some [[.cls ⟨0⟩], [.cls ⟨1⟩], [.cls ⟨1⟩], [.field ⟨⟨1⟩, 0⟩, .field ⟨⟨1⟩, 1⟩], [.cls ⟨1⟩]] ∧
    (Sample.runOver Sample.apart).1.toOption.map (·.reports.map (·.values)) =
      some [[.cls ⟨1⟩], [.cls ⟨0⟩], [.cls ⟨0⟩], [.field ⟨⟨0⟩, 0⟩, .field ⟨⟨0⟩, 1⟩], [.cls ⟨0⟩]] := by
  refine ⟨?_, by decide +kernel, by decide +kernel⟩
  unfold Sample.runOver
  exact results_of_layouts Sample.sameContent_apart (Sample.built _ (by decide +kernel)) rfl rfl
    (fun _ _ => rfl : Host.Judges _ fun _ => .proceed) (fun _ _ => rfl) (fun _ _ _ => rfl)
    (fun _ _ _ => rfl) (fun _ => .refl _) () ()

end Metamatch
