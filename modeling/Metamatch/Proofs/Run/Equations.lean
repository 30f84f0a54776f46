import Mathlib.Data.Fintype.EquivFin
import Mathlib.Order.RelClasses
import Metamatch.Proofs.Run.Schedule
import Metamatch.Proofs.Run.Start
import Metamatch.Proofs.Steady

/-!
# The equations of a session

What a session finds out can be told without sweeps: the values of every matcher are given by those
of its dependencies, through equations that have one solution if no matcher depends on itself.

* `Session.Solves`: the equations, one for each matcher that is not left out.
* `Session.Renumbered`: the same session, with its matchers made in another order.
* `Session.Solves.unique`: solutions are the same by whatever numbers.
-/

namespace Metamatch

variable {σ : Type}

/-- The graph with values for every slot. -/
def Graph.fill (g : Graph) (v : Slot → List Entity) : Graph :=
  ⟨g.nodes.mapIdx fun s node => { node with published := some ⟨v s, 0⟩ }⟩

theorem Graph.valuation_fill {g : Graph} {v : Slot → List Entity} {s : Slot} (hs : s < g.size) :
    (g.fill v).valuation s = some (v s) := by
  obtain ⟨node, hnode⟩ := Graph.lt_size_iff.1 hs
  rw [Graph.get?] at hnode
  simp [Graph.valuation_eq, Graph.get?, Graph.fill, hnode]

namespace Session

variable (session : Session) (lists : List (List String)) (host : Host σ) (world : σ)

/-- There is such a matcher, and a run does not leave it out. -/
def Unpruned (m : Slot) : Prop :=
  m < session.graph.size ∧
    ¬ (session.seededGraph host world).Pruned session.config.pruneUnconsumed m

instance (m : Slot) : Decidable (session.Unpruned host world m) :=
  inferInstanceAs (Decidable (_ ∧ _))

/-- No matcher depends on itself, directly or through others, once values are taken over. -/
def Acyclic : Prop :=
  ∀ m, ¬ Relation.TransGen (fun d m => d ∈ session.dependencies host world m) m m

/-- The candidates that a matcher accepts, given the values of all slots; none if the scan fails.
The slot under which the scan records failures does not matter, so it is left at 0. -/
def scanned (v : Slot → List Entity) (node : Node) : List Entity :=
  (Run.scan (session.context id lists host) ((session.seededGraph host world).fill v) 0 node
    ⟨world, []⟩ : Except TaskError (List Entity) × Trace σ).1.toOption.getD []

/-- The values of a matcher, given those of its dependencies: the located ones if it takes values
over; none if the policy on misses is `forceEmpty` and a dependency has none; else those that its
scan finds. -/
def equation (v : Slot → List Entity) (m : Slot) : List Entity :=
  match (session.seeds host world).lookup m with
  | some values => values
  | none =>
    if session.config.missPolicy = .forceEmpty ∧
        ∃ d ∈ session.dependencies host world m, v d = [] then []
    else ((session.seededGraph host world).get? m).elim []
      (session.scanned lists host world v)

/-- The values of the matchers that are not left out agree with the equations. -/
def Solves (v : Slot → List Entity) : Prop :=
  ∀ m, session.Unpruned host world m → v m = session.equation lists host world v m

variable {session host world}

/-! ## Dependencies -/

theorem wellFounded_of_acyclic {dependencies : Slot → List Slot} {n : Nat}
    (hrange : ∀ m, ∀ d ∈ dependencies m, d < n)
    (hacyclic : ∀ m, ¬ Relation.TransGen (fun d m => d ∈ dependencies m) m m) :
    WellFounded fun d m => d ∈ dependencies m := by
  let before (d m : Fin n) : Prop :=
    Relation.TransGen (fun d m => d ∈ dependencies m) (d : Slot) (m : Slot)
  have : IsTrans (Fin n) before := ⟨fun _ _ _ => Relation.TransGen.trans⟩
  have : Std.Irrefl before := ⟨fun m => hacyclic m⟩
  have hwf : WellFounded before := Finite.wellFounded_of_trans_of_irrefl _
  have hacc : ∀ m : Fin n, Acc (fun d m => d ∈ dependencies m) (m : Slot) := by
    intro m
    induction m using hwf.induction with
    | _ m ih => exact .intro _ fun d hd => ih ⟨d, hrange m d hd⟩ (.single hd)
  exact ⟨fun m => .intro m fun d hd => hacc ⟨d, hrange m d hd⟩⟩

/-- Matchers that refer only to earlier ones do not depend on themselves. -/
theorem acyclic_of_lt (h : ∀ m, ∀ d ∈ session.dependencies host world m, d < m) :
    session.Acyclic host world := by
  intro m hm
  have hlt : Relation.TransGen (· < ·) m m := hm.lift id fun d m => h m d
  rw [Relation.transGen_eq_self] at hlt
  exact Nat.lt_irrefl m hlt

theorem dependencies_of_get? {m : Slot} {node : Node}
    (hlookup : (session.seeds host world).lookup m = none)
    (hnode : session.graph.get? m = some node) :
    session.dependencies host world m = node.constraints.references := by
  have hm : m ∉ session.seeded host world := fun hm => lookup_seeds_ne_none.2 hm hlookup
  rw [dependencies, if_neg hm, Graph.references_of_get? hnode]

namespace Grounds

variable {ground : Ground} {m d : Slot} {node : Node} {v : Slot → List Entity}

theorem wellFounded (h : session.Grounds host world ground)
    (hacyclic : session.Acyclic host world) :
    WellFounded fun d m => d ∈ session.dependencies host world m :=
  wellFounded_of_acyclic (fun m d hd => ground.fresh_refs.inRange m d (h.refs_eq ▸ hd)) hacyclic

theorem valuation_fill (h : session.Grounds host world ground)
    (hd : d ∈ session.dependencies host world m) :
    ((session.seededGraph host world).fill v).valuation d = some (v d) :=
  h.graph ▸ Graph.valuation_fill (ground.fresh_refs.inRange m d (h.refs_eq ▸ hd))

theorem not_detached (h : session.Grounds host world ground)
    (hlookup : (session.seeds host world).lookup m = none) : m ∉ ground.detached := by
  rw [h.detached, ← lookup_seeds_ne_none, hlookup]
  exact fun hne => hne rfl

theorem get?_eq_none (h : session.Grounds host world ground)
    (hnone : session.graph.get? m = none) : ground.graph.get? m = none := by
  have hmap := h.map_get?_eq (fun _ => ()) (fun _ _ _ _ => rfl) m
  rwa [hnone, Option.map_none, Option.map_eq_none_iff] at hmap

theorem exists_node (h : session.Grounds host world ground)
    (hnode : session.graph.get? m = some node) : ∃ fresh, ground.graph.get? m = some fresh ∧
      fresh.kind = node.kind ∧ fresh.constraints = node.constraints ∧ fresh.key = node.key ∧
      (fresh.Observed ↔ node.Observed) := by
  obtain ⟨fresh, hfresh⟩ := Graph.lt_size_iff.1 (h.size_eq.symm ▸ Graph.lt_size hnode)
  have hfields := h.map_get?_eq (fun node => (node.kind, node.constraints, node.key))
    (fun _ _ _ _ => rfl) m
  have hobserved := h.map_get?_observed m
  rw [hfresh, hnode, Option.map_some, Option.map_some, Option.some.injEq] at hfields hobserved
  simp only [Prod.mk.injEq] at hfields
  exact ⟨fresh, hfresh, hfields.1, hfields.2.1, hfields.2.2, iff_of_eq hobserved⟩

theorem unpruned_iff_node (h : session.Grounds host world ground)
    (hnode : ground.graph.get? m = some node) :
    session.Unpruned host world m ↔ node.isPruned session.config.pruneUnconsumed = false := by
  have hsize : m < session.graph.size := h.size_eq ▸ Graph.lt_size hnode
  rw [Unpruned, ← h.graph, Graph.Pruned, hnode, Option.any_some, Bool.not_eq_true]
  simp only [hsize, true_and]

theorem unpruned_iff_fresh (h : session.Grounds host world ground)
    (hnode : ground.graph.get? m = some node) :
    session.Unpruned host world m ↔ (session.config.pruneUnconsumed = true →
      (∃ k, m ∈ session.dependencies host world k) ∨ node.Observed ∨ node.key ≠ none) := by
  have hpending := ground.fresh_refs.pending_iff hnode
  rw [h.refs_eq] at hpending
  rw [h.unpruned_iff_node hnode, ← Bool.not_eq_true, Node.isPruned, Bool.and_eq_true, hpending]
  simp only [not_and_or, not_forall, not_not, imp_iff_not_or]

theorem unpruned_iff (h : session.Grounds host world ground)
    (hnode : session.graph.get? m = some node) :
    session.Unpruned host world m ↔ (session.config.pruneUnconsumed = true →
      (∃ k, m ∈ session.dependencies host world k) ∨ node.Observed ∨ node.key ≠ none) := by
  obtain ⟨fresh, hfresh, -, -, hkey, hobserved⟩ := h.exists_node hnode
  rw [h.unpruned_iff_fresh hfresh, hkey, hobserved]

theorem unpruned (h : session.Grounds host world ground)
    (hd : d ∈ session.dependencies host world m) : session.Unpruned host world d := by
  have hsize := ground.fresh_refs.inRange m d (h.refs_eq ▸ hd)
  obtain ⟨node, hnode⟩ := Graph.lt_size_iff.1 (h.size_eq ▸ hsize)
  exact (h.unpruned_iff hnode).2 fun _ => .inl ⟨m, hd⟩

theorem unpruned_of_key (h : session.Grounds host world ground)
    (hnode : session.graph.get? m = some node) (hkey : node.key ≠ none) :
    session.Unpruned host world m :=
  (h.unpruned_iff hnode).2 fun _ => .inr (.inr hkey)

end Grounds

/-! ## Other numbers -/

end Session

/-- The same matcher in a session with other numbers, and an observer here if there is one there. -/
structure Node.Renumbered (π : Slot → Slot) (node node' : Node) : Prop where
  kind : node'.kind = node.kind
  constraints : node'.constraints = node.constraints.rename π
  key : node'.key = node.key
  observed : node'.Observed ↔ node.Observed

/-- The same session with its matchers made in another order: what has the number `m` here has the
number `π m` there. -/
structure Session.Renumbered (π : Equiv.Perm Slot) (session session' : Session) : Prop where
  config : session'.config = session.config
  last : session'.last = session.last
  node : ∀ m, Option.Rel (Node.Renumbered π) (session.graph.get? m) (session'.graph.get? (π m))

namespace Session

variable {session session' : Session} {host : Host σ} {world : σ} {π : Equiv.Perm Slot}
  {ground ground' : Ground} {m d : Slot} {node node' : Node}

theorem Renumbered.refl (session : Session) : session.Renumbered (Equiv.refl Slot) session where
  config := rfl
  last := rfl
  node m := by
    rw [Equiv.refl_apply]
    cases session.graph.get? m with
    | none => exact .none
    | some node => exact .some ⟨rfl, node.constraints.rename_id.symm, rfl, Iff.rfl⟩

theorem Renumbered.mem_references (h : session.Renumbered π session') :
    d ∈ session'.graph.references (π m) ↔ ∃ s ∈ session.graph.references m, π s = d := by
  have hnode := h.node m
  rw [Graph.references, Graph.references]
  revert hnode
  generalize session.graph.get? m = node
  generalize session'.graph.get? (π m) = node'
  rintro (hnode | _)
  · rw [Option.elim_some, Option.elim_some, hnode.constraints, Constraints.mem_references_rename]
  · simp

theorem Renumbered.get? (h : session.Renumbered π session')
    (hnode : session.graph.get? m = some node) :
    ∃ node', session'.graph.get? (π m) = some node' ∧ node.Renumbered π node' := by
  have hrel := h.node m
  rw [hnode] at hrel
  cases hnode' : session'.graph.get? (π m) with
  | none => rw [hnode'] at hrel; cases hrel
  | some node' =>
    rw [hnode'] at hrel
    cases hrel with
    | some hr => exact ⟨node', rfl, hr⟩

/-! ## Values taken over -/

/-- What is located for a matcher in the earlier result of its session. -/
def located (session : Session) (host : Host σ) (world : σ) (m : Slot) :
    Except Payload (Option (List Entity)) :=
  session.last.elim (.ok none) fun last => Seed.located host.resolver world last session.graph m

theorem lookup_seeds (hsteady : host.Steady) (session : Session) (world : σ) :
    (∀ m, session.located host world m = .ok ((session.seeds host world).lookup m)) ∨
      session.seeds host world = [] ∧ ∃ m, (session.located host world m).toOption = none := by
  unfold located seeds
  cases session.last with
  | none => exact .inl fun _ => rfl
  | some last =>
    have h := hsteady.gather_leads world last session.graph session.graph.slots world trivial
    revert h
    simp only [Option.elim_some]
    generalize (Seed.gather host.resolver last session.graph session.graph.slots world :
      Except Payload (List (Slot × List Entity)) × σ) = r
    rcases r with ⟨e | seeds, u⟩
    · exact fun ⟨m, _, hm⟩ => .inr ⟨rfl, m, hm⟩
    · intro h
      refine .inl fun m => ?_
      by_cases hm : m ∈ session.graph.slots
      · exact h.taken m hm
      · have hnone : session.graph.get? m = none :=
          Graph.get?_eq_none (Nat.not_lt.1 fun hlt => hm (List.mem_range.2 hlt))
        change _ = Except.ok (seeds.lookup m)
        rw [h.other m hm, Seed.located, hnone]
        rfl

theorem Renumbered.located_eq (h : session.Renumbered π session') (m : Slot) :
    session'.located host world (π m) = session.located host world m := by
  unfold located Seed.located
  rw [h.last]
  cases session.last with
  | none => rfl
  | some last =>
    have hoffer : (session'.graph.get? (π m)).bind last.offer? =
        (session.graph.get? m).bind last.offer? := by
      have hnode := h.node m
      revert hnode
      generalize session.graph.get? m = node
      generalize session'.graph.get? (π m) = node'
      rintro (hnode | _)
      · simp only [Option.bind_some, MatchResult.offer?, hnode.key, hnode.kind]
      · rfl
    simp only [Option.elim_some, hoffer]

theorem Renumbered.lookup_seeds_eq (h : session.Renumbered π session') (hsteady : host.Steady)
    (m : Slot) :
    (session'.seeds host world).lookup (π m) = (session.seeds host world).lookup m := by
  rcases lookup_seeds hsteady session world with hok | ⟨hnil, s, hs⟩
  · rcases lookup_seeds hsteady session' world with hok' | ⟨-, s', hs'⟩
    · have := hok' (π m)
      rw [h.located_eq, hok m, Except.ok.injEq] at this
      exact this.symm
    · rw [← π.apply_symm_apply s', h.located_eq, hok] at hs'
      cases hs'
  · rcases lookup_seeds hsteady session' world with hok' | ⟨hnil', -⟩
    · rw [← h.located_eq, hok'] at hs
      cases hs
    · rw [hnil, hnil']
      rfl

theorem Renumbered.mem_dependencies (h : session.Renumbered π session') (hsteady : host.Steady) :
    d ∈ session'.dependencies host world (π m) ↔
      ∃ s ∈ session.dependencies host world m, π s = d := by
  have hseeded : π m ∈ session'.seeded host world ↔ m ∈ session.seeded host world := by
    rw [← lookup_seeds_ne_none, ← lookup_seeds_ne_none, h.lookup_seeds_eq hsteady]
  unfold dependencies
  simp only [hseeded]
  split
  · simp
  · exact h.mem_references

/-! ## The same solution -/

theorem Renumbered.unpruned (h : session.Renumbered π session') (hsteady : host.Steady)
    (hg : session.Grounds host world ground) (hg' : session'.Grounds host world ground')
    (hm : session.Unpruned host world m) : session'.Unpruned host world (π m) := by
  obtain ⟨node, hnode⟩ := Graph.lt_size_iff.1 hm.1
  obtain ⟨node', hnode', hr⟩ := h.get? hnode
  rw [hg.unpruned_iff hnode] at hm
  rw [hg'.unpruned_iff hnode', h.config, hr.observed, hr.key]
  refine fun hprune => (hm hprune).imp_left ?_
  rintro ⟨k, hk⟩
  exact ⟨π k, (h.mem_dependencies hsteady).2 ⟨m, hk, rfl⟩⟩

variable {world' : σ} {lists : List (List String)} {v v' : Slot → List Entity}

theorem scanned_rename {ρ : Slot → Slot} (hsteady : host.Steady)
    (hconfig : session'.config = session.config) (hkind : node'.kind = node.kind)
    (hconstraints : node'.constraints = node.constraints.rename ρ)
    (hshares : Graph.Shares ρ ((session.seededGraph host world).fill v)
      ((session'.seededGraph host world').fill v') node.constraints.references) :
    session'.scanned lists host world' v' node' = session.scanned lists host world v node := by
  have hcontext : session'.context id lists host = session.context id lists host := by
    rw [context, context, hconfig]
  have halike : Constant (Run.scan (session.context id lists host)
      ((session'.seededGraph host world').fill v') 0 node') := hsteady.scan_alike 0 0 node'
  rw [scanned, scanned, hcontext, Run.scan_rename _ hkind hconstraints hshares]
  exact congrArg (fun outcome => (Except.toOption outcome).getD []) (halike _ _)

theorem Grounds.equation_of_get? (h : session.Grounds host world ground)
    (hnode : session.graph.get? m = some node)
    (hlookup : (session.seeds host world).lookup m = none) :
    session.equation lists host world v m =
      if session.config.missPolicy = .forceEmpty ∧
          ∃ d ∈ session.dependencies host world m, v d = [] then []
      else session.scanned lists host world v node := by
  obtain ⟨fresh, hfresh, hkind, hconstraints, -, -⟩ := h.exists_node hnode
  have hscanned : session.scanned lists host world v fresh =
      session.scanned lists host world v node := by
    unfold scanned Run.scan
    rw [hkind, hconstraints]
  rw [equation, hlookup, ← h.graph, hfresh]
  dsimp only [Option.elim_some]
  rw [hscanned]

/-- An equation asks for nothing but the constraints of its matcher and the values of the
dependencies, by whatever numbers. -/
theorem Grounds.equation_congr {ρ : Slot → Slot} (hg : session.Grounds host world ground)
    (hg' : session'.Grounds host world' ground') (hsteady : host.Steady)
    (hconfig : session'.config = session.config) (hnode : session.graph.get? m = some node)
    (hnode' : session'.graph.get? (ρ m) = some node') (hkind : node'.kind = node.kind)
    (hconstraints : node'.constraints = node.constraints.rename ρ)
    (hlookup : (session.seeds host world).lookup m = none)
    (hlookup' : (session'.seeds host world').lookup (ρ m) = none)
    (hdependencies : ∀ d, d ∈ session'.dependencies host world' (ρ m) ↔
      ∃ s ∈ session.dependencies host world m, ρ s = d)
    (hv : ∀ d ∈ session.dependencies host world m, v' (ρ d) = v d) :
    session'.equation lists host world' v' (ρ m) = session.equation lists host world v m := by
  have hmissed : (∃ d ∈ session'.dependencies host world' (ρ m), v' d = []) ↔
      ∃ d ∈ session.dependencies host world m, v d = [] := by
    simp only [hdependencies]
    constructor
    · rintro ⟨_, ⟨d, hd, rfl⟩, hmiss⟩
      exact ⟨d, hd, (hv d hd).symm.trans hmiss⟩
    · rintro ⟨d, hd, hmiss⟩
      exact ⟨ρ d, ⟨d, hd, rfl⟩, (hv d hd).trans hmiss⟩
  have hshares : Graph.Shares ρ ((session.seededGraph host world).fill v)
      ((session'.seededGraph host world').fill v') node.constraints.references := by
    rw [← dependencies_of_get? hlookup hnode]
    intro d hd
    have hd' : ρ d ∈ session'.dependencies host world' (ρ m) :=
      (hdependencies (ρ d)).2 ⟨d, hd, rfl⟩
    exact ⟨v d, hg.valuation_fill hd, hv d hd ▸ hg'.valuation_fill hd'⟩
  rw [hg.equation_of_get? hnode hlookup, hg'.equation_of_get? hnode' hlookup', hconfig,
    scanned_rename hsteady hconfig hkind hconstraints hshares]
  simp only [hmissed]

theorem Renumbered.equation_eq (h : session.Renumbered π session') (hsteady : host.Steady)
    (hg : session.Grounds host world ground) (hg' : session'.Grounds host world ground')
    (hm : session.Unpruned host world m)
    (hv : ∀ d ∈ session.dependencies host world m, v' (π d) = v d) :
    session'.equation lists host world v' (π m) = session.equation lists host world v m := by
  obtain ⟨node, hnode⟩ := Graph.lt_size_iff.1 hm.1
  obtain ⟨node', hnode', hr⟩ := h.get? hnode
  have hsame : (session'.seeds host world).lookup (π m) = (session.seeds host world).lookup m :=
    h.lookup_seeds_eq hsteady m
  cases hlookup : (session.seeds host world).lookup m with
  | some values =>
    unfold equation
    rw [hsame, hlookup]
  | none =>
    exact hg.equation_congr hg' hsteady h.config hnode hnode' hr.kind hr.constraints hlookup
      (hsame.trans hlookup) (fun _ => h.mem_dependencies hsteady) hv

/-- **The equations have one solution** at most, and it is the same by whatever numbers. -/
theorem Solves.unique (hv : session.Solves lists host world v)
    (hv' : session'.Solves lists host world v') (h : session.Renumbered π session')
    (hsteady : host.Steady) (hg : session.graph.Built) (hg' : session'.graph.Built)
    (hacyclic : session.Acyclic host world) (hm : session.Unpruned host world m) :
    v' (π m) = v m := by
  have hground := session.grounds hg host world
  have hground' := session'.grounds hg' host world
  induction m using (hground.wellFounded hacyclic).induction with
  | _ m ih =>
    rw [hv m hm, hv' (π m) (h.unpruned hsteady hground hground' hm)]
    exact h.equation_eq hsteady hground hground' hm fun d hd => ih d hd (hground.unpruned hd)

end Session

end Metamatch
