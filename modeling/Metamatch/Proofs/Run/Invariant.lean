import Metamatch.Proofs.Run.Tasks
import Metamatch.Proofs.Surroundings

/-!
# Conditions that runs keep

* `Run.SeedInvariant`, `Run.TaskInvariant`, `Run.Invariant`: a condition on the state of a run that
  none of its steps breaks, while earlier values are taken over, while tasks are executed and
  settled, or at all.
* `Run.Invariant.resolve`: nor does the run as a whole.
-/

namespace Metamatch

variable {σ ε α : Type}

namespace Run

theorem adapt_keeps {P : Progress σ → Prop} {run : Run σ ε α} {ε' : Type} {f : ε → ε'}
    (h : Keeps P run) : Keeps P (adapt f run) :=
  adapt_leads h fun _ _ hp => hp

theorem graph_keeps {P : Progress σ → Prop} {rest : Graph → Run σ ε α}
    (h : ∀ g, Leads (fun p => p.graph = g ∧ P p) (rest g) (fun _ => P) fun _ => P) :
    Keeps P (graph >>= rest) :=
  graph_leads.bind fun g p hp => h g p ⟨hp.1.symm, hp.2⟩

theorem change_keeps {P : Progress σ → Prop} {change : Change} {f : Graph → Except ε Graph}
    (hrefused : ∀ p, P p → P { p with steps := ⟨p.graph, change⟩ :: p.steps })
    (hmade : ∀ p g, P p → f p.graph = .ok g →
      P { p with graph := g, steps := ⟨p.graph, change⟩ :: p.steps }) :
    Keeps P (Run.change change f : Run σ ε Unit) := by
  intro p hp
  unfold Run.change
  dsimp only
  split
  · next g hg => exact hmade p g hp hg
  · exact hrefused p hp

theorem detach_keeps {P : Progress σ → Prop} {slot : Slot}
    (hrefused : ∀ p, P p → P { p with steps := ⟨p.graph, .detach slot⟩ :: p.steps })
    (hmade : ∀ p, P p →
      P { p with graph := p.graph.detach slot, steps := ⟨p.graph, .detach slot⟩ :: p.steps }) :
    Keeps P (detach slot : Run σ Payload Unit) := by
  refine change_keeps hrefused fun p g hp hg => ?_
  split at hg
  · cases hg
  · cases hg
    exact hmade p hp

theorem publish_keeps {ctx : RunContext σ} {P : Progress σ → Prop} {slot : Slot}
    {values : List Entity} {sweep : Nat}
    (hchange : Keeps P (change (.publish slot values sweep) (·.publish slot values sweep) :
      Run σ SessionError Unit))
    (hobserve : ∀ number,
      Keeps P (observe ctx slot values number : Run σ SessionError (Option Payload))) :
    Keeps P (publish ctx slot values sweep) := by
  unfold publish
  refine hchange.bind fun _ => graph_leads.bind fun g p hp => ?_
  exact observers_leads hobserve _ p hp.2

/-- A condition on the state of a run that is not broken while earlier values are taken over. Only
publications that are admitted have to keep it. -/
structure SeedInvariant (ctx : RunContext σ) (last : Option MatchResult)
    (Admits : Slot → Published → Prop) (P : Progress σ → Prop) : Prop where
  gather : ∀ {earlier}, last = some earlier → ∀ g : Graph,
    Leads (fun p => p.graph = g ∧ P p)
      (ask (Seed.gather ctx.host.resolver earlier g g.slots) : Run σ Payload _)
      (fun seeds p => (∀ seed ∈ seeds, Admits seed.1 ⟨seed.2, 0⟩) ∧ P p) fun _ => P
  detach : ∀ slot, Keeps P (Run.detach slot : Run σ Payload Unit)
  publish : ∀ slot values, Admits slot ⟨values, 0⟩ → Keeps P (publish ctx slot values 0)

/-- A condition on the state of a run that is not broken while tasks of a sweep are executed and
settled. The publications that are admitted are those that searches lead to. Only failures of
matchers that may be published have to keep it. -/
structure TaskInvariant (ctx : RunContext σ) (number : Nat) (Admits : Slot → Published → Prop)
    (P : Progress σ → Prop) : Prop where
  search : ∀ {g : Graph} {slot node}, g.get? slot = some node →
    Leads (fun p => p.graph = g ∧ P p) (ofTask (search ctx g slot node))
      (fun values p => Admits slot ⟨values, number⟩ ∧ P p) fun _ => P
  publish : ∀ slot values, Admits slot ⟨values, number⟩ →
    Keeps P (publish ctx slot values number)
  consult : ∀ {slot}, (∃ published, Admits slot published) →
    ∀ message, Keeps P (consult ctx slot message)

/-- A condition on the state of a run that none of its steps breaks: neither questions and verdicts
nor changes of the graph and the calls of observers. The publications that are admitted are those
that searches and an earlier result lead to, and empty ones of the matchers of a batch. Of sweeps
there is at most one more than there are matchers. -/
structure Invariant (ctx : RunContext σ) (last : Option MatchResult)
    (Admits : Slot → Published → Prop) (P : Progress σ → Prop) : Prop
    extends SeedInvariant ctx last Admits P where
  tasks : ∀ {p : Progress σ} {number : Nat}, P p → number ≤ p.graph.size + 1 →
    TaskInvariant ctx number Admits P
  draw : ∀ {p : Progress σ} {number : Nat}, P p → number ≤ p.graph.size + 1 → ∀ kind,
    Leads P (draw ctx number kind) (fun slots p => (∀ s ∈ slots, Admits s ⟨[], number⟩) ∧ P p)
      fun _ => P
  reports : ∀ prune nodes,
    Keeps P (ask (Node.reports ctx.host.resolver prune 0 nodes) : Run σ Payload _)

namespace SeedInvariant

variable {ctx : RunContext σ} {last : Option MatchResult} {Admits : Slot → Published → Prop}
  {P : Progress σ → Prop}

theorem of_keeps (hgather : ∀ (earlier : MatchResult) (g : Graph),
      Keeps P (ask (Seed.gather ctx.host.resolver earlier g g.slots) : Run σ Payload _))
    (hdetach : ∀ slot, Keeps P (Run.detach slot : Run σ Payload Unit))
    (hpublish : ∀ slot values sweep, Keeps P (Run.publish ctx slot values sweep)) :
    SeedInvariant ctx last (fun _ _ => True) P where
  gather {earlier} _ g := (hgather earlier g).weaken (fun _ hp => hp.2)
    (fun _ _ hp => ⟨fun _ _ => trivial, hp⟩) fun _ _ hp => hp
  detach := hdetach
  publish slot values _ := hpublish slot values 0

theorem publishSeeds (h : SeedInvariant ctx last Admits P) (seeds : List (Slot × List Entity))
    (hadmits : ∀ seed ∈ seeds, Admits seed.1 ⟨seed.2, 0⟩) :
    Leads P (Run.publishSeeds ctx seeds)
      (fun crashes p => (∀ crash ∈ crashes, ∃ published, Admits crash.1 published) ∧ P p)
      fun _ => P := by
  induction seeds with
  | nil => exact .pure fun _ hp => ⟨List.forall_mem_nil _, hp⟩
  | cons seed rest ih =>
    rw [List.forall_mem_cons] at hadmits
    unfold Run.publishSeeds
    refine (h.publish seed.1 seed.2 hadmits.1).bind fun _ => ?_
    refine (ih hadmits.2).bind fun crashes => .pure fun _ ⟨hcrashes, hp⟩ => ⟨?_, hp⟩
    exact List.forall_mem_cons.2 ⟨⟨_, hadmits.1⟩, hcrashes⟩

theorem takeOver (h : SeedInvariant ctx last Admits P) {earlier : MatchResult}
    (hlast : last = some earlier) :
    Leads P (Run.takeOver ctx earlier)
      (fun crashes p => (∀ crash ∈ crashes, ∃ published, Admits crash.1 published) ∧ P p)
      fun _ => P := by
  unfold Run.takeOver
  refine graph_leads.bind fun g p hg => ?_
  refine ((adapt_leads (h.gather hlast g) fun _ _ hp => hp).bind fun seeds => ?_) p
    ⟨hg.1.symm, hg.2⟩
  rintro p ⟨hadmits, hp⟩
  refine ((Leads.forM fun seed _ => adapt_keeps (h.detach seed.1)).bind fun _ => ?_) p hp
  exact adapt_leads (h.publishSeeds seeds hadmits) fun _ _ hp => hp

end SeedInvariant

namespace TaskInvariant

variable {ctx : RunContext σ} {number : Nat} {Admits : Slot → Published → Prop}
  {P : Progress σ → Prop} {s : Slot}

theorem of_keeps (hsearch : ∀ g slot node, Keeps P (ofTask (Run.search ctx g slot node)))
    (hpublish : ∀ slot values sweep, Keeps P (Run.publish ctx slot values sweep))
    (hconsult : ∀ slot message, Keeps P (Run.consult ctx slot message)) :
    TaskInvariant ctx number (fun _ _ => True) P where
  search {g slot node} _ := (hsearch g slot node).weaken (fun _ hp => hp.2)
    (fun _ _ hp => ⟨trivial, hp⟩) fun _ _ hp => hp
  publish slot values _ := hpublish slot values number
  consult {slot} _ := hconsult slot

theorem reportCrashes (h : TaskInvariant ctx number Admits P)
    (hs : ∃ published, Admits s published) (crashes : List Payload) :
    Keeps P (Run.reportCrashes ctx s crashes) :=
  Leads.forM fun _ _ => h.consult hs _

theorem issue (h : TaskInvariant ctx number Admits P) {f : SessionError → ε} {f' : Payload → ε}
    {values : List Entity} (hadmits : Admits s ⟨values, number⟩) :
    Keeps P (do
      let crashes ← Run.adapt f (Run.publish ctx s values number)
      Run.adapt f' (Run.reportCrashes ctx s crashes)) :=
  (adapt_keeps (h.publish s values hadmits)).bind fun _ =>
    adapt_keeps (h.reportCrashes ⟨_, hadmits⟩ _)

theorem evaluate (h : TaskInvariant ctx number Admits P) (s : Slot) :
    Keeps P (Run.evaluate ctx number s) := by
  unfold Run.evaluate
  refine graph_keeps fun g => ?_
  split
  · exact .pure fun _ hp => hp.2
  · next node hnode =>
    refine (h.search hnode).bind fun values => ?_
    rintro p ⟨hadmits, hp⟩
    exact h.issue hadmits p hp

theorem execute (h : TaskInvariant ctx number Admits P) (items : List Slot) :
    Keeps P (Run.execute ctx number items : Run σ ε _) := by
  induction items with
  | nil => exact .pure fun _ hp => hp
  | cons s rest ih =>
    unfold Run.execute
    have hcontain : Keeps P (contain (Run.evaluate ctx number s) : Run σ ε _) := by
      refine (contain_leads (h.evaluate s)).weaken (fun _ hp => hp) ?_ fun _ _ hp => hp
      intro outcome p hp
      cases outcome <;> exact hp
    exact hcontain.bind fun outcome => ih.bind fun _ => .pure fun _ hp => hp

theorem settle (h : TaskInvariant ctx number Admits P) (hs : Admits s ⟨[], number⟩)
    (outcome : Except TaskError Unit) : Keeps P (Run.settle ctx number s outcome) := by
  have hrecover : ∀ e, Keeps P (recover ctx number s e) := by
    intro e
    unfold recover
    refine (adapt_keeps (h.consult ⟨_, hs⟩ _)).bind fun _ => graph_keeps fun g => ?_
    split
    · exact fun p hp => h.issue hs p hp.2
    · exact .pure fun _ hp => hp.2
  unfold Run.settle
  split
  · exact .pure fun _ hp => hp
  · exact fun _ hp => hp
  · exact hrecover _

end TaskInvariant

/-- Values are taken over, and crashes put before the policy. -/
theorem SeedInvariant.seed {ctx : RunContext σ} {last : Option MatchResult} {number : Nat}
    {Admits : Slot → Published → Prop} {P : Progress σ → Prop}
    (h : SeedInvariant ctx last Admits P) (htasks : TaskInvariant ctx number Admits P) :
    Keeps P (last.forM (Run.seed ctx)) := by
  cases last with
  | none => exact .pure fun _ hp => hp
  | some earlier =>
    refine (h.takeOver rfl).bind fun crashes => ?_
    rintro p ⟨hcrashes, hp⟩
    refine Leads.forM (fun crash hcrash => ?_) p hp
    exact adapt_keeps (htasks.reportCrashes (hcrashes crash hcrash) crash.2)

namespace Invariant

variable {ctx : RunContext σ} {last : Option MatchResult} {Admits : Slot → Published → Prop}
  {P : Progress σ → Prop}

theorem of_keeps (hsearch : ∀ g slot node, Keeps P (ofTask (Run.search ctx g slot node)))
    (hgather : ∀ (earlier : MatchResult) (g : Graph),
      Keeps P (ask (Seed.gather ctx.host.resolver earlier g g.slots) : Run σ Payload _))
    (hreports : ∀ prune nodes,
      Keeps P (ask (Node.reports ctx.host.resolver prune 0 nodes) : Run σ Payload _))
    (hconsult : ∀ slot message, Keeps P (Run.consult ctx slot message))
    (hdraw : ∀ sweep kind, Keeps P (Run.draw ctx sweep kind))
    (hdetach : ∀ slot, Keeps P (Run.detach slot : Run σ Payload Unit))
    (hpublish : ∀ slot values sweep, Keeps P (Run.publish ctx slot values sweep)) :
    Invariant ctx last (fun _ _ => True) P :=
  { SeedInvariant.of_keeps hgather hdetach hpublish with
    tasks := fun _ _ => TaskInvariant.of_keeps hsearch hpublish hconsult
    draw := fun _ _ kind => (hdraw _ kind).weaken (fun _ hp => hp)
      (fun _ _ hp => ⟨fun _ _ => trivial, hp⟩) fun _ _ hp => hp
    reports := hreports }

variable {start : Progress σ} {number : Nat}

theorem batch (h : Invariant ctx last Admits P) (hstart : P start)
    (hnumber : number ≤ start.graph.size + 1) (kind : Kind) :
    Keeps P (Run.batch ctx number kind) := by
  have htasks := h.tasks hstart hnumber
  unfold Run.batch
  refine (h.draw hstart hnumber kind).bind fun ready => ?_
  rintro p ⟨hready, hp⟩
  refine ((htasks.execute _).bind fun outcomes => ?_) p hp
  exact (Leads.forM fun s hs => htasks.settle (hready s hs) _).bind fun _ => .pure fun _ hp => hp

theorem sweep (h : Invariant ctx last Admits P) (hstart : P start)
    (hnumber : number ≤ start.graph.size + 1) (kinds : List Kind) :
    Keeps P (Run.sweep ctx number kinds) := by
  induction kinds with
  | nil => exact .pure fun _ hp => hp
  | cons kind rest ih =>
    unfold Run.sweep
    exact (h.batch hstart hnumber kind).bind fun here => ih.bind fun _ => .pure fun _ hp => hp

theorem sweeps (h : Invariant ctx last Admits P) (hstart : P start) {fuel : Nat}
    (hfuel : number + fuel ≤ start.graph.size + 2) : Keeps P (Run.sweeps ctx number fuel) := by
  induction fuel generalizing number with
  | zero => exact .pure fun _ hp => hp
  | succ fuel ih =>
    unfold Run.sweeps
    refine (h.sweep hstart (by omega) _).bind fun count => ?_
    split
    · exact .pure fun _ hp => hp
    · exact ih (by omega)

theorem collect (h : Invariant ctx last Admits P) (count : Nat) :
    Keeps P (Run.collect ctx count) := by
  unfold Run.collect
  refine graph_keeps fun g p hp => ?_
  refine ((h.reports _ _).bind fun reports => ?_) p hp.2
  exact fun _ hq => hq

/-- What holds once values are taken over, and what no step breaks, holds at the end. -/
theorem resolve_of_seed (h : Invariant ctx last Admits P) {S : Progress σ → Prop}
    (hseed : Leads S (last.forM (Run.seed ctx)) (fun _ => P) fun _ => P) :
    Leads S (Run.resolve ctx last) (fun _ => P) fun _ => P := by
  unfold Run.resolve
  refine hseed.bind fun _ => graph_keeps fun g => ?_
  rintro p ⟨rfl, hp⟩
  have hfuel : 1 + (p.graph.size + 1) ≤ p.graph.size + 2 := by omega
  exact ((h.sweeps hp hfuel).bind fun count => adapt_keeps (h.collect count)) p hp

/-- **What no step of a run breaks, the run keeps**, whether it returns or not. -/
theorem resolve (h : Invariant ctx last Admits P) : Keeps P (Run.resolve ctx last) := by
  intro p hp
  have hseed := h.toSeedInvariant.seed (h.tasks hp (Nat.zero_le _))
  exact h.resolve_of_seed hseed p hp

end Invariant

/-! ## Batches on record -/

theorem publish_batches (ctx : RunContext σ) (batches : List Batch) (slot : Slot)
    (values : List Entity) (sweep : Nat) :
    Keeps (fun p => p.batches = batches) (publish ctx slot values sweep) :=
  publish_keeps (change_keeps (fun _ hp => hp) fun _ _ hp _ => hp)
    fun _ => Keeps.of_state fun _ hp => hp

theorem seed_batches (ctx : RunContext σ) (last : Option MatchResult) (batches : List Batch) :
    SeedInvariant ctx last (fun _ _ => True) fun p => p.batches = batches :=
  .of_keeps (fun _ _ => Keeps.of_state fun _ hp => hp)
    (fun _ => detach_keeps (fun _ hp => hp) fun _ hp => hp) (publish_batches ctx batches)

theorem task_batches (ctx : RunContext σ) (number : Nat) (batches : List Batch) :
    TaskInvariant ctx number (fun _ _ => True) fun p => p.batches = batches :=
  .of_keeps (fun _ _ _ => Keeps.of_state fun _ hp => hp) (publish_batches ctx batches)
    fun _ _ => Keeps.of_state fun _ hp => hp

end Run

/-- A condition that no step of a run breaks holds at its end if it does at the start. -/
theorem Session.execute_keeps {session : Session} {arrange : List Slot → List Slot}
    {lists : List (List String)} {host : Host σ} {world : σ} {Admits : Slot → Published → Prop}
    {P : Progress σ → Prop}
    (h : Run.Invariant (session.context arrange lists host) session.last Admits P)
    (hstart : P { world, graph := session.graph }) :
    P (session.execute arrange lists host world).2 :=
  h.resolve.state hstart

end Metamatch
