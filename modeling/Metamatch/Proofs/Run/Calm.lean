import Metamatch.Proofs.Minutes
import Metamatch.Proofs.Run.Takeover

/-!
# Runs in calm surroundings

Only a crash outside the tasks ends a run early. Where neither questions nor verdicts crash, there
is none.

* `Host.Calm`: a host whose resolver and policy never crash. Its observers may.
* `Run.Unhurt`: a part of a run that does not end with a crash, and the parts that are such.
* `Session.execute_returns_of_calm`: every run returns.
-/

namespace Metamatch

variable {σ ε α β : Type}

/-- A host whose resolver and policy never crash. -/
structure Host.Calm (host : Host σ) : Prop where
  resolver : host.resolver.Calm
  judge : ∀ message,
    Leads (fun _ => True) (host.judge message) (fun _ _ => True) fun _ _ => False

theorem Host.Decides.calm {host : Host σ} (hdecides : host.Decides) {registry : Registry}
    (hresolver : host.resolver = registry.resolver) : host.Calm where
  resolver := hresolver ▸ registry.calm
  judge message world _ := by
    obtain ⟨decision, world', hjudge, -⟩ := hdecides.judge_noted message world
    rw [hjudge]
    trivial

/-! ## Questions -/

theorem Call.attempt_calm {call : Call σ α}
    (h : Leads (fun _ => True) call (fun _ _ => True) fun mishap _ => mishap.IsError) :
    Leads (fun _ => True) call.attempt (fun _ _ => True) fun _ _ => False :=
  (attempt_returns h).weaken (fun _ => id) (fun _ _ _ => trivial) fun _ _ => id

namespace Resolver.Answers

variable {resolver : Resolver σ}

theorem describeAll_calm (h : resolver.Calm) (values : List Entity) :
    Leads (fun _ => True) (Entity.describeAll resolver values) (fun _ _ => True)
      fun _ _ => False := by
  induction values with
  | nil => exact .pure fun _ _ => trivial
  | cons value rest ih =>
    unfold Entity.describeAll
    refine (Call.attempt_calm (h.describe value)).bind fun answer => ?_
    split
    · exact ih.bind fun _ => .pure fun _ _ => trivial
    · exact .pure fun _ _ => trivial
    · exact .pure fun _ _ => trivial

theorem reports_calm (h : resolver.Calm) (prune : Bool) (slot : Slot) (nodes : List Node) :
    Leads (fun _ => True) (Node.reports resolver prune slot nodes) (fun _ _ => True)
      fun _ _ => False := by
  have hreport : ∀ (slot : Slot) (node : Node), Leads (fun _ => True)
      (node.report resolver prune slot) (fun _ _ => True) fun _ _ => False := by
    intro slot node
    unfold Node.report
    dsimp only
    split
    · exact (describeAll_calm h _).bind fun _ => .pure fun _ _ => trivial
    · exact .pure fun _ _ => trivial
  induction nodes generalizing slot with
  | nil => exact .pure fun _ _ => trivial
  | cons node rest ih =>
    unfold Node.reports
    exact (hreport slot node).bind fun _ => (ih (slot + 1)).bind fun _ => .pure fun _ _ => trivial

end Resolver.Answers

/-! ## Steps -/

namespace Run

open Progress (At Failed)

/-- A part of a run that cannot fail. -/
abbrev Sure (x : Run σ ε α) : Prop := Leads (fun _ => True) x (fun _ _ => True) fun _ _ => False

/-- A part of a run that does not end with a crash. -/
abbrev Unhurt (x : Run σ RunError α) : Prop :=
  Leads (fun _ => True) x (fun _ _ => True) fun e _ => ∀ payload, e ≠ .crash payload

theorem Sure.unhurt {x : Run σ RunError α} (h : Sure x) : Unhurt x :=
  h.weaken (fun _ => id) (fun _ _ => id) fun _ _ => False.elim

theorem Unhurt.bind {x : Run σ RunError α} {rest : α → Run σ RunError β} (h : Unhurt x)
    (hrest : ∀ a, Unhurt (rest a)) : Unhurt (x >>= rest) :=
  Leads.bind h hrest

variable {ctx : RunContext σ}

theorem graph_sure : Sure (graph : Run σ ε Graph) := fun _ _ => trivial

theorem ask_sure {question : ExceptT ε (StateM σ) α}
    (h : Leads (fun _ => True) question (fun _ _ => True) fun _ _ => False) :
    Sure (ask question : Run σ ε α) :=
  fun p _ => ask_ends (h p.world trivial)

theorem consult_sure (h : ctx.host.Calm) (slot : Slot) (message : String) :
    Sure (consult ctx slot message) :=
  fun p _ => consult_ends (h.judge message p.world trivial)

theorem reportCrashes_sure (h : ctx.host.Calm) (slot : Slot) (crashes : List Payload) :
    Sure (reportCrashes ctx slot crashes) :=
  Leads.forM fun _ _ => consult_sure h slot _

theorem adapt_unhurt {x : Run σ Payload α} (h : Sure x) : Unhurt (adapt .crash x) :=
  Sure.unhurt (adapt_leads h fun _ _ => id)

theorem recover_unhurt (h : ctx.host.Calm) (number : Nat) (slot : Slot) (e : TaskError) :
    Unhurt (recover ctx number slot e) := by
  unfold recover
  refine (adapt_unhurt (consult_sure h slot _)).bind fun _ => graph_sure.unhurt.bind fun g => ?_
  split
  · refine Unhurt.bind ?_ fun crashes => adapt_unhurt (reportCrashes_sure h slot crashes)
    exact adapt_leads (Leads.trivial _) fun _ _ _ payload => RunError.noConfusion
  · exact .pure fun _ _ => trivial

theorem settle_unhurt (h : ctx.host.Calm) (number : Nat) (slot : Slot)
    (outcome : Except TaskError Unit) : Unhurt (settle ctx number slot outcome) := by
  unfold settle
  split
  · exact .pure fun _ _ => trivial
  · exact fun _ _ payload => RunError.noConfusion
  · exact recover_unhurt h number slot _

theorem execute_sure (number : Nat) (items : List Slot) :
    Sure (execute ctx number items : Run σ ε _) := by
  induction items with
  | nil => exact .pure fun _ _ => trivial
  | cons slot rest ih =>
    unfold execute
    have hcontain : Sure (contain (evaluate ctx number slot) : Run σ ε _) := fun _ _ => trivial
    exact hcontain.bind fun _ => ih.bind fun _ => .pure fun _ _ => trivial

theorem sweep_unhurt (h : ctx.host.Calm) (number : Nat) (kinds : List Kind) :
    Unhurt (sweep ctx number kinds) := by
  have hbatch : ∀ kind, Unhurt (batch ctx number kind) := by
    intro kind
    have hdraw : Sure (draw ctx number kind) := fun _ _ => trivial
    unfold batch
    refine hdraw.unhurt.bind fun ready => (execute_sure number _).unhurt.bind fun outcomes => ?_
    refine Unhurt.bind ?_ fun _ => .pure fun _ _ => trivial
    exact Leads.forM fun slot _ => settle_unhurt h number slot _
  induction kinds with
  | nil => exact .pure fun _ _ => trivial
  | cons kind rest ih =>
    unfold sweep
    exact (hbatch kind).bind fun _ => ih.bind fun _ => .pure fun _ _ => trivial

theorem sweeps_unhurt (h : ctx.host.Calm) (number fuel : Nat) :
    Unhurt (sweeps ctx number fuel) := by
  induction fuel generalizing number with
  | zero => exact .pure fun _ _ => trivial
  | succ fuel ih =>
    unfold sweeps
    refine (sweep_unhurt h number _).bind fun count => ?_
    split
    · exact .pure fun _ _ => trivial
    · exact ih (number + 1)

theorem collect_sure (h : ctx.host.Calm) (count : Nat) : Sure (collect ctx count) := by
  unfold collect
  refine graph_sure.bind fun g => ?_
  exact (ask_sure (h.resolver.reports_calm _ 0 g.nodes)).bind fun _ => fun _ _ => trivial

theorem seed_unhurt (h : ctx.host.Calm) (last : MatchResult) {P : Progress σ → Prop}
    (htake : Leads P (takeOver ctx last) (fun _ _ => True) fun e _ => ∀ payload, e ≠ .crash payload) :
    Leads P (seed ctx last) (fun _ _ => True) fun e _ => ∀ payload, e ≠ .crash payload := by
  unfold seed
  refine htake.bind fun crashes => ?_
  exact Leads.forM fun crash _ => adapt_unhurt (reportCrashes_sure h crash.1 crash.2)

end Run

namespace Session

open Run

/-- **Every run in calm surroundings returns.** Its tasks and its observers may fail as they like. -/
theorem execute_returns_of_calm {session : Session} (hg : session.graph.Built)
    {arrange : List Slot → List Slot} (harrange : ∀ items, (arrange items).Perm items)
    (lists : List (List String)) {host : Host σ} (hcalm : host.Calm) (world : σ) :
    ∃ result, (session.execute arrange lists host world).1 = .ok result := by
  set ctx := session.context arrange lists host
  have hseed : Leads (· = { world, graph := session.graph }) (session.last.forM (seed ctx))
      (fun _ _ => True) fun e _ => ∀ payload, e ≠ .crash payload := by
    cases hlast : session.last with
    | none => exact .pure fun _ _ => trivial
    | some last =>
      refine seed_unhurt hcalm last ?_
      rintro _ rfl
      obtain ⟨crashes, p, ground, htake, -⟩ :=
        session.takeOver_of_calm hg hlast hcalm.resolver arrange lists world
      rw [htake]
      trivial
  have hunhurt : Leads (· = { world, graph := session.graph }) (resolve ctx session.last)
      (fun _ _ => True) fun e _ => ∀ payload, e ≠ .crash payload := by
    unfold resolve
    refine hseed.bind fun _ => graph_sure.unhurt.bind fun g => ?_
    exact (sweeps_unhurt hcalm 1 _).bind fun count => adapt_unhurt (collect_sure hcalm count)
  have hends := session.execute_ends hg harrange lists host world
  cases hresult : (session.execute arrange lists host world).1 with
  | ok result => exact ⟨result, rfl⟩
  | error e =>
    -- a run that fails ends with a crash, and no part of this one does
    obtain ⟨⟨payload, rfl⟩, -⟩ := hends.of_error hresult
    exact absurd rfl ((hunhurt _ rfl).of_error hresult payload)

end Session

end Metamatch
