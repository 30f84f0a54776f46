import Metamatch.Proofs.Clients
import Metamatch.Proofs.Mirror.Run
import Metamatch.Proofs.Run.Calm
import Metamatch.Proofs.Run.Pruning

/-!
# Edit histories

What a client has set and replaced on the way leaves its traces in a graph: the lists of the slots
are in another order. A run shows nothing of it.

* `ClientCall.SameEnd`: calls that end with the same matchers.
* `ClientCall.SameEnd.mirrors`: the graphs that they build mirror each other.
* `Host.Views`: a host whose answers and verdicts go by a view that observers leave alone.
* `Notice.Reordered`: the same calls of observers, those of one slot in any order.
* `results_of_histories`: sessions that end alike come to the same.
-/

namespace Metamatch

variable {σ υ ε α β : Type}

/-! ## Graphs -/

/-- Two lists of calls make matchers of the same kinds in the same order, which end with the same
constraints, the same key and the same observers attached. -/
structure ClientCall.SameEnd (calls calls' : List ClientCall) : Prop where
  kinds : calls'.filterMap made? = calls.filterMap made?
  constraints : ∀ m, ((Graph.afterAll {} calls').get? m).map (·.constraints) =
    ((Graph.afterAll {} calls).get? m).map (·.constraints)
  keys : ∀ m, ((Graph.afterAll {} calls').get? m).map (·.key) =
    ((Graph.afterAll {} calls).get? m).map (·.key)
  observers : ∀ trigger m, (attached trigger m calls).Perm (attached trigger m calls')

theorem Graph.kind_afterAll (calls : List ClientCall) (s : Slot) :
    ((Graph.afterAll {} calls).get? s).map (·.kind) =
      (calls.filterMap ClientCall.made?)[s]? := by
  have hkinds := congrArg (List.map Prod.fst) (Graph.kinds_afterAll {} calls)
  rw [List.map_map, List.map_append, List.map_map, List.map_map] at hkinds
  rw [Graph.get?, ← List.getElem?_map]
  exact congrArg (·[s]?) (hkinds.trans (List.map_id _))

/-- Calls that end with the same matchers build graphs that mirror each other. -/
theorem ClientCall.SameEnd.mirrors {calls calls' : List ClientCall} (h : SameEnd calls calls')
    (hcalls : AllInRange calls {}) (hcalls' : AllInRange calls' {})
    (C : ClassId → ClassId → Prop) :
    (Graph.afterAll {} calls).Mirrors C (Graph.afterAll {} calls') := by
  have hfresh := (Graph.Built.empty.afterAll hcalls).fresh
  have hfresh' := (Graph.Built.empty.afterAll hcalls').fresh
  refine hfresh.mirrors hfresh' (fun s => ?_) (fun s empty => ?_) C
  · have hkinds : ((Graph.afterAll {} calls').get? s).map (·.kind) =
        ((Graph.afterAll {} calls).get? s).map (·.kind) := by
      rw [Graph.kind_afterAll, Graph.kind_afterAll, h.kinds]
    have hconstraints := h.constraints s
    have hkeys := h.keys s
    cases hg : (Graph.afterAll {} calls).get? s <;>
      cases hg' : (Graph.afterAll {} calls').get? s <;> simp_all
  · refine (Graph.observers_afterAll hcalls).trans ?_
    refine List.Perm.trans ?_ (Graph.observers_afterAll hcalls').symm
    exact (h.observers _ s).append_left _

/-! ## Hosts -/

/-- A computation that goes by a view of the state: where the view is the same, it comes to the same
and leaves the same view behind. -/
abbrev GoesBy (view : σ → υ) (x : ExceptT ε (StateM σ) α) : Prop :=
  Lockstep (fun t u => view t = view u) Eq x x

/-- A host whose answers and verdicts go by a view of its state, which no observer changes. None of
the observers crashes. -/
structure Host.Views (host : Host σ) (view : σ → υ) : Prop where
  loadClass : ∀ name, GoesBy view (host.resolver.loadClass name)
  className : ∀ id, GoesBy view (host.resolver.className id)
  classModifiers : ∀ id, GoesBy view (host.resolver.classModifiers id)
  superclass : ∀ id, GoesBy view (host.resolver.superclass id)
  interfaces : ∀ id, GoesBy view (host.resolver.interfaces id)
  fields : ∀ id, GoesBy view (host.resolver.fields id)
  methods : ∀ id, GoesBy view (host.resolver.methods id)
  constructors : ∀ id, GoesBy view (host.resolver.constructors id)
  judge : ∀ message, GoesBy view (host.judge message)
  calm : ∀ number values t, (host.observe number values t : Option Payload × σ).1 = none
  apart : ∀ number values t,
    view (host.observe number values t : Option Payload × σ).2 = view t

namespace Host.Views

variable {host : Host σ} {view : σ → υ}

theorem members (h : host.Views view) (kind : Kind) (owner : ClassId) :
    GoesBy view (kind.members host.resolver owner) := by
  have hmap : ∀ {γ : Type} {call : Call σ (List γ)} (f : γ → Candidate),
      GoesBy view call → GoesBy view (List.map f <$> call) :=
    fun f hcall => hcall.map fun _ _ heq => congrArg (List.map f) heq
  cases kind with
  | field => exact hmap _ (h.fields owner)
  | method => exact hmap _ (h.methods owner)
  | constructor => exact hmap _ (h.constructors owner)
  | cls | text | parameter => exact .pure rfl

theorem mirrors (h : host.Views view) : host.Mirrors Eq (fun t u => view t = view u) host where
  resolver := {
    loadClass := h.loadClass
    className := by
      rintro id _ rfl
      exact h.className id
    classModifiers := by
      rintro id _ rfl
      exact h.classModifiers id
    superclass := by
      rintro id _ rfl
      exact (h.superclass id).mono fun _ _ heq => heq ▸ optionRel_refl _
    interfaces := by
      rintro id _ rfl
      exact (h.interfaces id).mono fun _ _ heq => heq ▸ List.forall₂_refl _
    members := by
      rintro kind id _ rfl
      refine (h.members kind id).mono fun candidates _ heq => ?_
      subst heq
      exact List.forall₂_same.2 fun candidate _ => .refl candidate }
  judge := h.judge
  calm := h.calm
  calm' := h.calm
  apart number values t u hR := (h.apart number values t).trans hR
  apart' number values t u hR := hR.trans (h.apart number values u).symm

end Host.Views

/-! ## Calls of observers -/

/-- The same calls of observers slot by slot, where those of one slot may come in any order. -/
structure Notice.Reordered (notices notices' : List Notice) : Prop where
  slots : notices'.map (·.slot) = notices.map (·.slot)
  calls : ∀ s, ((notices.filter (·.slot = s)).map call).Perm
    ((notices'.filter (·.slot = s)).map call)

namespace Notice.Reordered

variable {notices notices' more more' : List Notice}

theorem append (h : Reordered notices notices') (h' : Reordered more more') :
    Reordered (notices ++ more) (notices' ++ more') where
  slots := by rw [List.map_append, List.map_append, h.slots, h'.slots]
  calls s := by
    rw [List.filter_append, List.filter_append, List.map_append, List.map_append]
    exact (h.calls s).append (h'.calls s)

theorem of_perm {numbers numbers' : List Nat} (h : numbers.Perm numbers') (slot : Slot)
    (values : List Entity) (g g' : Graph) :
    Reordered (numbers.map (⟨slot, ·, values, g⟩)) (numbers'.map (⟨slot, ·, values, g'⟩)) where
  slots := by
    simp only [List.map_map, Function.comp_def, List.map_const', h.length_eq]
  calls s := by
    simp only [List.filter_map, List.map_map, Function.comp_def, call]
    exact (h.filter _).map _

theorem perm (h : Reordered notices notices') : (notices.map call).Perm (notices'.map call) := by
  have hcount : ∀ (notices : List Notice) s number values,
      (notices.map call).count (s, number, values) =
        ((notices.filter (·.slot = s)).map call).count (s, number, values) := by
    intro notices s number values
    have hfilter : (notices.filter (·.slot = s)).map call =
        (notices.map call).filter (·.1 = s) := by
      rw [List.filter_map]
      rfl
    rw [hfilter, List.count_filter (by simp)]
  refine List.perm_iff_count.2 fun item => ?_
  obtain ⟨s, number, values⟩ := item
  rw [hcount notices, hcount notices', (h.calls s).count_eq]

end Notice.Reordered

theorem Step.Mirrors.notices {step step' : Step} (h : step.Mirrors Eq step') :
    Notice.Reordered step.notices step'.notices := by
  obtain ⟨before, change⟩ := step
  obtain ⟨before', change'⟩ := step'
  obtain ⟨hbefore, hchange⟩ := h
  dsimp only at hbefore hchange
  cases hchange with
  | detach slot => exact ⟨rfl, fun _ => .refl _⟩
  | publish slot sweep hvalues =>
    cases Entity.forall₂_mirrors_eq hvalues
    have hpublish := hbefore.publish slot hvalues sweep
    simp only [Step.notices]
    revert hpublish
    generalize before.publish slot _ sweep = outcome
    generalize before'.publish slot _ sweep = outcome'
    intro hpublish
    cases hpublish with
    | error e => exact ⟨rfl, fun _ => .refl _⟩
    | ok hg => exact .of_perm (hg.observers slot _) slot _ _ _

theorem Step.notices_mirrors {steps steps' : List Step}
    (h : List.Forall₂ (Step.Mirrors Eq) steps steps') :
    Notice.Reordered (steps.flatMap Step.notices) (steps'.flatMap Step.notices) := by
  induction h with
  | nil => exact ⟨rfl, fun _ => .refl _⟩
  | cons hstep _ ih => exact hstep.notices.append ih

/-! ## Runs -/

theorem Report.Mirrors.eq {report report' : Report} (h : report.Mirrors Eq report') :
    report = report' := by
  obtain ⟨⟩ := report
  obtain ⟨⟩ := report'
  obtain ⟨hslot, hkind, hkey, houtcome, hsweep, hvalues, hnames⟩ := h
  have hvalues := Entity.forall₂_mirrors_eq hvalues
  simp_all

theorem MatchResult.Mirrors.eq {result result' : MatchResult} (h : result.Mirrors Eq result') :
    result = result' := by
  obtain ⟨hsweeps, hreports, hfailures⟩ := h
  have hreports := hreports.imp fun _ _ => Report.Mirrors.eq
  rw [List.forall₂_eq_eq_eq] at hreports
  exact MatchResult.eq_of_parts hsweeps.symm hreports hfailures.symm

/-- **Results do not depend on the edit history**, but only on the matchers, keys and observers that
calls end with, if observers neither crash nor concern the answers of the host. -/
theorem results_of_histories {calls calls' : List ClientCall}
    (hcalls : ClientCall.AllInRange calls {}) (hcalls' : ClientCall.AllInRange calls' {})
    (hend : ClientCall.SameEnd calls calls') {session session' : Session}
    (hgraph : session.graph = Graph.afterAll {} calls)
    (hgraph' : session'.graph = Graph.afterAll {} calls')
    (hconfig : session'.config = session.config) (hlast : session'.last = session.last)
    {host : Host σ} {view : σ → υ} (hhost : host.Views view) {arrange : List Slot → List Slot}
    (harrange : ∀ items, (arrange items).Perm items) (lists : List (List String)) (world : σ) :
    (session'.execute arrange lists host world).1 = (session.execute arrange lists host world).1 ∧
    Notice.Reordered (session.execute arrange lists host world).2.notices.reverse
      (session'.execute arrange lists host world).2.notices.reverse ∧
    (∀ log, host.Logs log → (log (session.execute arrange lists host world).2.world).Perm
      (log (session'.execute arrange lists host world).2.world)) ∧
    (host.Calm → ∃ result, (session.execute arrange lists host world).1 = .ok result) := by
  have hmirrors : session.graph.Mirrors Eq session'.graph := by
    rw [hgraph, hgraph']
    exact hend.mirrors hcalls hcalls' Eq
  have hunique : Relator.BiUnique (Eq : ClassId → ClassId → Prop) :=
    ⟨fun _ _ _ h h' => h.trans h'.symm, fun _ _ _ h h' => h.symm.trans h'⟩
  have hlists : Catalog.ofLists lists = .ofLists lists := rfl
  have hworld : view world = view world := rfl
  obtain ⟨hagree, hprogress⟩ := Session.execute_mirrors hunique hhost.mirrors hmirrors hconfig hlast
    hlists arrange hworld
  have hreordered : Notice.Reordered
      (session.execute arrange lists host world).2.notices.reverse
      (session'.execute arrange lists host world).2.notices.reverse := by
    rw [session.notices_execute arrange lists host world,
      session'.notices_execute arrange lists host world]
    exact Step.notices_mirrors (List.rel_reverse hprogress.steps)
  refine ⟨(hagree.mono fun _ _ => MatchResult.Mirrors.eq).eq.symm, hreordered,
    fun log hlog => ?_, fun hcalm => ?_⟩
  · refine Session.log_perm_of_calls hlog ?_
    refine ((List.reverse_perm _).map Notice.call).symm.trans (hreordered.perm.trans ?_)
    exact (List.reverse_perm _).map Notice.call
  · have hbuilt : session.graph.Built := hgraph ▸ Graph.Built.empty.afterAll hcalls
    exact Session.execute_returns_of_calm hbuilt harrange lists hcalm world

namespace Sample

/-- A host whose state is the log of the calls of observers, none of which crashes. -/
def listener : Host (List (Nat × List Entity)) where
  resolver := registry.resolver
  observe number values := modifyGet fun calls => (none, calls ++ [(number, values)])

theorem listener_views : listener.Views fun _ => () := by
  constructor
  case judge => exact fun _ => .pure rfl
  case calm => exact fun _ _ _ => rfl
  case apart => exact fun _ _ _ => rfl
  all_goals exact fun _ => Call.ofExcept_lockstep (.refl _)

theorem listener_logs : listener.Logs id where
  preserves calls := by
    have hkeeps : ∀ {α : Type} (answer : Except LookupError α),
        Keeps (id · = calls) (Call.ofExcept answer : Call (List (Nat × List Entity)) α) := by
      intro α answer log hlog
      cases answer <;> exact hlog
    constructor
    case judge => exact fun _ _ hlog => hlog
    all_goals exact fun _ => hkeeps _
  observe _ _ _ := rfl

theorem listener_calm : listener.Calm where
  resolver := registry.calm
  judge _ := .pure fun _ _ => trivial

/-- A matcher that asks for the subclasses of another one with two observers. -/
def plain : List ClientCall :=
  [.exactClass "A", .exactClass "B", .observe 0 .onMatch 0, .observe 0 .onMatch 1,
    .first .cls [.superclass 0, .key "new"]]

/-- The same matcher, which has asked for the subclasses of a third one and had another key. -/
def rewritten : List ClientCall :=
  [.exactClass "A", .exactClass "B", .matcher .cls,
    .edit 2 [.superclass 0, .key "old", .matchFirst true], .observe 0 .onMatch 0,
    .observe 0 .onMatch 1, .edit 2 [.superclass 1, .superclass 0, .key "new"], .build 2]

theorem sameEnd_rewritten : ClientCall.SameEnd plain rewritten where
  kinds := by decide
  constraints m := by
    have hmap : (Graph.afterAll {} rewritten).nodes.map (·.constraints) =
        (Graph.afterAll {} plain).nodes.map (·.constraints) := by
      decide +kernel
    rw [Graph.get?, Graph.get?, ← List.getElem?_map, ← List.getElem?_map, hmap]
  keys m := by
    have hmap : (Graph.afterAll {} rewritten).nodes.map (·.key) =
        (Graph.afterAll {} plain).nodes.map (·.key) := by
      decide +kernel
    rw [Graph.get?, Graph.get?, ← List.getElem?_map, ← List.getElem?_map, hmap]
  observers _ _ := .refl _

/-- A run of such calls, whose state ends as the log of observers. -/
def logged (calls : List ClientCall) :
    Except RunError MatchResult × Progress (List (Nat × List Entity)) :=
  (session calls).execute id [["B", "A"]] listener []

end Sample

/-- The observers change places, and nothing else is to be seen of what was replaced. -/
theorem results_of_rewritten :
    (Sample.logged Sample.rewritten).1 = (Sample.logged Sample.plain).1 ∧
    (∃ result, (Sample.logged Sample.plain).1 = .ok result) ∧
    (Sample.logged Sample.plain).2.world.Perm (Sample.logged Sample.rewritten).2.world ∧
    (Sample.logged Sample.rewritten).2.world.map Prod.fst = [1, 0] ∧
    (Sample.logged Sample.plain).2.world.map Prod.fst = [0, 1] := by
  obtain ⟨hsame, -, hlog, hreturns⟩ := @results_of_histories _ _ Sample.plain Sample.rewritten
    (by decide +kernel) (by decide +kernel) Sample.sameEnd_rewritten
    (Sample.session Sample.plain) (Sample.session Sample.rewritten) (Sample.graph_session _)
    (Sample.graph_session _) rfl rfl
    Sample.listener _ Sample.listener_views id (fun _ => .refl _) [["B", "A"]] []
  refine ⟨hsame, hreturns Sample.listener_calm, ?_, by decide +kernel, by decide +kernel⟩
  unfold Sample.logged
  exact hlog id Sample.listener_logs

end Metamatch
