import Metamatch.Proofs.Run.Attribution
import Metamatch.Proofs.Run.Finish

/-!
# The order of tasks

Two runs that differ in the order of tasks go abreast: whatever one of them publishes in a batch,
the other publishes in the same batch.

* `Progress.Twins`: the states of two such runs after the same batch.
* `Run.batch_abreast`, `Run.sweeps_abreast`: a batch and all sweeps of both.
* `Session.execute_alike`: both runs end alike.
* `reports_of_arrangements`: what that means for reports, failures and observers.
-/

namespace Metamatch

variable {σ ε α β : Type}

/-! ## Two runs -/

/-- Computations that return with the same value from related states, and leave related states
behind. -/
def Abreast {τ : Type} (R : τ → τ → Prop) (x y : ExceptT ε (StateM τ) α) : Prop :=
  ∀ t u, R t u → ∃ a t' u', x t = (.ok a, t') ∧ y u = (.ok a, u') ∧ R t' u'

namespace Abreast

variable {τ : Type} {R : τ → τ → Prop} {x y : ExceptT ε (StateM τ) α}
  {f g : α → ExceptT ε (StateM τ) β}

theorem pure (a : α) : Abreast R (Pure.pure a : ExceptT ε (StateM τ) α) (Pure.pure a) :=
  fun t u h => ⟨a, t, u, rfl, rfl, h⟩

theorem bind (h : Abreast R x y) (hf : ∀ a, Abreast R (f a) (g a)) :
    Abreast R (x >>= f) (y >>= g) := by
  intro t u htu
  obtain ⟨a, t', u', hx, hy, htu'⟩ := h t u htu
  rw [bind_apply, bind_apply, hx, hy]
  exact hf a t' u' htu'

end Abreast

/-- The same run with the tasks of a batch in another order. -/
def RunContext.arranged (ctx : RunContext σ) (arrange : List Slot → List Slot) : RunContext σ :=
  { ctx with arrange }

section Runs

open Progress (At Stands)

variable {ctx : RunContext σ} {arrange : List Slot → List Slot} {start : Graph} {ground : Ground}
  {base : Progress σ} {verdict : String → Decision} {pub : Publications} {own : List Failure}
  {calls : List (Slot × Nat × List Entity)} {p : Progress σ}

theorem Progress.At.arranged (h : At ctx start ground pub p) :
    At (ctx.arranged arrange) start ground pub p :=
  ⟨h.graph, ⟨h.sound.inRange, h.sound.closed, h.sound.found⟩, h.recorded, h.safe⟩

theorem Progress.Stands.arranged (h : Stands ctx start ground base verdict pub own calls p) :
    Stands (ctx.arranged arrange) start ground base verdict pub own calls p :=
  ⟨h.standing.arranged, h.noted⟩

/-- Two runs that differ in the order of tasks and stand at the same publications, with the same
calls and the same failures up to their order, apart from crashes of observers. -/
def Progress.Twins (ctx : RunContext σ) (arrange : List Slot → List Slot) (start : Graph)
    (ground : Ground) (base : Progress σ) (verdict : String → Decision) (p p' : Progress σ) :
    Prop :=
  ∃ pub own own' calls calls', Stands ctx start ground base verdict pub own calls p ∧
    Stands (ctx.arranged arrange) start ground base verdict pub own' calls' p' ∧
    own.Perm own' ∧ calls.Perm calls' ∧ ∀ s ∈ ground.detached, pub s ≠ none

namespace Run

open Progress (Twins)

/-- **A batch comes to the same in both runs.** -/
theorem batch_abreast (hctx : ∀ items, (ctx.arrange items).Perm items)
    (harrange : ∀ items, (arrange items).Perm items) (hsteady : ctx.host.Steady)
    (hverdict : ctx.host.Judges verdict) (number : Nat) (kind : Kind) :
    Abreast (Twins ctx arrange start ground base verdict) (batch ctx number kind)
      (batch (ctx.arranged arrange) number kind) := by
  rintro p p' ⟨pub, own, own', calls, calls', hp, hp', hown, hcalls, hd⟩
  obtain ⟨items, hitems⟩ : ∃ items, items =
      (ground.after pub).ready ctx.config.pruneUnconsumed kind := ⟨_, rfl⟩
  obtain ⟨count, q, hx, hcount, hq⟩ :=
    (batch_steady hctx hsteady hverdict hitems hd p.world).returns hp
  obtain ⟨count', q', hx', hcount', hq'⟩ :=
    (@batch_steady _ (ctx.arranged arrange) start ground pub base number own' calls' verdict items
      harrange hsteady hverdict kind hitems hd p.world).returns hp'
  have hperm : (ctx.arrange items).Perm (arrange items) := (hctx items).trans (harrange items).symm
  refine ⟨count, q, q', hx, by rw [hx', hcount, hcount'], _, _, _, _, _, hq, hq', ?_, ?_,
    fun s hs => (Ground.put_ready hitems).ne_none (hd s hs)⟩
  · exact (hown.append (hperm.flatMap_right _)).append (.refl _)
  · exact (hcalls.append (hperm.flatMap_right _)).append (.refl _)

theorem sweep_abreast (hctx : ∀ items, (ctx.arrange items).Perm items)
    (harrange : ∀ items, (arrange items).Perm items) (hsteady : ctx.host.Steady)
    (hverdict : ctx.host.Judges verdict) (number : Nat) (kinds : List Kind) :
    Abreast (Twins ctx arrange start ground base verdict) (sweep ctx number kinds)
      (sweep (ctx.arranged arrange) number kinds) := by
  induction kinds with
  | nil => exact .pure 0
  | cons kind rest ih =>
    unfold sweep
    refine (batch_abreast hctx harrange hsteady hverdict number kind).bind fun here => ?_
    exact ih.bind fun others => .pure (here + others)

/-- **The sweeps come to the same in both runs.** -/
theorem sweeps_abreast (hctx : ∀ items, (ctx.arrange items).Perm items)
    (harrange : ∀ items, (arrange items).Perm items) (hsteady : ctx.host.Steady)
    (hverdict : ctx.host.Judges verdict) (number fuel : Nat) :
    Abreast (Twins ctx arrange start ground base verdict) (sweeps ctx number fuel)
      (sweeps (ctx.arranged arrange) number fuel) := by
  induction fuel generalizing number with
  | zero => exact .pure number
  | succ fuel ih =>
    unfold sweeps
    refine (sweep_abreast hctx harrange hsteady hverdict number _).bind fun count => ?_
    split
    · exact .pure number
    · exact ih (number + 1)

end Run

end Runs

/-! ## Results -/

open Progress (At Stands Twins)

namespace Run

variable {ctx : RunContext σ}

theorem seed_congr {ctx' : RunContext σ} (h : ctx'.host = ctx.host) (last : MatchResult) :
    seed ctx' last = seed ctx last := by
  have hcall : ∀ (slot : Slot) (values : List Entity) (numbers : List Nat),
      (callObservers ctx' slot values numbers : Run σ SessionError _) =
        callObservers ctx slot values numbers := by
    intro slot values numbers
    induction numbers with
    | nil => rfl
    | cons number rest ih =>
      unfold callObservers observe
      rw [ih, h]
  have hpublish : ∀ slot values sweep,
      publish ctx' slot values sweep = publish ctx slot values sweep := by
    intro slot values sweep
    rw [publish, publish]
    simp only [hcall]
  have hseeds : ∀ seeds, publishSeeds ctx' seeds = publishSeeds ctx seeds := by
    intro seeds
    induction seeds with
    | nil => rfl
    | cons seed rest ih => rw [publishSeeds, publishSeeds, ih, hpublish]
  have hconsult : ∀ slot message, consult ctx' slot message = consult ctx slot message := by
    intro slot message
    unfold consult
    rw [h]
  have hreport : ∀ slot crashes,
      reportCrashes ctx' slot crashes = reportCrashes ctx slot crashes := by
    intro slot crashes
    rw [reportCrashes, reportCrashes]
    simp only [hconsult]
  unfold seed takeOver
  simp only [hseeds, hreport, h]

theorem seed_arranged (arrange : List Slot → List Slot) (last : MatchResult) :
    seed (ctx.arranged arrange) last = seed ctx last :=
  @seed_congr _ ctx (ctx.arranged arrange) rfl last

/-- The result at the end of a run: the reports on the graph, with the failures on record. -/
theorem collect_eq (count : Nat) (p : Progress σ) :
    (collect ctx count p : Except Payload MatchResult × Progress σ).1 =
      (Node.reports ctx.host.resolver ctx.config.pruneUnconsumed 0 p.graph.nodes p.world :
        Except Payload (List Report) × σ).1.map fun reports =>
          .ofParts count reports p.failures := by
  unfold collect
  rw [bind_apply]
  simp only [graph, bind_apply, ask, Trace.ask, ExceptT.run, StateT.run, Id.run]
  generalize (Node.reports ctx.host.resolver ctx.config.pruneUnconsumed 0 p.graph.nodes p.world :
    Except Payload (List Report) × σ) = r
  rcases r with ⟨e | reports, world⟩ <;> rfl

theorem graph_collect {start : Graph} {ground : Ground} {pub : Publications} {p : Progress σ}
    (hp : At ctx start ground pub p) (count : Nat) :
    (collect ctx count p : Except Payload MatchResult × Progress σ).2.graph = ground.after pub :=
  (collect_leads count p hp).state (fun _ _ h => h.1.graph) fun _ _ h => h.graph

theorem collect_of_sweeps {count : Nat} {p q : Progress σ}
    (hsweeps : sweeps ctx 1 (p.graph.size + 1) p = (.ok count, q)) :
    ((do
      let count ← sweeps ctx 1 ((← graph).size + 1)
      adapt .crash (collect ctx count)) : Run σ RunError MatchResult) p =
    adapt RunError.crash (collect ctx count) q := by
  rw [bind_apply]
  simp only [graph]
  rw [bind_apply, hsweeps]

end Run

/-- Two runs end alike: with the same error, or with results that agree but for the order of the
failures, crashes of observers apart. -/
inductive Session.EndsAlike (host : Host σ) (verdict : String → Decision) (world : σ) :
    Except RunError MatchResult × Progress σ → Except RunError MatchResult × Progress σ → Prop
  | error (e : RunError) (final final' : Progress σ) :
    EndsAlike host verdict world (.error e, final) (.error e, final')
  | ok {result result' : MatchResult} {final final' : Progress σ} {own own' : List Failure}
    {notes notes' : List Note} :
    result'.sweeps = result.sweeps → result'.reports = result.reports →
      result.Attributed host verdict world final own notes →
        result'.Attributed host verdict world final' own' notes' → own.Perm own' →
          EndsAlike host verdict world (.ok result, final) (.ok result', final')

/-- With a steady host the reports on a graph are always the same. -/
theorem Run.collect_steady {ctx : RunContext σ} (hsteady : ctx.host.Steady) (count : Nat)
    (p : Progress σ) : ∃ outcome : Except Payload (List Report), ∀ q : Progress σ,
      q.graph = p.graph →
        (adapt RunError.crash (collect ctx count) q : Except RunError MatchResult × Progress σ).1 =
          (outcome.map fun reports => .ofParts count reports q.failures).mapError .crash := by
  refine ⟨(Node.reports ctx.host.resolver ctx.config.pruneUnconsumed 0 p.graph.nodes p.world :
    Except Payload (List Report) × σ).1, fun q hq => ?_⟩
  change (collect ctx count q : Except Payload MatchResult × Progress σ).1.mapError
    RunError.crash = _
  rw [collect_eq, hq, hsteady.reports_constant _ 0 p.graph.nodes q.world p.world]

/-- From states that differ in the order of calls and failures alone, the reports are the same. -/
theorem Run.collect_alike {ctx : RunContext σ} {arrange : List Slot → List Slot} {start : Graph}
    {ground : Ground} {base : Progress σ} {verdict : String → Decision} {world : σ}
    {q q' : Progress σ} (hsteady : ctx.host.Steady) (hbase : base.Opens ctx.host world)
    (h : Twins ctx arrange start ground base verdict q q') (count : Nat) :
    Session.EndsAlike ctx.host verdict world (adapt RunError.crash (collect ctx count) q)
        (adapt RunError.crash (collect ctx count) q') ∧
      ((adapt RunError.crash (collect ctx count) q :
          Except RunError MatchResult × Progress σ).2.notices.map Notice.call).Perm
        ((adapt RunError.crash (collect ctx count) q' :
          Except RunError MatchResult × Progress σ).2.notices.map Notice.call) := by
  obtain ⟨pub, own, own', calls, calls', ⟨hat, notes, hsince, hsplit⟩,
    ⟨hat', notes', hsince', hsplit'⟩, hown, hcalls, -⟩ := h
  obtain ⟨outcome, houtcome⟩ := collect_steady hsteady count q
  have hresult := houtcome q rfl
  have hresult' := houtcome q' (hat'.graph.trans hat.graph.symm)
  have hends := collect_since ctx count q hsince
  have hends' := collect_since ctx count q' hsince'
  have hperm {final final' : Progress σ} (hfinal : base.Since ctx.host notes final)
      (hfinal' : base.Since ctx.host notes' final') :=
    hbase.notices_perm hfinal hsplit hfinal' hsplit' hcalls
  revert hresult hresult' hends hends'
  generalize (adapt RunError.crash (collect ctx count) q :
    Except RunError MatchResult × Progress σ) = r
  generalize (adapt RunError.crash (collect ctx count) q' :
    Except RunError MatchResult × Progress σ) = r'
  obtain ⟨r, final⟩ := r
  obtain ⟨r', final'⟩ := r'
  rintro rfl rfl
  cases outcome with
  | error payload => exact fun hfinal hfinal' => ⟨.error _ _ _, hperm hfinal hfinal'⟩
  | ok reports =>
    rintro ⟨hfailures, hfinal⟩ ⟨hfailures', hfinal'⟩
    exact ⟨.ok rfl rfl (.of_since hbase hfinal hsplit hfailures)
      (.of_since hbase hfinal' hsplit' hfailures') hown, hperm hfinal hfinal'⟩

namespace Session

variable {session session' : Session} {arrange arrange' : List Slot → List Slot}
  {lists : List (List String)} {host : Host σ} {world : σ} {verdict : String → Decision}

/-- **Two orders of tasks lead to the same end**, and to the same calls of observers. -/
theorem execute_alike (hg : session.graph.Built) (harrange : ∀ items, (arrange items).Perm items)
    (harrange' : ∀ items, (arrange' items).Perm items) (hsteady : host.Steady)
    (hverdict : host.Judges verdict) (lists : List (List String)) (world : σ) :
    EndsAlike host verdict world (session.execute arrange lists host world)
        (session.execute arrange' lists host world) ∧
      ((session.execute arrange lists host world).2.notices.map Notice.call).Perm
        ((session.execute arrange' lists host world).2.notices.map Notice.call) := by
  set ctx := session.context arrange lists host with hctx
  have hseed : session.last.forM (Run.seed (ctx.arranged arrange')) =
      session.last.forM (Run.seed ctx) :=
    congrArg session.last.forM (funext fun last => Run.seed_arranged arrange' last)
  have hexecute : session.execute arrange lists host world =
    Run.resolve ctx session.last { world, graph := session.graph } := rfl
  have hexecute' : session.execute arrange' lists host world =
    Run.resolve (ctx.arranged arrange') session.last { world, graph := session.graph } := rfl
  rw [hexecute, hexecute']
  unfold Run.resolve
  rw [bind_apply, bind_apply, hseed]
  rcases hstart : (session.last.forM (Run.seed ctx) { world, graph := session.graph } :
    Except RunError PUnit × Progress σ) with ⟨e | _, start⟩
  · exact ⟨.error e start start, .refl _⟩
  · obtain ⟨ground, hground, hat⟩ := (start_leads hg).ok rfl hstart
    obtain ⟨base, calls, notes, hbase, hsince, hsplit⟩ := exists_opening hverdict hstart
    have hstands : Stands ctx session.graph ground base verdict _ [] calls start :=
      ⟨hat, notes, hsince, hsplit⟩
    have htwins : Twins ctx arrange' session.graph ground base verdict start start :=
      ⟨_, _, _, _, _, hstands, hstands.arranged, .refl _, .refl _, hground.published⟩
    obtain ⟨count, q, q', hx, hx', htwins⟩ := Run.sweeps_abreast harrange harrange' hsteady
      hverdict 1 (start.graph.size + 1) start start htwins
    dsimp only
    rw [Run.collect_of_sweeps hx, Run.collect_of_sweeps hx']
    exact Run.collect_alike hsteady hbase htwins count

theorem log_perm_of_calls {log : σ → List (Nat × List Entity)} (hlog : host.Logs log)
    (hcalls : ((session.execute arrange lists host world).2.notices.map Notice.call).Perm
      ((session'.execute arrange' lists host world).2.notices.map Notice.call)) :
    (log (session.execute arrange lists host world).2.world).Perm
      (log (session'.execute arrange' lists host world).2.world) := by
  have hreverse : ∀ notices : List Notice, (notices.reverse.map (·.call.2)).Perm
      ((notices.map Notice.call).map Prod.snd) := by
    intro notices
    rw [List.map_map]
    exact (List.reverse_perm notices).map _
  rw [log_execute hlog, log_execute hlog]
  refine List.Perm.append_left _ ?_
  exact (hreverse _).trans ((hcalls.map _).trans (hreverse _).symm)

end Session

/-- **The order of tasks does not matter** with a steady host and a policy that goes by the failure
alone, but for the failures of observers that crash by turns. -/
theorem reports_of_arrangements {session : Session} {arrange arrange' : List Slot → List Slot}
    (hg : session.graph.Built) (harrange : ∀ items, (arrange items).Perm items)
    (harrange' : ∀ items, (arrange' items).Perm items) {host : Host σ} (hsteady : host.Steady)
    {verdict : String → Decision} (hverdict : host.Judges verdict) (lists : List (List String))
    (world : σ) :
    (∀ e, (session.execute arrange lists host world).1 = .error e ↔
      (session.execute arrange' lists host world).1 = .error e) ∧
    (∀ result, (session.execute arrange lists host world).1 = .ok result →
      ∃ result', (session.execute arrange' lists host world).1 = .ok result' ∧
        result'.reports = result.reports ∧ result'.sweeps = result.sweeps ∧
        (∃ own own' notes notes',
          result.Attributed host verdict world (session.execute arrange lists host world).2 own
            notes ∧
          result'.Attributed host verdict world (session.execute arrange' lists host world).2 own'
            notes' ∧
          own'.Perm own) ∧
        ∀ crash, host.Crashes crash → result'.failures.Perm result.failures) ∧
    ((session.execute arrange' lists host world).2.notices.map Notice.call).Perm
      ((session.execute arrange lists host world).2.notices.map Notice.call) ∧
    ∀ log, host.Logs log → (log (session.execute arrange' lists host world).2.world).Perm
      (log (session.execute arrange lists host world).2.world) := by
  obtain ⟨halike, hcalls⟩ :=
    Session.execute_alike hg harrange harrange' hsteady hverdict lists world
  refine ⟨fun e => ?_, fun result hresult => ?_, hcalls.symm,
    fun log hlog => Session.log_perm_of_calls hlog hcalls.symm⟩
  · revert halike
    generalize session.execute arrange lists host world = r
    generalize session.execute arrange' lists host world = r'
    intro halike
    cases halike with
    | error => exact .rfl
    | ok => simp
  · revert halike hcalls hresult
    generalize session.execute arrange lists host world = r
    generalize session.execute arrange' lists host world = r'
    intro halike hcalls hresult
    cases halike with
    | error => cases hresult
    | @ok _ result' _ _ own own' notes notes' hsweeps hreports hown hown' hperm =>
      cases hresult
      refine ⟨result', rfl, hreports, hsweeps, ⟨own, own', notes, notes', hown, hown', hperm.symm⟩,
        fun crash hcrash => ?_⟩
      exact (hown'.subperm hown hperm.symm.subperm hcalls.symm hcrash).antisymm
        (hown.subperm hown' hperm.subperm hcalls hcrash)

namespace Sample

theorem recorder_steady : recorder.Steady := by
  constructor
  case constructors | judge => exact fun _ _ _ => rfl
  all_goals exact fun _ => Call.ofExcept_constant _

/-- Two matchers of one batch with an observer each. -/
def watched : List ClientCall :=
  [.exactClass "A", .exactClass "B", .observe 0 .onMatch 0, .observe 1 .onMatch 1]

/-- A run of these with the tasks of a batch in a given order. -/
def watch (arrange : List Slot → List Slot) :
    Except RunError MatchResult × Progress (List (Nat × List Entity)) :=
  (session watched).execute arrange [["B", "A"]] recorder []

end Sample

theorem reports_of_watched :
    ∃ result result', (Sample.watch id).1 = .ok result ∧
      (Sample.watch List.reverse).1 = .ok result' ∧ result'.reports = result.reports ∧
      result'.failures ≠ result.failures ∧ result'.failures.Perm result.failures ∧
      (Sample.watch List.reverse).2.world.Perm (Sample.watch id).2.world := by
  have hdiffer : (Sample.watch id).1.toOption.isSome ∧
      (Sample.watch List.reverse).1.toOption.map (·.failures) ≠
        (Sample.watch id).1.toOption.map (·.failures) := by
    decide +kernel
  obtain ⟨-, hresult, -, hlog⟩ := @reports_of_arrangements _ (Sample.session Sample.watched) id
    List.reverse (Sample.built Sample.watched (by decide +kernel)) (fun items => .refl items)
    (fun items => items.reverse_perm) _ Sample.recorder_steady (fun _ => .proceed)
    (fun _ _ => rfl) [["B", "A"]] []
  have hperm : (Sample.watch List.reverse).2.world.Perm (Sample.watch id).2.world := by
    rw [Sample.watch, Sample.watch]
    exact hlog id Sample.recorder_logs
  unfold Sample.watch at hdiffer hperm ⊢
  revert hdiffer hresult hperm
  generalize (Sample.session Sample.watched).execute id [["B", "A"]] Sample.recorder [] = r
  generalize (Sample.session Sample.watched).execute List.reverse [["B", "A"]] Sample.recorder []
    = r'
  rcases r with ⟨e | result, p⟩
  · exact fun hdiffer => nomatch hdiffer.1
  · intro hdiffer hresult hperm
    obtain ⟨result', hresult', hreports, -, -, hfailures⟩ := hresult result rfl
    refine ⟨result, result', rfl, hresult', hreports, fun heq => ?_,
      hfailures (fun _ _ => some .other) fun _ _ _ => rfl, hperm⟩
    rw [hresult'] at hdiffer
    exact hdiffer.2 (congrArg some heq)

namespace Sample

/-- The same host with observers of which only the one that is called first crashes. -/
def fragile : Host (List (Nat × List Entity)) where
  resolver := recorder.resolver
  observe number values := modifyGet fun calls =>
    (if calls.isEmpty then some .other else none, calls ++ [(number, values)])

theorem fragile_steady : fragile.Steady := { recorder_steady with }

/-- A run of the two observed matchers with that host, the tasks in a given order. -/
def fray (arrange : List Slot → List Slot) :
    Except RunError MatchResult × Progress (List (Nat × List Entity)) :=
  (session watched).execute arrange [["B", "A"]] fragile []

end Sample

/-- Of observers that crash by turns, the order of tasks tells which one does. -/
theorem failures_of_fragile :
    Sample.fragile.Steady ∧ Sample.fragile.Judges (fun _ => .proceed) ∧
    (Sample.session Sample.watched).graph.Built ∧
    ∃ result result', (Sample.fray id).1 = .ok result ∧ (Sample.fray List.reverse).1 = .ok result' ∧
      result'.reports = result.reports ∧ result.failures.map (·.slot) = [0] ∧
      result'.failures.map (·.slot) = [1] ∧ ¬ result'.failures.Perm result.failures := by
  refine ⟨Sample.fragile_steady, fun _ _ => rfl, Sample.built _ (by decide +kernel), ?_⟩
  have hruns : ∃ result ∈ (Sample.fray id).1.toOption,
      ∃ result' ∈ (Sample.fray List.reverse).1.toOption, result'.reports = result.reports ∧
        result.failures.map (·.slot) = [0] ∧ result'.failures.map (·.slot) = [1] := by
    decide +kernel
  obtain ⟨result, hresult, result', hresult', hreports, hslots, hslots'⟩ := hruns
  refine ⟨result, result', eq_ok_of_toOption hresult, eq_ok_of_toOption hresult', hreports, hslots,
    hslots', fun hperm => ?_⟩
  have hslot := hperm.map (·.slot)
  rw [hslots, hslots'] at hslot
  cases List.perm_singleton.1 hslot

end Metamatch
