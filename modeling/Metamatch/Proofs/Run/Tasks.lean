import Metamatch.Proofs.Run.Schedule

/-!
# Tasks

What the parts of a batch do to the publications, whatever the host does: each task publishes its
matcher or fails, and a task that failed is made up for when the batch is settled.

* `Progress.At`: the state of a run by its publications, with its steps on record.
* `Run.publish_leads`, `Run.evaluate_leads`: one publication, one task.
* `Run.execute_leads`, `Run.settleAll_leads`: all tasks of a batch, and their settlement.
-/

namespace Metamatch

variable {σ ε ε' α : Type}

/-- A run that stands at given publications: all of them are sound, and the steps on record, each
of them safe, led there. -/
structure Progress.At (ctx : RunContext σ) (start : Graph) (ground : Ground) (pub : Publications)
    (p : Progress σ) : Prop where
  graph : p.graph = ground.after pub
  sound : ground.Sound ctx pub
  recorded : Recorded start p.steps p.graph
  safe : ∀ step ∈ p.steps, step.Safe

theorem Progress.At.published {ctx : RunContext σ} {start : Graph} {ground : Ground}
    {pub : Publications} {p : Progress σ} (hp : p.At ctx start ground pub) (m : Slot) :
    (p.graph.get? m).bind (·.published) = pub m := by
  rw [hp.graph, Ground.get?_after]
  cases hm : ground.graph.get? m with
  | some node => rfl
  | none =>
    by_contra hne
    obtain ⟨node, hnode⟩ := Graph.lt_size_iff.1 (hp.sound.inRange m (Ne.symm hne))
    rw [hm] at hnode
    cases hnode

theorem Progress.At.valuation_eq {ctx : RunContext σ} {start : Graph} {ground : Ground}
    {pub : Publications} {p : Progress σ} (hp : p.At ctx start ground pub) (m : Slot) :
    p.graph.valuation m = (pub m).map (·.values) := by
  rw [Graph.valuation_eq_map, ← hp.published m]
  rfl

namespace Run

open Progress (At)

variable {ctx : RunContext σ} {start : Graph} {ground : Ground} {pub pub' : Publications}
  {s : Slot} {values : List Entity} {number : Nat}

section Rules

variable {P : Progress σ → Prop} {Q : α → Progress σ → Prop}
  {E : ε → Progress σ → Prop}

theorem adapt_leads {run : Run σ ε α} {f : ε → ε'} {E' : ε' → Progress σ → Prop}
    (h : Leads P run Q E) (hE : ∀ e p, E e p → E' (f e) p) : Leads P (adapt f run) Q E' := by
  intro p hp
  have hr := h p hp
  unfold adapt
  revert hr
  simp only [ExceptT.run, StateT.run, Id.run]
  generalize (run p : Except ε α × Progress σ) = r
  rcases r with ⟨e | a, u⟩
  · exact hE e u
  · exact id

theorem contain_leads {run : Run σ ε α} {E' : ε' → Progress σ → Prop} (h : Leads P run Q E) :
    Leads P (contain run) (fun outcome p => Ends Q E (outcome, p)) E' := h

theorem observers_leads {ctx : RunContext σ} {s : Slot} {values : List Entity}
    (h : ∀ observer, Leads P (observe ctx s values observer : Run σ ε (Option Payload))
      (fun _ => P) E) (observers : List Nat) :
    Leads P (callObservers ctx s values observers : Run σ ε (List Payload)) (fun _ => P) E := by
  induction observers with
  | nil => exact .pure fun _ hp => hp
  | cons observer rest ih =>
    unfold callObservers
    exact (h observer).bind fun crash => ih.bind fun _ => .pure fun _ hp => hp

theorem graph_leads : Leads P (graph : Run σ ε Graph) (fun g p => g = p.graph ∧ P p) E :=
  fun _ hp => ⟨rfl, hp⟩

theorem ask_leads {A : α → Prop} (hP : ∀ p world, P p → P { p with world })
    {question : ExceptT ε (StateM σ) α} (h : Yields A question) :
    Leads P (ask question : Run σ ε α) (fun a p => A a ∧ P p) fun _ => P :=
  fun p hp => ask_ends ((h p.world trivial).mono (fun _ world ha => ⟨ha, hP p world hp⟩)
    fun _ world _ => hP p world hp)

end Rules

theorem quiet_leads (run : Run σ ε α)
    (h : ∀ p, (run p : Except ε α × Progress σ).2.graph = p.graph ∧
      (run p : Except ε α × Progress σ).2.steps = p.steps) :
    Leads (At ctx start ground pub) run (fun _ => At ctx start ground pub)
      fun _ => At ctx start ground pub := by
  refine Keeps.of_state fun p hp => ?_
  exact ⟨(h p).1.trans hp.graph, hp.sound, (h p).1.symm ▸ (h p).2.symm ▸ hp.recorded,
    (h p).2.symm ▸ hp.safe⟩

theorem consult_leads (slot : Slot) (message : String) :
    Leads (At ctx start ground pub) (consult ctx slot message)
      (fun _ => At ctx start ground pub) fun _ => At ctx start ground pub :=
  quiet_leads _ fun _ => ⟨rfl, rfl⟩

theorem reportCrashes_leads (slot : Slot) (crashes : List Payload) :
    Leads (At ctx start ground pub) (reportCrashes ctx slot crashes)
      (fun _ => At ctx start ground pub) fun _ => At ctx start ground pub :=
  Leads.forM fun _ _ => consult_leads slot _

theorem observe_leads (observer : Nat) :
    Leads (At ctx start ground pub) (observe ctx s values observer : Run σ ε (Option Payload))
      (fun _ => At ctx start ground pub) fun _ _ => False := by
  intro p hp
  exact quiet_leads (observe ctx s values observer : Run σ ε _) (fun _ => ⟨rfl, rfl⟩) p hp

theorem callObservers_leads (observers : List Nat) :
    Leads (At ctx start ground pub)
      (callObservers ctx s values observers : Run σ ε (List Payload))
      (fun _ => At ctx start ground pub) fun _ _ => False :=
  observers_leads observe_leads observers

/-! ## One publication -/

theorem at_publish {p : Progress σ} (hp : At ctx start ground pub p) (hs : ground.Ready pub s)
    (hf : s ∉ ground.detached → Finds ctx (ground.after pub) s values) (number : Nat) :
    At ctx start ground (pub.add s values number)
      { p with
        graph := ground.after (pub.add s values number)
        steps := ⟨p.graph, .publish s values number⟩ :: p.steps } where
  graph := rfl
  sound := hp.sound.add hs hf number
  recorded := ⟨hp.graph ▸ ground.publish_after hs values number, hp.recorded⟩
  safe := List.forall_mem_cons.2 ⟨hp.graph ▸ hp.sound.publish_safe hs values number, hp.safe⟩

/-- **A slot that is ready is published without fail**, and its observers are called. -/
theorem publish_leads (hs : ground.Ready pub s)
    (hf : s ∉ ground.detached → Finds ctx (ground.after pub) s values) :
    Leads (At ctx start ground pub) (publish ctx s values number)
      (fun _ => At ctx start ground (pub.add s values number)) fun _ _ => False := by
  unfold publish
  refine Leads.bind (Q := fun _ => At ctx start ground (pub.add s values number)) ?_ fun _ => ?_
  · intro p hp
    have hpublish := hp.graph ▸ ground.publish_after hs values number
    simp only [change, hpublish]
    exact at_publish hp hs hf number
  · refine graph_leads.bind fun g => ?_
    exact (callObservers_leads _).weaken (fun _ hp => hp.2) (fun _ _ hp => hp) fun _ _ => id

end Run

/-! ## One task -/

/-- Some of the slots may have been published in a sweep, and nothing else was. -/
structure Publications.Tried (number : Nat) (items : List Slot) (pub pub' : Publications) : Prop
    where
  kept : ∀ s ∉ items, pub' s = pub s
  taken : ∀ s ∈ items, pub' s = pub s ∨ pub s = none ∧ ∃ values, pub' s = some ⟨values, number⟩

namespace Publications.Tried

variable {number : Nat} {items rest : List Slot} {pub pub₁ pub' : Publications} {s : Slot}

theorem refl (items : List Slot) : pub.Tried number items pub :=
  ⟨fun _ _ => rfl, fun _ _ => .inl rfl⟩

theorem add (hs : pub s = none) (values : List Entity) :
    pub.Tried number [s] (pub.add s values number) where
  kept t ht := Function.update_of_ne (fun h => ht (List.mem_singleton.2 h)) _ _
  taken t ht := by
    rw [List.mem_singleton.1 ht]
    exact .inr ⟨hs, values, Function.update_self _ _ _⟩

theorem cons (h : pub.Tried number [s] pub₁) (hrest : pub₁.Tried number rest pub')
    (hs : s ∉ rest) : pub.Tried number (s :: rest) pub' where
  kept t ht := by
    rw [List.mem_cons, not_or] at ht
    rw [hrest.kept t ht.2, h.kept t fun h => ht.1 (List.mem_singleton.1 h)]
  taken t ht := by
    rcases List.mem_cons.1 ht with rfl | ht
    · rw [hrest.kept t hs]
      exact h.taken t (List.mem_singleton_self t)
    · have hts : t ∉ [s] := fun h => hs (List.mem_singleton.1 h ▸ ht)
      rw [← h.kept t hts]
      exact hrest.taken t ht

theorem perm (h : pub.Tried number items pub') {items' : List Slot} (hperm : items.Perm items') :
    pub.Tried number items' pub' :=
  ⟨fun s hs => h.kept s fun hmem => hs (hperm.mem_iff.1 hmem),
    fun s hs => h.taken s (hperm.mem_iff.2 hs)⟩

theorem grows (h : pub.Tried number items pub') : pub.Extends pub' := by
  intro s hs
  by_cases hi : s ∈ items
  · exact (h.taken s hi).resolve_right fun hn => hs hn.1
  · exact h.kept s hi

end Publications.Tried

/-- An observer may crash so when it is called with these values. -/
def Host.Crashed (host : Host σ) (values : List Entity) (crash : Payload) : Prop :=
  ∃ number world, (host.observe number values world : Option Payload × σ).1 = some crash

/-- A policy that is told of an observer that crashed with these values may crash with this error
of the task. -/
def Host.Refuses (host : Host σ) (values : List Entity) (e : TaskError) : Prop :=
  ∃ crash payload world, host.Crashed values crash ∧
    (host.judge (TaskError.ofPayload crash).explain.root world : Except Payload Decision × σ).1 =
      .error payload ∧
    e = .ofPayload payload

namespace Run

/-- What the outcome of a task says of its slot: it is published; or the search may have failed; or
it is published, and the policy refused to be told of an observer. -/
def Accounts (ctx : RunContext σ) (ground : Ground) (pub : Publications) (s : Slot) :
    Except TaskError Unit → Prop
  | .ok () => pub s ≠ none
  | .error e => e.Contained ∧ (pub s = none → Finds ctx (ground.after pub) s []) ∧
    ∀ published, pub s = some published → ctx.host.Refuses published.values e

variable {ctx : RunContext σ} {start : Graph} {ground : Ground} {pub pub' : Publications}
  {s : Slot} {values : List Entity} {number : Nat}

open Progress (At)

theorem search_leads {node : Node} (hnode : (ground.after pub).get? s = some node) :
    Leads (At ctx start ground pub) (ofTask (search ctx (ground.after pub) s node))
      (fun values p => Finds ctx (ground.after pub) s values ∧ At ctx start ground pub p)
      fun e p => e.Contained ∧ Finds ctx (ground.after pub) s [] ∧ At ctx start ground pub p := by
  intro p hp
  have hat : ∀ trace, At ctx start ground pub { p with toTrace := trace } := fun _ =>
    ⟨hp.graph, hp.sound, hp.recorded, hp.safe⟩
  have hfinds : Finds ctx (ground.after pub) s _ := ⟨node, p.toTrace, hnode, rfl⟩
  have hcontained := search_contained ctx (ground.after pub) s node p.toTrace trivial
  refine ofTask_ends ((hcontained.and (.self _)).mono ?_ ?_)
  · rintro values trace ⟨-, hfound⟩
    rw [hfound] at hfinds
    exact ⟨hfinds, hat trace⟩
  · rintro e trace ⟨hcontained, hfound⟩
    rw [hfound] at hfinds
    exact ⟨hcontained, hfinds, hat trace⟩

/-- The task for a slot publishes it or not, and its outcome accounts for that. -/
def Tasked (ctx : RunContext σ) (start : Graph) (ground : Ground) (pub : Publications)
    (number : Nat) (s : Slot) (outcome : Except TaskError Unit) (p : Progress σ) : Prop :=
  ∃ pub', At ctx start ground pub' p ∧ pub.Tried number [s] pub' ∧
    Accounts ctx ground pub' s outcome

/-- What the observers of a publication leave behind. -/
theorem publish_crashes (s : Slot) (values : List Entity) (number : Nat) :
    Yields (fun crashes => ∀ crash ∈ crashes, ctx.host.Crashed values crash)
      (publish ctx s values number) := by
  have hcall : ∀ observers, Yields (fun crashes => ∀ crash ∈ crashes, ctx.host.Crashed values crash)
      (callObservers ctx s values observers : Run σ SessionError _) := by
    intro observers
    induction observers with
    | nil => exact .pure (by simp)
    | cons observer rest ih =>
      unfold callObservers
      have hobserve : Yields (fun crash : Option Payload =>
          ∀ payload ∈ crash, ctx.host.Crashed values payload)
          (observe ctx s values observer : Run σ SessionError _) :=
        fun p _ payload hpayload => ⟨observer, p.world, hpayload⟩
      refine hobserve.bind fun crash hcrash => ih.bind fun others hothers => .pure ?_
      intro payload hmem
      rcases List.mem_append.1 hmem with hmem | hmem
      · exact hcrash payload (Option.mem_toList.1 hmem)
      · exact hothers payload hmem
  unfold publish
  exact .any fun _ => .any fun g => hcall _

theorem consult_refused (s : Slot) (message : String) :
    Leads (fun _ => True) (consult ctx s message) (fun _ _ => True) fun payload _ =>
      ∃ world, (ctx.host.judge message world : Except Payload Decision × σ).1 = .error payload := by
  intro p _
  exact consult_ends ((Ends.self (ctx.host.judge message p.world)).mono (fun _ _ _ => trivial)
    fun payload _ hjudge => ⟨p.world, congrArg Prod.fst hjudge⟩)

theorem reportCrashes_refused (s : Slot) (crashes : List Payload) :
    Leads (fun _ => True) (reportCrashes ctx s crashes) (fun _ _ => True) fun payload _ =>
      ∃ crash ∈ crashes, ∃ world, (ctx.host.judge (TaskError.ofPayload crash).explain.root world :
        Except Payload Decision × σ).1 = .error payload :=
  Leads.forM fun crash hcrash => (consult_refused s _).weaken (fun _ => id) (fun _ _ => id)
    fun _ _ h => ⟨crash, hcrash, h⟩

theorem evaluate_leads (hs : ground.Ready pub s) :
    Leads (At ctx start ground pub) (evaluate ctx number s)
      (fun u => Tasked ctx start ground pub number s (.ok u))
      fun e => Tasked ctx start ground pub number s (.error e) := by
  unfold evaluate
  refine graph_leads.bind fun g p ⟨hg, hp⟩ => ?_
  obtain ⟨node, hnode⟩ := Graph.lt_size_iff.1 (ground.size_after.symm ▸ hs.inRange)
  subst hg
  rw [hp.graph, hnode]
  -- the search fails, or its values are published, after which only an observer can fail
  have hsearch : Leads (At ctx start ground pub) (ofTask (search ctx (ground.after pub) s node))
      (fun values p => Finds ctx (ground.after pub) s values ∧ At ctx start ground pub p)
      fun e => Tasked ctx start ground pub number s (.error e) :=
    (search_leads hnode).weaken (fun _ => id) (fun _ _ => id)
      fun e p ⟨hc, hf, hp⟩ => ⟨pub, hp, .refl _, hc, fun _ => hf,
        fun _ hpub => by rw [hs.unpublished] at hpub; cases hpub⟩
  refine hsearch.bind (fun values p ⟨hf, hp⟩ => ?_) p hp
  have hne : pub.add s values number s ≠ none := by simp [Ground.add_self]
  have hpublish : Leads (At ctx start ground pub) (adapt .session (publish ctx s values number))
      (fun crashes p => At ctx start ground (pub.add s values number) p ∧
        ∀ crash ∈ crashes, ctx.host.Crashed values crash)
      fun e => Tasked ctx start ground pub number s (.error e) := by
    have hboth : Leads (fun p => At ctx start ground pub p ∧ True) (publish ctx s values number)
        (fun crashes p => At ctx start ground (pub.add s values number) p ∧
          ∀ crash ∈ crashes, ctx.host.Crashed values crash)
        fun _ _ => False ∧ True :=
      (publish_leads hs fun _ => hf).and (publish_crashes s values number)
    exact adapt_leads (hboth.weaken (fun _ hp => ⟨hp, trivial⟩) (fun _ _ => id) fun _ _ h => h.1)
      fun _ _ => False.elim
  refine hpublish.bind (fun crashes p ⟨hp, hcrashes⟩ => ?_) p hp
  refine adapt_leads (((reportCrashes_leads s crashes).and (reportCrashes_refused s crashes)).weaken
    (fun _ hp => ⟨hp, trivial⟩) (fun _ p hp => ⟨_, hp.1, .add hs.unpublished values, hne⟩)
    fun _ _ => id) ?_ p hp
  rintro payload p ⟨hp, crash, hcrash, world, hjudge⟩
  refine ⟨_, hp, .add hs.unpublished values, TaskError.ofPayload_contained payload,
    fun h => absurd h hne, fun published hpub => ?_⟩
  rw [Ground.add_self, Option.some.injEq] at hpub
  exact ⟨crash, payload, world, hpub ▸ hcrashes crash hcrash, hjudge, rfl⟩

/-- **A task publishes its matcher or fails**, with an error of its own. -/
theorem task_leads (hs : ground.Ready pub s) :
    Leads (At ctx start ground pub) (contain (evaluate ctx number s) : Run σ ε _)
      (Tasked ctx start ground pub number s) fun _ _ => False := by
  refine (contain_leads (evaluate_leads hs)).weaken (fun _ => id) (fun outcome p h => ?_)
    fun _ _ => id
  cases outcome with
  | ok u => exact h
  | error e => exact h

/-! ## All tasks of a batch -/

theorem Accounts.of_grows {outcome : Except TaskError Unit} (h : Accounts ctx ground pub s outcome)
    (hd : s ∉ ground.detached) (hr : ∀ d ∈ ground.refs s, pub d ≠ none)
    (hgrows : pub.Extends pub') (hs : pub' s = pub s) : Accounts ctx ground pub' s outcome := by
  cases outcome with
  | ok u =>
    rw [Accounts, hs]
    exact h
  | error e =>
    exact ⟨h.1, fun hn => Ground.finds_congr hd hr (fun d hd => hgrows d (hr d hd))
      (h.2.1 (hs ▸ hn)), hs.symm ▸ h.2.2⟩

/-- The outcome of the task for a slot, whose references are published, is on the list and
accounts for it. -/
structure Open (ctx : RunContext σ) (ground : Ground)
    (outcomes : List (Slot × Except TaskError Unit)) (pub : Publications) (s : Slot) : Prop where
  inRange : s < ground.graph.size
  undetached : s ∉ ground.detached
  references : ∀ d ∈ ground.refs s, pub d ≠ none
  outcome : ∃ outcome, outcomes.lookup s = some outcome ∧ Accounts ctx ground pub s outcome

variable {outcomes : List (Slot × Except TaskError Unit)} {items : List Slot}

theorem Open.of_grows (h : Open ctx ground outcomes pub s) (hgrows : pub.Extends pub')
    (hs : pub' s = pub s) : Open ctx ground outcomes pub' s := by
  obtain ⟨outcome, hlookup, ha⟩ := h.outcome
  exact ⟨h.inRange, h.undetached, fun d hd => hgrows.ne_none (h.references d hd), outcome, hlookup,
    ha.of_grows h.undetached h.references hgrows hs⟩

theorem Open.cons {t : Slot} {other : Except TaskError Unit} (h : Open ctx ground outcomes pub s)
    (hst : s ≠ t) : Open ctx ground ((t, other) :: outcomes) pub s :=
  { h with
    outcome := by
      obtain ⟨outcome, hlookup, ha⟩ := h.outcome
      exact ⟨outcome, by rwa [List.lookup_cons, beq_false_of_ne hst], ha⟩ }

/-- **The tasks of a batch come back**, each with an outcome that accounts for its slot. -/
theorem execute_leads (hnodup : items.Nodup) (hready : ∀ s ∈ items, ground.Ready pub s)
    (hd : ∀ s ∈ items, s ∉ ground.detached) :
    Leads (At ctx start ground pub) (execute ctx number items : Run σ ε _)
      (fun outcomes p => ∃ pub', At ctx start ground pub' p ∧ pub.Tried number items pub' ∧
        ∀ s ∈ items, Open ctx ground outcomes pub' s)
      fun _ _ => False := by
  induction items generalizing pub with
  | nil => exact .pure fun p hp => ⟨pub, hp, .refl _, by simp⟩
  | cons s rest ih =>
    obtain ⟨hs, hnodup⟩ := List.nodup_cons.1 hnodup
    unfold execute
    refine (task_leads (hready s List.mem_cons_self)).bind
      fun outcome p ⟨pub₁, hp, htried, ha⟩ => ?_
    have hgrows := htried.grows
    have hready₁ : ∀ t ∈ rest, ground.Ready pub₁ t := by
      intro t ht
      obtain ⟨hsize, hpub, hrefs⟩ := hready t (List.mem_cons_of_mem s ht)
      have hts : t ∉ [s] := fun h => hs (List.mem_singleton.1 h ▸ ht)
      exact ⟨hsize, (htried.kept t hts).trans hpub, fun d hd => hgrows.ne_none (hrefs d hd)⟩
    refine ((ih hnodup hready₁ fun t ht => hd t (List.mem_cons_of_mem s ht)).bind
      fun outcomes => .pure fun p ⟨pub₂, hp, hrest, hopen⟩ => ?_) p hp
    refine ⟨pub₂, hp, htried.cons hrest hs, List.forall_mem_cons.2 ⟨?_, fun t ht => ?_⟩⟩
    · have hopen₁ : Open ctx ground ((s, outcome) :: outcomes) pub₁ s :=
        ⟨(hready s List.mem_cons_self).inRange, hd s List.mem_cons_self,
          fun d hd => hgrows.ne_none ((hready s List.mem_cons_self).references d hd), outcome,
          by rw [List.lookup_cons, beq_self_eq_true], ha⟩
      exact hopen₁.of_grows hrest.grows (hrest.kept s hs)
    · exact (hopen t ht).cons fun h => hs (h ▸ ht)

end Run

/-! ## Settlement -/

/-- What is not yet published of some slots is published empty. -/
def Publications.close (number : Nat) (items : List Slot) (pub : Publications) : Publications :=
  fun s => if s ∈ items ∧ pub s = none then some ⟨[], number⟩ else pub s

namespace Publications

variable {number : Nat} {items rest : List Slot} {pub : Publications} {s : Slot}

@[simp] theorem close_nil : pub.close number [] = pub := by
  funext t
  simp [close]

theorem close_of_published (hs : pub s ≠ none) : pub.close number items s = pub s := by
  simp [close, hs]

theorem close_of_unpublished (hs : s ∈ items) (hpub : pub s = none) :
    pub.close number items s = some ⟨[], number⟩ := by
  simp [close, hs, hpub]

theorem close_ne_none (hs : s ∈ items) : pub.close number items s ≠ none := by
  by_cases hpub : pub s = none
  · simp [close_of_unpublished hs hpub]
  · rwa [close_of_published hpub]

theorem close_singleton (hs : pub s = none) : pub.close number [s] = pub.add s [] number := by
  funext t
  by_cases ht : t = s
  · subst ht
    rw [close_of_unpublished (List.mem_singleton_self t) hs, Ground.add_self]
  · simp [close, ht, Ground.add_of_ne]

theorem close_singleton_of_published (hs : pub s ≠ none) : pub.close number [s] = pub := by
  funext t
  by_cases ht : t = s
  · subst ht
    exact close_of_published hs
  · simp [close, ht]

theorem close_cons : (pub.close number [s]).close number rest = pub.close number (s :: rest) := by
  funext t
  by_cases hpub : pub t = none
  · by_cases ht : t = s
    · subst ht
      have hclosed : pub.close number [t] t = some ⟨[], number⟩ :=
        close_of_unpublished (List.mem_singleton_self t) hpub
      rw [close_of_published (by simp [hclosed]), hclosed,
        close_of_unpublished List.mem_cons_self hpub]
    · simp [close, hpub, ht]
  · rw [close_of_published hpub, close_of_published, close_of_published hpub]
    rwa [close_of_published hpub]

theorem close_tried (number : Nat) (items : List Slot) (pub : Publications) :
    pub.Tried number items (pub.close number items) where
  kept s hs := by simp [close, hs]
  taken s hs := by
    by_cases hpub : pub s = none
    · exact .inr ⟨hpub, [], close_of_unpublished hs hpub⟩
    · exact .inl (close_of_published hpub)

end Publications

/-- A run that failed: with a crash, and at publications that are sound. -/
def Progress.Failed (ctx : RunContext σ) (start : Graph) (e : RunError) (p : Progress σ) : Prop :=
  (∃ payload, e = .crash payload) ∧ ∃ ground pub, At ctx start ground pub p

namespace Run

open Progress (At Failed)

variable {ctx : RunContext σ} {start : Graph} {ground : Ground} {pub pub' : Publications}
  {s : Slot} {number : Nat} {outcomes : List (Slot × Except TaskError Unit)} {items : List Slot}

theorem crash_leads {run : Run σ Payload α} {Q : α → Progress σ → Prop}
    (h : Leads (At ctx start ground pub) run Q fun _ => At ctx start ground pub) :
    Leads (At ctx start ground pub) (adapt .crash run) Q (Failed ctx start) :=
  adapt_leads h fun payload _ hp => ⟨⟨payload, rfl⟩, ground, pub, hp⟩

theorem Open.ready (h : Open ctx ground outcomes pub s) (hs : pub s = none) :
    ground.Ready pub s := ⟨h.inRange, hs, h.references⟩

/-- What a failed task has left unpublished is published empty, and nothing else is. -/
theorem recover_leads (h : Open ctx ground outcomes pub s)
    (hf : pub s = none → Finds ctx (ground.after pub) s []) (e : TaskError) :
    Leads (At ctx start ground pub) (recover ctx number s e)
      (fun _ => At ctx start ground (pub.close number [s])) (Failed ctx start) := by
  unfold recover
  refine (crash_leads (consult_leads s _)).bind fun _ => graph_leads.bind fun g p ⟨hg, hp⟩ => ?_
  obtain ⟨node, hnode⟩ := Graph.lt_size_iff.1 h.inRange
  rw [hg, hp.graph, Ground.get?_after, hnode, Option.map_some, Option.any_some]
  split
  · next hready =>
    have hs := (Ground.isReady_after.1 hready).1
    have hpublish : Leads (At ctx start ground pub) (adapt .session (publish ctx s [] number))
        (fun _ => At ctx start ground (pub.add s [] number)) (Failed ctx start) :=
      adapt_leads (publish_leads (h.ready hs) fun _ => hf hs) fun _ _ => False.elim
    rw [Publications.close_singleton hs]
    exact hpublish.bind (fun crashes => crash_leads (reportCrashes_leads s crashes)) p hp
  · next hready =>
    have hs : pub s ≠ none := fun hs => hready (Ground.isReady_after.2 ⟨hs, h.references⟩)
    rw [Publications.close_singleton_of_published hs]
    exact hp

/-- **A slot whose task has come back is published when it is settled**, unless the policy
crashes. -/
theorem settle_leads (h : Open ctx ground outcomes pub s) :
    Leads (At ctx start ground pub) (settle ctx number s ((outcomes.lookup s).getD (.ok ())))
      (fun _ => At ctx start ground (pub.close number [s])) (Failed ctx start) := by
  obtain ⟨outcome, hlookup, ha⟩ := h.outcome
  rw [hlookup, Option.getD_some]
  cases outcome with
  | ok u =>
    rw [Publications.close_singleton_of_published ha]
    exact .pure fun _ hp => hp
  | error e =>
    cases e with
    | session e => exact absurd rfl (ha.1 e)
    | lookup e => exact recover_leads h ha.2.1 _
    | crashed message => exact recover_leads h ha.2.1 _

/-- **To settle a batch publishes empty what its tasks have not published**, and nothing else. -/
theorem settleAll_leads (hnodup : items.Nodup)
    (hopen : ∀ s ∈ items, Open ctx ground outcomes pub s) :
    Leads (At ctx start ground pub)
      (items.forM fun s => settle ctx number s ((outcomes.lookup s).getD (.ok ())))
      (fun _ => At ctx start ground (pub.close number items)) (Failed ctx start) := by
  induction items generalizing pub with
  | nil => exact .pure fun p hp => by rwa [Publications.close_nil]
  | cons s rest ih =>
    obtain ⟨hs, hnodup⟩ := List.nodup_cons.1 hnodup
    have htried := Publications.close_tried number [s] pub
    have hopen₁ : ∀ t ∈ rest, Open ctx ground outcomes (pub.close number [s]) t := by
      intro t ht
      have hts : t ∉ [s] := fun h => hs (List.mem_singleton.1 h ▸ ht)
      exact (hopen t (List.mem_cons_of_mem s ht)).of_grows htried.grows (htried.kept t hts)
    rw [← Publications.close_cons]
    exact (settle_leads (hopen s List.mem_cons_self)).bind fun _ => ih hnodup hopen₁

end Run

end Metamatch
