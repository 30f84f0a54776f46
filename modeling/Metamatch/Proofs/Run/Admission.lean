import Metamatch.Proofs.Run.Invariant
import Metamatch.Proofs.Run.Start

/-!
# What can be published of a matcher

Values come to a matcher from a search, which keeps to its kind and stops when it is told to, or
from an earlier report, which is located value by value. Nothing else is published of it but no
values at all.

* `Run.search_yields`: the values that a search finds.
* `Seed.gather_yields`: the values that an earlier result offers, once they are located.
* `Node.Admits`: a publication that comes from either.
* `Session.admitted_execute`: a run publishes no others.
-/

namespace Metamatch

variable {σ ε α : Type}

/-! ## Searches -/

theorem Task.ask_yields {Q : α → Prop} {call : Call σ α} (h : Yields Q call) :
    Yields Q (Task.ask call) :=
  fun trace _ => ask_ends (h trace.world trivial)

theorem Kind.members_yields (resolver : Resolver σ) (kind : Kind) (owner : ClassId) :
    Yields (fun candidates => ∀ c ∈ candidates, c.entity.kind = kind)
      (kind.members resolver owner) := by
  have hmap : ∀ {β : Type} {call : Call σ (List β)} {f : β → Candidate},
      (∀ b, (f b).entity.kind = kind) →
      Yields (fun candidates => ∀ c ∈ candidates, c.entity.kind = kind) (List.map f <$> call) :=
    fun hf => Yields.any fun _ => .pure (List.forall_mem_map.2 fun b _ => hf b)
  cases kind with
  | field | method | constructor => exact hmap fun _ => rfl
  | cls | text | parameter => exact .pure (List.forall_mem_nil _)

/-- Values of a kind, one at most of a matcher that stops at its first candidate. -/
structure Scan.Keeps (kind : Kind) (matchFirst : Bool) (values : List Entity) : Prop where
  kind : ∀ value ∈ values, value.kind = kind
  first : matchFirst = true → values.length ≤ 1

namespace Scan

variable {kind : Kind} {matchFirst : Bool}

theorem keeps_nil : Scan.Keeps kind matchFirst [] :=
  ⟨List.forall_mem_nil _, fun _ => Nat.zero_le 1⟩

theorem walk_yields (host : Host σ) (slot : Slot) (matchFirst : Bool) (checks : ClassChecks)
    (names : List String) :
    Yields (Scan.Keeps .cls matchFirst) (walk host slot matchFirst checks names) := by
  induction names with
  | nil => exact .pure keeps_nil
  | cons name rest ih =>
    unfold walk
    refine Yields.any fun answer => ?_
    cases answer with
    | error e =>
      refine Yields.any fun decision => ?_
      cases decision with
      | proceed => exact ih
      | abort => exact .pure keeps_nil
    | ok id =>
      refine Yields.any fun passes => ?_
      split
      · split
        · exact .pure ⟨by simp [Entity.kind], fun _ => Nat.le_refl 1⟩
        · next hall =>
          refine Yields.bind ih fun values hvalues => .pure ⟨?_, fun hfirst => absurd hfirst hall⟩
          exact List.forall_mem_cons.2 ⟨rfl, hvalues.kind⟩
      · exact ih

theorem mem_select {checks : MemberChecks} {candidates : List Candidate} {value : Entity}
    (h : value ∈ select matchFirst checks candidates) : ∃ c ∈ candidates, c.entity = value := by
  have hfound : value ∈ (candidates.filter checks.pass).map (·.entity) := by
    unfold select at h
    dsimp only at h
    split at h
    · exact List.mem_of_mem_take h
    · exact h
  obtain ⟨c, hc, hvalue⟩ := List.mem_map.1 hfound
  exact ⟨c, List.mem_of_mem_filter hc, hvalue⟩

theorem select_keeps {checks : MemberChecks} {candidates : List Candidate}
    (h : ∀ c ∈ candidates, c.entity.kind = kind) :
    Scan.Keeps kind matchFirst (select matchFirst checks candidates) where
  kind value hvalue := by
    obtain ⟨c, hc, rfl⟩ := mem_select hvalue
    exact h c hc
  first hfirst := by
    unfold select
    dsimp only
    rw [if_pos hfirst]
    exact List.length_take_le 1 _

theorem members_yields (host : Host σ) (g : Graph) (kind : Kind) (c : Constraints) :
    Yields (Scan.Keeps kind c.matchFirst) (members host g kind c) := by
  unfold members
  refine Yields.any fun owner => ?_
  cases owner with
  | none => exact .pure keeps_nil
  | some owner =>
    refine Yields.any fun valueType => Yields.any fun parameterTypes => ?_
    refine Yields.bind (Task.ask_yields (kind.members_yields host.resolver owner)) ?_
    exact fun candidates h => .pure (select_keeps h)

end Scan

/-- **A search keeps to the kind of its matcher** and stops at the first candidate if it is told
to. -/
theorem Run.search_yields (ctx : RunContext σ) (g : Graph) (slot : Slot) (node : Node) :
    Yields (Scan.Keeps node.kind node.constraints.matchFirst) (Run.search ctx g slot node) := by
  unfold search scan
  split
  · exact .pure Scan.keeps_nil
  · cases node.kind with
    | cls =>
      exact Yields.any fun superclass => Yields.any fun interfaces => Scan.walk_yields _ _ _ _ _
    | field | method | constructor => exact Scan.members_yields _ _ _ _
    | text | parameter => exact .pure Scan.keeps_nil

/-! ## Values located -/

theorem EntityName.findSigned_yields {Q : Entity → Prop} (resolver : Resolver σ)
    (signature : String) {candidates : List Candidate} (h : ∀ c ∈ candidates, Q c.entity) :
    Yields (fun found => ∀ entity, found = some entity → Q entity)
      (findSigned resolver signature candidates) := by
  induction candidates with
  | nil => exact .pure fun _ h => nomatch h
  | cons candidate rest ih =>
    rw [List.forall_mem_cons] at h
    unfold findSigned
    refine Yields.any fun found => ?_
    split
    · exact .pure fun entity hentity => Option.some.inj hentity ▸ h.1
    · exact ih h.2

theorem EntityName.locate_yields (resolver : Resolver σ) (name : EntityName) (like : Entity) :
    Yields (fun found => ∀ entity, found = some entity → entity.kind = like.kind)
      (name.locate resolver like) := by
  unfold locate
  refine Yields.any fun id => ?_
  split
  case h_1 | h_2 => exact .pure fun entity hentity => Option.some.inj hentity ▸ rfl
  case h_3 | h_4 | h_5 | h_6 | h_7 => exact .pure fun _ h => nomatch h
  all_goals
    refine Yields.bind (Kind.members_yields resolver _ id) fun _ hkind => ?_
    exact findSigned_yields resolver _ hkind

theorem Call.attempt_yields {Q : α → Prop} {call : Call σ α} (h : Yields Q call) :
    Yields (fun answer => ∀ a, answer = .ok a → Q a) call.attempt := by
  refine (attempt_leads h).weaken (fun _ => id) (fun answer _ hq a ha => ?_) fun _ _ _ => trivial
  rw [ha] at hq
  exact hq

theorem EntityName.locateAll_yields {R : Entity → Entity → Prop} {resolver : Resolver σ}
    {items : List (Entity × EntityName)}
    (h : ∀ item ∈ items, Yields (fun found => ∀ entity, found = some entity → R item.1 entity)
      (item.2.locate resolver item.1)) :
    Yields (fun found => ∀ values, found = some values →
      List.Forall₂ R (items.map Prod.fst) values) (locateAll resolver items) := by
  induction items with
  | nil => exact .pure fun values hvalues => Option.some.inj hvalues ▸ .nil
  | cons item rest ih =>
    rw [List.forall_mem_cons] at h
    unfold locateAll
    refine Yields.bind (Call.attempt_yields h.1) fun answer hanswer => ?_
    split
    · next value =>
      refine Yields.bind (ih h.2) fun found hfound => .pure fun values hvalues => ?_
      obtain ⟨others, hothers, rfl⟩ := Option.map_eq_some_iff.1 hvalues
      exact .cons (hanswer _ rfl value rfl) (hfound others hothers)
    · exact .pure fun _ h => nomatch h
    · exact .pure fun _ h => nomatch h

theorem Report.relocate_located {R : Entity → Entity → Prop} {resolver : Resolver σ}
    {report : Report}
    (h : ∀ value ∈ report.values, ∀ name : EntityName,
      Yields (fun found => ∀ entity, found = some entity → R value entity)
        (name.locate resolver value)) :
    Yields (fun found => ∀ values, found = some values → List.Forall₂ R report.values values)
      (report.relocate resolver) := by
  unfold relocate
  split
  · next hlength =>
    have hlocate : Yields (fun found => ∀ values, found = some values →
        List.Forall₂ R ((report.values.zip report.names).map Prod.fst) values)
        (EntityName.locateAll resolver (report.values.zip report.names)) :=
      EntityName.locateAll_yields fun item hitem => h item.1 (List.of_mem_zip hitem).1 item.2
    rwa [List.map_fst_zip (Nat.le_of_eq hlength.symm)] at hlocate
  · exact .pure fun _ h => nomatch h

theorem Report.relocate_yields (resolver : Resolver σ) (report : Report) :
    Yields (fun found => ∀ values, found = some values →
      values.map Entity.kind = report.values.map Entity.kind) (report.relocate resolver) := by
  refine Yields.mono (relocate_located fun value _ name => name.locate_yields resolver value)
    fun found h values hvalues => ?_
  rw [← List.forall₂_eq_eq_eq, List.forall₂_map_left_iff, List.forall₂_map_right_iff]
  exact (h values hvalues).flip

/-- What is true of the values located for a report is true of what is taken over. -/
theorem Seed.gather_located {Q : Report → List Entity → Prop} {resolver : Resolver σ}
    (h : ∀ report : Report, Yields (fun found => ∀ values, found = some values → Q report values)
      (report.relocate resolver)) (last : MatchResult) (g : Graph) (slots : List Slot) :
    Yields (fun seeds => ∀ seed ∈ seeds, ∃ node report, g.get? seed.1 = some node ∧
      last.offer? node = some report ∧ Q report seed.2) (gather resolver last g slots) := by
  induction slots with
  | nil => exact .pure (List.forall_mem_nil _)
  | cons s rest ih =>
    unfold gather
    split
    · exact ih
    · next report hoffer =>
      obtain ⟨node, hnode, hreport⟩ := Option.bind_eq_some_iff.1 hoffer
      refine Yields.bind (h report) fun found hfound => ?_
      cases found with
      | none => exact ih
      | some values =>
        refine Yields.bind ih fun seeds hseeds => .pure ?_
        exact List.forall_mem_cons.2 ⟨⟨node, report, hnode, hreport, hfound values rfl⟩, hseeds⟩

theorem Seed.gather_yields (resolver : Resolver σ) (last : MatchResult) (g : Graph)
    (slots : List Slot) :
    Yields (fun seeds => ∀ seed ∈ seeds, ∃ node report, g.get? seed.1 = some node ∧
      last.offer? node = some report ∧
      seed.2.map Entity.kind = report.values.map Entity.kind)
      (gather resolver last g slots) :=
  gather_located (fun report => report.relocate_yields resolver) last g slots

/-! ## Publications -/

/-- What a run never changes of a matcher. -/
def Node.design (node : Node) : Kind × Constraints × Option String :=
  (node.kind, node.constraints, node.key)

/-- What can be published of a matcher: what a search keeps to, or values in the places of those
that an earlier result offers. -/
inductive Node.Admits (last : Option MatchResult) (node : Node) : Published → Prop
  | searched {values : List Entity} {sweep : Nat} :
    Scan.Keeps node.kind node.constraints.matchFirst values →
      node.Admits last ⟨values, sweep⟩
  | takenOver {earlier : MatchResult} {report : Report} {values : List Entity} :
    last = some earlier → earlier.offer? node = some report →
      values.map Entity.kind = report.values.map Entity.kind → node.Admits last ⟨values, 0⟩

theorem Node.Admits.congr {last : Option MatchResult} {node node' : Node} {published : Published}
    (h : node.Admits last published) (hdesign : node'.design = node.design) :
    node'.Admits last published := by
  simp only [design, Prod.mk.injEq] at hdesign
  obtain ⟨hkind, hconstraints, hkey⟩ := hdesign
  cases h with
  | searched hkeeps => exact .searched (hkind ▸ hconstraints ▸ hkeeps)
  | takenOver hlast hoffer hkinds =>
    refine .takenOver hlast ?_ hkinds
    rwa [MatchResult.offer?, hkind, hkey]

/-- The matchers are as they were designed, and what is published of them is admitted. -/
structure Graph.Admitted (last : Option MatchResult) (start g : Graph) : Prop where
  design : ∀ s, (g.get? s).map Node.design = (start.get? s).map Node.design
  published : ∀ s node published, g.get? s = some node → node.published = some published →
    node.Admits last published

namespace Graph

variable {start g g' : Graph} {last : Option MatchResult} {s : Slot} {values : List Entity}
  {sweep : Nat}

theorem get?_publish (h : g.publish s values sweep = .ok g') (t : Slot) :
    (g'.get? t).map (fun node => (node.design, node.published)) = (g.get? t).map fun node =>
      (node.design, if s = t then some ⟨values, sweep⟩ else node.published) := by
  obtain ⟨_, -, -, -, hget⟩ := publish_cases h
  rw [hget, Option.map_map]
  rfl

namespace Admitted

theorem admits_iff (h : start.Admitted last g) {published : Published} :
    (∀ node, g.get? s = some node → node.Admits last published) ↔
      ∀ node, start.get? s = some node → node.Admits last published := by
  have hdesign := h.design s
  constructor
  · intro hg node hnode
    rw [hnode, Option.map_some] at hdesign
    obtain ⟨old, hold, hsame⟩ := Option.map_eq_some_iff.1 hdesign
    exact (hg old hold).congr hsame.symm
  · intro hstart node hnode
    rw [hnode, Option.map_some] at hdesign
    obtain ⟨first, hfirst, hsame⟩ := Option.map_eq_some_iff.1 hdesign.symm
    exact (hstart first hfirst).congr hsame.symm

theorem of_get? (h : start.Admitted last g) {own : Slot → Node → Option Published}
    (hget : ∀ t, (g'.get? t).map (fun node => (node.design, node.published)) =
      (g.get? t).map fun node => (node.design, own t node))
    (hown : ∀ t node published, own t node = some published → node.published = some published ∨
      ∀ first, start.get? t = some first → first.Admits last published) :
    start.Admitted last g' := by
  refine ⟨fun t => ?_, fun t node published hnode hpublished => ?_⟩
  · have hdesign := congrArg (Option.map Prod.fst) (hget t)
    rw [Option.map_map, Option.map_map] at hdesign
    exact hdesign.trans (h.design t)
  · have hnode' := hget t
    rw [hnode, Option.map_some] at hnode'
    obtain ⟨old, hold, heq⟩ := Option.map_eq_some_iff.1 hnode'.symm
    simp only [Prod.mk.injEq, hpublished] at heq
    have hadmits : old.Admits last published := by
      rcases hown t old published heq.2 with hbefore | hadmits
      · exact h.published t old published hold hbefore
      · exact h.admits_iff.2 hadmits old hold
    exact hadmits.congr heq.1.symm

theorem publish (h : start.Admitted last g)
    (hadmits : ∀ node, start.get? s = some node → node.Admits last ⟨values, sweep⟩)
    (hpublish : g.publish s values sweep = .ok g') : start.Admitted last g' := by
  refine h.of_get? (get?_publish hpublish) fun t node published hpublished => ?_
  by_cases hst : s = t
  · rw [if_pos hst, Option.some_inj] at hpublished
    exact .inr (hst ▸ hpublished ▸ hadmits)
  · rw [if_neg hst] at hpublished
    exact .inl hpublished

theorem detach (h : start.Admitted last g) (m : Slot) : start.Admitted last (g.detach m) := by
  have hget : ∀ t, ((g.detach m).get? t).map (fun node => (node.design, node.published)) =
      (g.get? t).map fun node => (node.design, node.published) :=
    map_get?_detach (fun _ _ _ _ => rfl) g m
  exact h.of_get? hget fun _ _ _ => .inl

end Admitted

end Graph

namespace Run

variable {ctx : RunContext σ} {start : Graph} {last : Option MatchResult}

theorem ofTask_yields {Q : α → Prop} {task : Task σ α} (h : Yields Q task) :
    Yields Q (ofTask task : Run σ TaskError α) :=
  fun p _ => ofTask_ends (h p.toTrace trivial)

theorem ask_yields {Q : α → Prop} {question : ExceptT ε (StateM σ) α} (h : Yields Q question) :
    Yields Q (ask question : Run σ ε α) :=
  fun p _ => ask_ends (h p.world trivial)

theorem quiet_yields {P : Graph → Prop} {Q : α → Prop} {run : Run σ ε α} (h : Yields Q run)
    (hquiet : ∀ p, (run p : Except ε α × Progress σ).2.graph = p.graph) :
    Leads (fun p => P p.graph) run (fun a p => Q a ∧ P p.graph) fun _ p => P p.graph := by
  have hgraph : Keeps (fun p => P p.graph) run := Keeps.of_state fun p hp => (hquiet p).symm ▸ hp
  exact (h.and hgraph).weaken (fun _ hp => ⟨trivial, hp⟩) (fun _ _ => id) fun _ _ => And.right

theorem quiet_keeps {P : Graph → Prop} {run : Run σ ε α}
    (hquiet : ∀ p, (run p : Except ε α × Progress σ).2.graph = p.graph) :
    Keeps (fun p => P p.graph) run :=
  (quiet_yields (Leads.trivial run) hquiet).weaken (fun _ hp => hp) (fun _ _ hp => hp.2)
    fun _ _ hp => hp

theorem admitted_publish (ctx : RunContext σ) (slot : Slot) (values : List Entity) (sweep : Nat)
    (hadmits : ∀ node, start.get? slot = some node → node.Admits last ⟨values, sweep⟩) :
    Keeps (fun p => start.Admitted last p.graph) (publish ctx slot values sweep) := by
  refine publish_keeps ?_ fun _ => quiet_keeps fun _ => rfl
  exact change_keeps (fun _ hp => hp) fun p g hp h => hp.publish hadmits h

theorem admitted_invariant (ctx : RunContext σ) (last : Option MatchResult) (start : Graph) :
    Invariant ctx last
      (fun s published => ∀ node, start.get? s = some node → node.Admits last published)
      fun p => start.Admitted last p.graph where
  tasks {_ number} _ _ := {
    search := by
      intro g slot node hnode
      have hyields := ofTask_yields (search_yields ctx g slot node)
      refine (quiet_yields (P := fun g' => g' = g ∧ start.Admitted last g') hyields
        fun _ => rfl).weaken (fun _ hp => hp) ?_ fun _ _ hp => hp.2
      rintro values p ⟨hkeeps, rfl, hp⟩
      refine ⟨hp.admits_iff.1 fun node' hnode' => ?_, hp⟩
      cases hnode.symm.trans hnode'
      exact .searched hkeeps
    publish := fun slot values => admitted_publish ctx slot values number
    consult := fun _ _ => quiet_keeps fun _ => rfl }
  draw _ _ kind := (quiet_keeps fun _ => rfl).weaken (fun _ hp => hp)
    (fun _ _ hp => ⟨fun _ _ _ _ => .searched Scan.keeps_nil, hp⟩) fun _ _ hp => hp
  gather {earlier} hlast g := by
    have hyields := ask_yields (Seed.gather_yields ctx.host.resolver earlier g g.slots)
    refine (quiet_yields (P := fun g' => g' = g ∧ start.Admitted last g') hyields
      fun _ => rfl).weaken (fun _ hp => hp) ?_ fun _ _ hp => hp.2
    rintro seeds p ⟨hseeds, rfl, hp⟩
    refine ⟨fun seed hseed => hp.admits_iff.1 fun node' hnode' => ?_, hp⟩
    obtain ⟨node, report, hnode, hoffer, hkinds⟩ := hseeds seed hseed
    cases hnode.symm.trans hnode'
    exact .takenOver hlast hoffer hkinds
  reports _ _ := quiet_keeps fun _ => rfl
  detach slot := detach_keeps (fun _ hp => hp) fun _ hp => hp.detach slot
  publish slot values := admitted_publish ctx slot values 0

end Run

/-- **What is published in a run is admitted**, if nothing is published before. -/
theorem Session.admitted_execute {session : Session}
    (hstart : ∀ s node, session.graph.get? s = some node → node.published = none)
    (arrange : List Slot → List Slot) (lists : List (List String)) (host : Host σ) (world : σ) :
    session.graph.Admitted session.last (session.execute arrange lists host world).2.graph := by
  refine session.execute_keeps (Run.admitted_invariant _ session.last session.graph) ?_
  refine ⟨fun _ => rfl, fun s node published hnode hpublished => ?_⟩
  rw [hstart s node hnode] at hpublished
  cases hpublished

end Metamatch
