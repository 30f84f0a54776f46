import Metamatch.Graph.Publish
import Metamatch.Proofs.Graph.Links

/-!
# Graphs in the course of a run

A run changes a graph only by publications. What the counters say is a function of what is
published, so the graph of a run is known from the graph at its start and its publications.

* `Publications`: what is published of each slot.
* `Graph.after`: a graph once given publications are out.
* `Graph.publish_cases`: what a publication does to the nodes.
* `Graph.publish_after`: one publication more, which always succeeds for a slot that is ready.
-/

namespace Metamatch

/-- What is published of each slot. -/
abbrev Publications := Slot → Option Published

namespace Publications

variable {pub : Publications} {m s : Slot} {refs : List Slot}

/-- The published values of a slot. -/
def values (pub : Publications) (s : Slot) : List Entity := (pub s).elim [] Published.values

/-- The number of references whose slots are not published. -/
def awaited (pub : Publications) (refs : List Slot) : Nat := refs.countP fun s => (pub s).isNone

/-- The number of references whose slots are published empty. -/
def missed (pub : Publications) (refs : List Slot) : Nat :=
  refs.countP fun s => (pub s).any (·.values.isEmpty)

/-- One publication more. -/
def add (pub : Publications) (slot : Slot) (values : List Entity) (sweep : Nat) : Publications :=
  Function.update pub slot (some ⟨values, sweep⟩)

theorem awaited_eq_zero : pub.awaited refs = 0 ↔ ∀ d ∈ refs, pub d ≠ none := by
  simp [awaited, List.countP_eq_zero]

theorem awaited_add (h : pub s = none) (values : List Entity) (sweep : Nat) (refs : List Slot) :
    pub.awaited refs = (pub.add s values sweep).awaited refs + refs.count s := by
  induction refs with
  | nil => rfl
  | cons d rest ih =>
    simp only [awaited, List.countP_cons, List.count_cons] at ih ⊢
    by_cases hd : d = s
    · subst hd
      simp [add, h] at ih ⊢
      omega
    · simp [add, hd] at ih ⊢
      omega

theorem missed_add (h : pub s = none) (values : List Entity) (sweep : Nat) (refs : List Slot) :
    (pub.add s values sweep).missed refs =
      pub.missed refs + if values.isEmpty then refs.count s else 0 := by
  induction refs with
  | nil => simp [missed]
  | cons d rest ih =>
    simp only [missed, List.countP_cons, List.count_cons] at ih ⊢
    by_cases hd : d = s
    · subst hd
      cases hv : values.isEmpty <;> simp [add, h, hv] at ih ⊢ <;> omega
    · simp [add, hd] at ih ⊢
      omega

end Publications

/-- A matcher once given publications are out, its own among them. -/
def Node.after (node : Node) (refs : List Slot) (pub : Publications) (own : Option Published) :
    Node :=
  { node with
    counter := if own.isSome then 0 else 1 + pub.awaited refs
    missed := pub.missed refs
    published := own }

namespace Graph

variable {g : Graph} {m d s : Slot} {refs : Slot → List Slot} {pub : Publications}

/-- A graph once given publications are out. -/
def after (g : Graph) (refs : Slot → List Slot) (pub : Publications) : Graph :=
  ⟨g.nodes.mapIdx fun s node => node.after (refs s) pub (pub s)⟩

@[simp] theorem get?_after :
    (g.after refs pub).get? s = (g.get? s).map (·.after (refs s) pub (pub s)) := by
  simp [after, get?]

@[simp] theorem size_after : (g.after refs pub).size = g.size := by
  simp [after, size]

theorem ext_get? {g' : Graph} (h : ∀ s, g.get? s = g'.get? s) : g = g' := by
  obtain ⟨nodes⟩ := g
  obtain ⟨nodes'⟩ := g'
  exact congrArg Graph.mk (List.ext_getElem? h)

theorem Fresh.after_none (h : g.Fresh refs) : g.after refs (fun _ => none) = g := by
  refine ext_get? fun s => ?_
  rw [get?_after]
  cases hs : g.get? s with
  | none => rfl
  | some node =>
    obtain ⟨-, hcounter, hmissed, hpublished, -⟩ := h.node s node hs
    simp only [Option.map_some, Node.after, Publications.awaited, Publications.missed]
    obtain ⟨⟩ := node
    simp_all

theorem isReady_after {node : Node} :
    (node.after (refs s) pub (pub s)).isReady = true ↔
      pub s = none ∧ ∀ d ∈ refs s, pub d ≠ none := by
  rw [← Publications.awaited_eq_zero, Node.isReady, Node.after, beq_iff_eq]
  cases pub s <;> simp

theorem get?_releaseAll {missed : Bool} {subscribers : List Subscriber} :
    (releaseAll missed g subscribers).get? s = (g.get? s).map fun node =>
      { node with
        counter := node.counter - subscribers.count (.matcher s)
        missed := node.missed + if missed then subscribers.count (.matcher s) else 0 } := by
  induction subscribers generalizing g with
  | nil => simp [releaseAll]
  | cons subscriber rest ih =>
    rw [releaseAll, List.foldl_cons, ← releaseAll, ih]
    cases subscriber with
    | observer trigger number => simp
    | matcher dependent =>
      simp only [get?_modify, Option.map_map]
      congr 1
      funext node
      by_cases hs : dependent = s
      · subst hs
        cases missed <;> simp [Node.release] <;> omega
      · simp [hs]

/-- **What a publication does**: a slot that awaits nothing and is not published gets its values, and
the dependents are released, each as often as it is on the list of the slot. -/
theorem publish_cases {g' : Graph} {values : List Entity} {sweep : Nat}
    (h : g.publish s values sweep = .ok g') :
    ∃ node, g.get? s = some node ∧ node.counter = 1 ∧ node.published = none ∧
      ∀ t, g'.get? t = (g.get? t).map fun other =>
        { other with
          counter := (if s = t then 0 else other.counter) - node.subscribers.count (.matcher t)
          missed := other.missed + if values.isEmpty then node.subscribers.count (.matcher t) else 0
          published := if s = t then some ⟨values, sweep⟩ else other.published } := by
  unfold publish at h
  split at h
  · cases h
  · next node hnode =>
    split_ifs at h with hcounter hpublished
    cases h
    refine ⟨node, hnode, not_not.1 hcounter, by simpa using hpublished, fun t => ?_⟩
    rw [get?_releaseAll, get?_modify, Option.map_map]
    refine congrArg (Option.map · (g.get? t)) (funext fun other => ?_)
    by_cases hst : s = t <;> simp [hst]

/-- **A slot that is ready can be published**, and the graph is then that of one publication
more. -/
theorem publish_after (h : g.Fresh refs) (hs : s < g.size) (hpub : pub s = none)
    (hrefs : ∀ d ∈ refs s, pub d ≠ none) (values : List Entity) (sweep : Nat) :
    (g.after refs pub).publish s values sweep = .ok (g.after refs (pub.add s values sweep)) := by
  obtain ⟨node, hnode⟩ := lt_size_iff.1 hs
  have hzero := Publications.awaited_eq_zero.2 hrefs
  unfold publish
  rw [get?_after, hnode, Option.map_some]
  simp only [Node.after, hpub, Option.isSome_none, hzero]
  simp only [Bool.false_eq_true, if_false, Nat.add_zero, ne_eq, not_true_eq_false]
  congr 1
  refine ext_get? fun t => ?_
  rw [get?_releaseAll, get?_modify, get?_after, get?_after, Option.map_map, Option.map_map]
  cases ht : g.get? t with
  | none => rfl
  | some other =>
    have hcount := h.count_subscribers hnode t
    have hawaited := Publications.awaited_add hpub values sweep (refs t)
    have hmissed := Publications.missed_add hpub values sweep (refs t)
    simp only [Option.map_some, Function.comp_apply, hcount]
    by_cases hst : s = t
    · subst hst
      have hadd : pub.add s values sweep s = some ⟨values, sweep⟩ := Function.update_self _ _ _
      simp only [if_true, Node.after, hadd, hmissed]
      simp
    · have ht' : pub.add s values sweep t = pub t := Function.update_of_ne (Ne.symm hst) _ _
      simp only [if_neg hst, Node.after, ht', hmissed]
      cases hpt : pub t with
      | none => simp; omega
      | some published =>
        simp

end Graph

end Metamatch
