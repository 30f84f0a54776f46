import Metamatch.Proofs.Clients
import Metamatch.Proofs.Graph.Balance
import Metamatch.Proofs.Lockstep
import Metamatch.Sweep

/-!
# Graphs that mirror each other

Two graphs mirror each other if they agree on everything that a run looks at: classes only have to
correspond, and subscribers may be on the list of a slot in any order. Nothing that a run does to
graphs, or reads from them, tells them apart.

* `Entity.Mirrors`: entities of the same shape over classes that correspond.
* `SetTest.holds_mirrors`: what is true of values is true of those that mirror them.
* `Node.Mirrors`, `Graph.Mirrors`: nodes and graphs.
* `Graph.Fresh.mirrors`: graphs under construction.
* `Graph.Mirrors.publish`, `Graph.Mirrors.detach`: publications, and references given up.
* `Graph.Mirrors.ready`, `Graph.Mirrors.single`, `Graph.Mirrors.active`: what is read from a graph.
-/

namespace Metamatch

variable {C : ClassId → ClassId → Prop}

/-! ## Entities -/

/-- Entities of one kind and with the same numbers, over classes that correspond. -/
inductive Entity.Mirrors (C : ClassId → ClassId → Prop) : Entity → Entity → Prop
  | cls {a b : ClassId} : C a b → Mirrors C (.cls a) (.cls b)
  | field {a b : ClassId} (index : Nat) : C a b → Mirrors C (.field ⟨a, index⟩) (.field ⟨b, index⟩)
  | method {a b : ClassId} (index : Nat) :
    C a b → Mirrors C (.method ⟨a, index⟩) (.method ⟨b, index⟩)
  | constructor {a b : ClassId} (index : Nat) :
    C a b → Mirrors C (.constructor ⟨a, index⟩) (.constructor ⟨b, index⟩)
  | parameter {a b : ClassId} (index : Nat) :
    C a b → Mirrors C (.parameter index a) (.parameter index b)

namespace Entity.Mirrors

variable {a a' b b' : Entity}

theorem kind (h : Mirrors C a b) : b.kind = a.kind := by
  cases h <;> rfl

theorem classId? (h : Mirrors C a b) : Option.Rel C a.classId? b.classId? := by
  cases h with
  | cls h | parameter _ h => exact .some h
  | field | method | constructor => exact .none

theorem eq_iff (hC : Relator.BiUnique C) (h : Mirrors C a b) (h' : Mirrors C a' b') :
    a = a' ↔ b = b' := by
  have hclass : ∀ {c c' d d' : ClassId}, C c d → C c' d' → (c = c' ↔ d = d') :=
    fun h h' => Relator.rel_eq hC h h'
  cases h with
  | cls h | parameter _ h | field _ h | method _ h | constructor _ h =>
    cases h' with
    | cls h' | parameter _ h' | field _ h' | method _ h' | constructor _ h' => simp [hclass h h']

theorem refl (a : Entity) : Mirrors Eq a a := by
  cases a with
  | cls | parameter | field | method | constructor => constructor; rfl

theorem eq (h : Mirrors Eq a b) : a = b := by
  cases h with
  | cls h | parameter _ h | field _ h | method _ h | constructor _ h => rw [h]

end Entity.Mirrors

theorem Entity.forall₂_mirrors_eq {values values' : List Entity}
    (h : List.Forall₂ (Entity.Mirrors Eq) values values') : values = values' := by
  induction h with
  | nil => rfl
  | cons h _ ih => rw [h.eq, ih]

/-! ## Tests -/

/-- The values of the slots mirror each other. -/
abbrev Valuation.Mirrors (C : ClassId → ClassId → Prop) (values values' : Valuation) : Prop :=
  ∀ s, Option.Rel (List.Forall₂ (Entity.Mirrors C)) (values s) (values' s)

section Tests

variable {values values' : Valuation} {set set' : List Entity}

theorem Entity.contains_mirrors (hC : Relator.BiUnique C)
    (hset : List.Forall₂ (Entity.Mirrors C) set set') {a b : Entity} (h : a.Mirrors C b) :
    set.contains a = set'.contains b := by
  have hunique : Relator.BiUnique (Entity.Mirrors C) :=
    ⟨fun a b c h h' => (h.eq_iff hC h').2 rfl, fun a b c h h' => (h.eq_iff hC h').1 rfl⟩
  rw [Bool.eq_iff_iff, List.contains_iff_mem, List.contains_iff_mem]
  exact List.rel_mem hunique h hset

theorem Operand.entity?_mirrors (h : values.Mirrors C values') (operand : Operand) :
    Option.Rel (Entity.Mirrors C) (operand.entity? values) (operand.entity? values') := by
  unfold entity?
  refine optionRel_bind (h operand.slot) fun items items' hitems => ?_
  refine optionRel_bind (forall₂_head? hitems) fun first first' hfirst => ?_
  cases operand with
  | value => exact .some hfirst
  | parameter slot index =>
    exact optionRel_map hfirst.classId? fun _ _ hclass => .parameter index hclass

namespace SetTest

theorem contains_mirrors (hC : Relator.BiUnique C) (h : values.Mirrors C values')
    (hset : List.Forall₂ (Entity.Mirrors C) set set') (operand : Operand) :
    contains values set operand = contains values' set' operand :=
  optionRel_any (operand.entity?_mirrors h) fun _ _ => Entity.contains_mirrors hC hset

/-- **An expression does not tell values from those that mirror them.** -/
theorem holds_mirrors (hC : Relator.BiUnique C) (h : values.Mirrors C values')
    (hset : List.Forall₂ (Entity.Mirrors C) set set') (test : SetTest) :
    test.holds values set = test.holds values' set' := by
  have hcontains : ∀ a b : Entity, a.Mirrors C b → set.contains a = set'.contains b :=
    fun a b => Entity.contains_mirrors hC hset
  induction test with
  | member operand => exact contains_mirrors hC h hset operand
  | nonMember operand => exact congrArg (!·) (contains_mirrors hC h hset operand)
  | allOf s =>
    refine optionRel_any (h s) fun items items' hitems => ?_
    rw [forall₂_isEmpty hitems, forall₂_all hitems hcontains]
  | anyOf s => exact optionRel_any (h s) fun _ _ hitems => forall₂_any hitems hcontains
  | and left right ihl ihr => rw [holds, holds, ihl, ihr]
  | or left right ihl ihr => rw [holds, holds, ihl, ihr]
  | not inner ih => rw [holds, holds, ih]

end SetTest

end Tests

/-! ## Graphs -/

/-- What was published in the same sweep, with values that mirror each other. -/
structure Published.Mirrors (C : ClassId → ClassId → Prop) (published published' : Published) :
    Prop where
  values : List.Forall₂ (Entity.Mirrors C) published.values published'.values
  sweep : published'.sweep = published.sweep

/-- Matchers that ask for the same and are asked for by the same, in whatever order, and stand
alike in a run. Whether they are frozen does not matter to a run. -/
structure Node.Mirrors (C : ClassId → ClassId → Prop) (node node' : Node) : Prop where
  kind : node'.kind = node.kind
  constraints : node'.constraints = node.constraints
  key : node'.key = node.key
  pending : node'.pending = node.pending
  counter : node'.counter = node.counter
  missed : node'.missed = node.missed
  subscribers : node.subscribers.Perm node'.subscribers
  published : Option.Rel (Published.Mirrors C) node.published node'.published

theorem Node.Mirrors.dropSubscriber {node node' : Node} (h : node.Mirrors C node')
    {index index' : Nat}
    (hperm : (swapRemove node.subscribers index).Perm (swapRemove node'.subscribers index')) :
    (node.dropSubscriber index).Mirrors C (node'.dropSubscriber index') := by
  have hisEmpty : (swapRemove node'.subscribers index').isEmpty =
      (swapRemove node.subscribers index).isEmpty := by
    rw [Bool.eq_iff_iff, List.isEmpty_iff_length_eq_zero, List.isEmpty_iff_length_eq_zero,
      hperm.length_eq]
  exact { h with
    subscribers := hperm
    pending := by simp only [Node.dropSubscriber, h.pending, h.key, hisEmpty] }

/-- The nodes of every slot mirror each other. -/
def Graph.Mirrors (C : ClassId → ClassId → Prop) (g g' : Graph) : Prop :=
  ∀ s, Option.Rel (Node.Mirrors C) (g.get? s) (g'.get? s)

namespace Graph.Mirrors

variable {g g' : Graph} {m d s : Slot}

theorem lookup (h : g.Mirrors C g') (s : Slot) : (g.get? s = none ∧ g'.get? s = none) ∨
    ∃ node node', g.get? s = some node ∧ g'.get? s = some node' ∧ node.Mirrors C node' := by
  have hs := h s
  revert hs
  generalize g.get? s = found
  generalize g'.get? s = found'
  intro hs
  cases hs with
  | some hnode => exact .inr ⟨_, _, rfl, rfl, hnode⟩
  | none => exact .inl ⟨rfl, rfl⟩

theorem nodes (h : g.Mirrors C g') : List.Forall₂ (Node.Mirrors C) g.nodes g'.nodes :=
  forall₂_of_getElem? h

theorem size_eq (h : g.Mirrors C g') : g'.size = g.size := h.nodes.length_eq.symm

theorem outOfRangeText_eq (h : g.Mirrors C g') (s : Slot) :
    g'.outOfRangeText s = g.outOfRangeText s := by
  unfold outOfRangeText
  rw [h.size_eq]

theorem references_eq (h : g.Mirrors C g') (s : Slot) : g'.references s = g.references s := by
  rcases h.lookup s with ⟨hs, hs'⟩ | ⟨node, node', hs, hs', hnode⟩
  · rw [references, references, hs, hs']
  · rw [references_of_get? hs, references_of_get? hs', hnode.constraints]

/-! ### What is read -/

theorem valuation (h : g.Mirrors C g') : Valuation.Mirrors C g.valuation g'.valuation := by
  intro s
  rcases h.lookup s with ⟨hs, hs'⟩ | ⟨node, node', hs, hs', hnode⟩
  · rw [valuation_eq, valuation_eq, hs, hs']
    exact .none
  · rw [valuation_eq, valuation_eq, hs, hs']
    exact optionRel_map hnode.published fun _ _ => Published.Mirrors.values

theorem look (h : g.Mirrors C g') (s : Slot) :
    Agree (List.Forall₂ (Entity.Mirrors C)) (g.look s) (g'.look s) := by
  unfold Graph.look
  rcases h.lookup s with ⟨hs, hs'⟩ | ⟨node, node', hs, hs', hnode⟩
  · simp only [hs, hs', h.outOfRangeText_eq]
    exact .error _
  · rw [hs, hs']
    exact .ok (optionRel_elim hnode.published .nil fun _ _ => Published.Mirrors.values)

theorem single (h : g.Mirrors C g') (slot : Option Slot) :
    Agree (Option.Rel C) (g.single slot) (g'.single slot) := by
  cases slot with
  | none => exact .ok .none
  | some slot =>
    refine (h.look slot).bind fun values values' hvalues => .ok ?_
    exact optionRel_bind (forall₂_head? hvalues) fun _ _ => Entity.Mirrors.classId?

theorem allPublished (h : g.Mirrors C g') (slots : List Slot) :
    g'.allPublished slots = g.allPublished slots := by
  induction slots with
  | nil => rfl
  | cons slot rest ih =>
    refine (Agree.bind (S := Eq) (h.look slot) fun values values' hvalues => ?_).eq.symm
    rw [forall₂_isEmpty hvalues, ih]
    exact .refl _

theorem active (h : g.Mirrors C g') (test : Option SetTest) : g'.active test = g.active test := by
  cases test with
  | none => rfl
  | some test => rw [Graph.active, Graph.active, h.allPublished]

theorem ready (h : g.Mirrors C g') (prune : Bool) (kind : Kind) :
    g'.ready prune kind = g.ready prune kind := by
  unfold Graph.ready slots
  rw [h.size_eq]
  refine List.filter_congr fun s _ => ?_
  rcases h.lookup s with ⟨hs, hs'⟩ | ⟨node, node', hs, hs', hnode⟩
  · rw [hs, hs']
  · rw [hs, hs', Option.any_some, Option.any_some, Node.isReady, Node.isReady, Node.isPruned,
      Node.isPruned, hnode.kind, hnode.counter, hnode.pending]

theorem observers (h : g.Mirrors C g') (s : Slot) (empty : Bool) :
    (g.observers s empty).Perm (g'.observers s empty) := by
  rw [observers_eq, observers_eq]
  refine optionRel_elim (optionRel_map (h s) fun _ _ => Node.Mirrors.subscribers) (.refl _) ?_
  exact fun _ _ hsubscribers => hsubscribers.filterMap _

/-! ### Changes -/

theorem modify (h : g.Mirrors C g') {f f' : Node → Node}
    (hf : ∀ node node', g.get? d = some node → g'.get? d = some node' → node.Mirrors C node' →
      (f node).Mirrors C (f' node')) : (g.modify d f).Mirrors C (g'.modify d f') := by
  intro s
  rw [get?_modify, get?_modify]
  rcases h.lookup s with ⟨hs, hs'⟩ | ⟨node, node', hs, hs', hnode⟩
  · rw [hs, hs']
    exact .none
  · rw [hs, hs']
    refine .some ?_
    by_cases hd : d = s
    · subst hd
      simpa using hf node node' hs hs' hnode
    · simpa [hd] using hnode

theorem releaseAll (h : g.Mirrors C g') (missed : Bool) {subscribers subscribers' : List Subscriber}
    (hperm : subscribers.Perm subscribers') :
    (Graph.releaseAll missed g subscribers).Mirrors C
      (Graph.releaseAll missed g' subscribers') := by
  intro s
  rw [get?_releaseAll, get?_releaseAll, hperm.count_eq]
  refine optionRel_map (h s) fun node node' hnode => ?_
  exact { hnode with
    counter := by rw [hnode.counter]
    missed := by rw [hnode.missed] }

/-- **Publications of values that mirror each other agree**, be it on why they fail. -/
theorem publish (h : g.Mirrors C g') (s : Slot) {values values' : List Entity}
    (hvalues : List.Forall₂ (Entity.Mirrors C) values values') (sweep : Nat) :
    Agree (Graph.Mirrors C) (g.publish s values sweep) (g'.publish s values' sweep) := by
  unfold Graph.publish
  rcases h.lookup s with ⟨hs, hs'⟩ | ⟨node, node', hs, hs', hnode⟩
  · rw [hs, hs']
    exact .error _
  · have hpublished : node.published.isSome = node'.published.isSome :=
      optionRel_isSome hnode.published
    rw [hs, hs']
    dsimp only
    rw [hnode.counter, ← hpublished, ← forall₂_isEmpty hvalues]
    split_ifs
    · exact .error _
    · exact .error _
    · refine .ok (Mirrors.releaseAll (h.modify fun _ _ _ _ hother => ?_) _ hnode.subscribers)
      exact { hother with counter := rfl, published := .some ⟨hvalues, rfl⟩ }

theorem unsubscribe (h : g.Mirrors C g') (m d : Slot) :
    (g.unsubscribe m d).Mirrors C (g'.unsubscribe m d) := by
  unfold Graph.unsubscribe
  rcases h.lookup d with ⟨hs, hs'⟩ | ⟨node, node', hs, hs', hnode⟩
  · rw [hs, hs']
    exact h
  · cases hindex : node.subscribers.idxOf? (.matcher m) with
    | none =>
      have hindex' : node'.subscribers.idxOf? (.matcher m) = none := by
        rw [List.idxOf?_eq_none_iff] at hindex ⊢
        rwa [← hnode.subscribers.mem_iff]
      simpa only [hs, hs', hindex, hindex'] using h
    | some index =>
      have hmem := List.isSome_idxOf?.1 (Option.isSome_of_eq_some hindex)
      obtain ⟨index', hindex'⟩ := Option.isSome_iff_exists.1
        (List.isSome_idxOf?.2 (hnode.subscribers.mem_iff.1 hmem))
      have hperm : (swapRemove node.subscribers index).Perm
          (swapRemove node'.subscribers index') :=
        (swapRemove_perm_erase hindex).trans
          ((hnode.subscribers.erase _).trans (swapRemove_perm_erase hindex').symm)
      simp only [hs, hs', hindex, hindex']
      rw [← drop, ← drop]
      refine Mirrors.modify (h.modify fun other other' hother hother' _ => ?_)
        fun _ _ _ _ hnodes => { hnodes with counter := by rw [hnodes.counter] }
      cases hs.symm.trans hother
      cases hs'.symm.trans hother'
      exact hnode.dropSubscriber hperm

theorem detach (h : g.Mirrors C g') (m : Slot) : (g.detach m).Mirrors C (g'.detach m) := by
  unfold Graph.detach
  rw [h.references_eq]
  induction g.references m generalizing g g' with
  | nil => exact h
  | cons d rest ih => exact ih (h.unsubscribe m d)

end Graph.Mirrors

/-! ## Graphs under construction -/

/-- **Graphs that obey the law of construction mirror each other** if their matchers ask for the
same and have the same observers: lists, counters and flags say nothing more. -/
theorem Graph.Fresh.mirrors {g g' : Graph} (h : g.Fresh g.references) (h' : g'.Fresh g'.references)
    (hnodes : ∀ s, (g'.get? s).map (fun node => (node.kind, node.constraints, node.key)) =
      (g.get? s).map fun node => (node.kind, node.constraints, node.key))
    (hobservers : ∀ s empty, (g.observers s empty).Perm (g'.observers s empty))
    (C : ClassId → ClassId → Prop) : g.Mirrors C g' := by
  have hreferences : g'.references = g.references := by
    funext s
    have hs := congrArg (Option.map fun fields => fields.2.1.references) (hnodes s)
    rw [Option.map_map, Option.map_map] at hs
    unfold Graph.references
    cases hg : g.get? s <;> cases hg' : g'.get? s <;> simp_all
  intro s
  have hs := hnodes s
  cases hg : g.get? s with
  | none =>
    have hg' : g'.get? s = none := by simpa [hg] using hs
    rw [hg']
    exact .none
  | some node =>
    obtain ⟨node', hg', hfields⟩ : ∃ node', g'.get? s = some node' ∧
        (node'.kind, node'.constraints, node'.key) = (node.kind, node.constraints, node.key) := by
      rw [hg, Option.map_some, Option.map_eq_some_iff] at hs
      exact hs
    simp only [Prod.mk.injEq] at hfields
    have hnode := h.node s node hg
    have hnode' := h'.node s node' hg'
    have hsubscribers : node.subscribers.Perm node'.subscribers := by
      refine List.perm_iff_count.2 fun subscriber => ?_
      cases subscriber with
      | matcher m =>
        rw [h.count_subscribers hg, h'.count_subscribers hg', hreferences]
      | observer trigger number =>
        obtain ⟨empty, rfl⟩ : ∃ empty, trigger = .of empty := by
          cases trigger
          · exact ⟨false, rfl⟩
          · exact ⟨true, rfl⟩
        rw [← count_observers hg, ← count_observers hg', (hobservers s empty).count_eq]
    rw [hg']
    refine .some ⟨hfields.1, hfields.2.1, hfields.2.2, ?_, ?_, ?_, hsubscribers, ?_⟩
    · have hnil : node'.subscribers = [] ↔ node.subscribers = [] := by
        rw [← List.length_eq_zero_iff, ← List.length_eq_zero_iff, hsubscribers.length_eq]
      rw [Bool.eq_iff_iff, hnode.pending, hnode'.pending, hnil, hfields.2.2]
    · rw [hnode.counter, hnode'.counter, hreferences]
    · rw [hnode.missed, hnode'.missed]
    · rw [hnode.published, hnode'.published]
      exact .none

end Metamatch
