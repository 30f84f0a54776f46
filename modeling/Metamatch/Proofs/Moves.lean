import Metamatch.Proofs.Issued
import Metamatch.Proofs.Masks

/-!
# What edits do to a graph at a time

An edit comes to its end or is refused on the way. In either case it has gone from graph to graph by
a few kinds of moves, and changes constraints only as long as a matcher is open.

* `Graph.Move`: the moves.
* `Graph.Move.get?`, `Graph.Move.new`: what a move does to a matcher that is there, and what it
  makes.
* `ClientCall.after_moves`: every call goes by moves, and so do calls one after the other.
* `masks_of_demands`: the masks that demands lead to, and editors with them.
-/

namespace Metamatch

open Relation (ReflTransGen)

variable {g g' start : Graph} {slot s : Slot}

/-- A change of constraints that changes the mask by demands, if at all. -/
def Constraints.ByDemands (f : Constraints → Constraints) : Prop :=
  ∀ c, ∃ demands : List Demand, (f c).modifiers = demands.foldl Demand.impose c.modifiers

/-- What an edit does to a graph at a time. -/
inductive Graph.Move (g : Graph) : Graph → Prop
  | insert (kind : Kind) : Move g (g.insert kind)
  /-- The constraints of a matcher that is open are changed. -/
  | constrain {slot : Slot} {f : Constraints → Constraints} : ¬ g.Frozen slot →
    Constraints.ByDemands f →
      Move g (g.modify slot fun node => { node with constraints := f node.constraints })
  | finalize (slot : Slot) : Move g (g.modify slot ({ · with finalized := true }))
  /-- A key or an observer is attached. -/
  | attach {slot : Slot} {f : Node → Node} :
    (∀ node, (f node).constraints = node.constraints ∧ (f node).finalized = node.finalized) →
      Move g (g.modify slot f)
  | subscribe (m d : Slot) : Move g (g.subscribe m d)
  | unsubscribe (m d : Slot) : Move g (g.unsubscribe m d)

/-- What moves make of a matcher. -/
structure Node.Becomes (node node' : Node) : Prop where
  frozen : node.finalized = true → node'.finalized = true ∧ node'.constraints = node.constraints
  demands : ∃ demands : List Demand,
    node'.constraints.modifiers = demands.foldl Demand.impose node.constraints.modifiers

theorem Node.Becomes.of_eq {node node' : Node} (hfinalized : node'.finalized = node.finalized)
    (hconstraints : node'.constraints = node.constraints) : node.Becomes node' where
  frozen h := ⟨hfinalized.trans h, hconstraints⟩
  demands := ⟨[], congrArg Constraints.modifiers hconstraints⟩

namespace Graph

variable {node : Node}

theorem becomes_modify {f : Node → Node} (hf : g.get? slot = some node → node.Becomes (f node))
    (hnode : g.get? s = some node) :
    ∃ node', (g.modify slot f).get? s = some node' ∧ node.Becomes node' := by
  rw [get?_modify, hnode, Option.map_some]
  by_cases hs : slot = s
  · rw [if_pos hs]
    exact ⟨_, rfl, hf (hs ▸ hnode)⟩
  · rw [if_neg hs]
    exact ⟨_, rfl, .of_eq rfl rfl⟩

/-- **What a move does to a matcher.** Once it is frozen, its constraints stay. -/
theorem Move.get? (h : g.Move g') (hnode : g.get? s = some node) :
    ∃ node', g'.get? s = some node' ∧ node.Becomes node' := by
  cases h with
  | insert kind =>
    have hs : s ≠ g.size := Nat.ne_of_lt (lt_size hnode)
    rw [get?_insert, if_neg hs]
    exact ⟨node, hnode, .of_eq rfl rfl⟩
  | @constrain slot f hopen hf =>
    refine becomes_modify (fun hslot => ⟨fun hfinalized => absurd ?_ hopen, hf _⟩) hnode
    rw [Frozen, hslot, Option.map_some, hfinalized]
  | finalize slot => exact becomes_modify (fun _ => ⟨fun _ => ⟨rfl, rfl⟩, [], rfl⟩) hnode
  | attach hf => exact becomes_modify (fun _ => .of_eq (hf node).2 (hf node).1) hnode
  | subscribe m d =>
    rw [get?_subscribe, hnode]
    exact ⟨_, rfl, .of_eq rfl rfl⟩
  | unsubscribe m d =>
    have hview : ((g.unsubscribe m d).get? s).map (fun node => (node.finalized, node.constraints)) =
        some (node.finalized, node.constraints) := by
      rw [map_get?_unsubscribe fun _ _ _ _ => rfl, hnode]
      rfl
    obtain ⟨node', hnode', heq⟩ := Option.map_eq_some_iff.1 hview
    rw [Prod.mk.injEq] at heq
    exact ⟨node', hnode', .of_eq heq.1 heq.2⟩

theorem Move.new {node' : Node} (h : g.Move g') (hnone : g.get? s = none)
    (hnode' : g'.get? s = some node') : node'.constraints = {} := by
  have hlost : g'.size = g.size → node'.constraints = {} := by
    intro hsize
    obtain ⟨node, hnode⟩ := lt_size_iff.1 (hsize ▸ lt_size hnode')
    cases hnone.symm.trans hnode
  cases h with
  | insert kind =>
    rw [get?_insert] at hnode'
    split_ifs at hnode' with hs
    · cases hnode'
      rfl
    · cases hnone.symm.trans hnode'
  | constrain | finalize | attach => exact hlost (size_modify _)
  | subscribe m d => exact hlost size_subscribe
  | unsubscribe m d => exact hlost size_unsubscribe

end Graph

/-! ## Edits -/

namespace Edit

/-- Moves have led to a graph of which a matcher is still open. -/
def Opened (start : Graph) (slot : Slot) (g : Graph) : Prop :=
  ReflTransGen Graph.Move start g ∧ ¬ g.Frozen slot

namespace Opened

theorem attach (h : Opened start slot g) {f : Node → Node}
    (hf : ∀ node, (f node).constraints = node.constraints ∧
      (f node).finalized = node.finalized) : Opened start slot (g.modify s f) :=
  ⟨h.1.tail (.attach hf), (Graph.frozen_modify fun node => (hf node).2).not.2 h.2⟩

theorem constrain (h : Opened start slot g) {f : Constraints → Constraints}
    (hf : Constraints.ByDemands f) : Opened start slot
      (g.modify slot fun node => { node with constraints := f node.constraints }) :=
  ⟨h.1.tail (.constrain h.2 hf), (Graph.frozen_modify fun _ => by rfl).not.2 h.2⟩

theorem subscribe (h : Opened start slot g) (m d : Slot) :
    Opened start slot (g.subscribe m d) :=
  ⟨h.1.tail (.subscribe m d), Graph.frozen_subscribe.not.2 h.2⟩

theorem unsubscribe (h : Opened start slot g) (m d : Slot) :
    Opened start slot (g.unsubscribe m d) :=
  ⟨h.1.tail (.unsubscribe m d), Graph.frozen_unsubscribe.not.2 h.2⟩

end Opened

theorem constrain_opened {f : Constraints → Constraints} (hf : Constraints.ByDemands f) :
    Keeps (Opened start slot) (constrain slot f) :=
  update_keeps fun _ hg => hg.constrain hf

theorem set_opened (setting : Setting) : Keeps (Opened start slot) (set slot setting) := by
  have hreplace : ∀ (f : Constraints → Constraints) (old new : List Slot),
      (∀ c, (f c).modifiers = c.modifiers) →
      Keeps (Opened start slot) (replace slot f old new) := fun f old new hf =>
    Leads.bind (constrain_opened fun c => ⟨[], hf c⟩) fun _ =>
      relink_keeps (fun g d hg => hg.unsubscribe slot d) fun g d hg => hg.subscribe slot d
  unfold set
  refine (node_keeps slot).bind fun node => ?_
  cases setting with
  | key key => exact update_keeps fun g hg => hg.attach fun _ => ⟨rfl, rfl⟩
  | require flags set => exact constrain_opened fun _ => ⟨[.require flags set], rfl⟩
  | packagePrivate set => exact constrain_opened fun _ => ⟨[.packagePrivate set], rfl⟩
  | superclass | interfaces | declaringClass | valueType | parameterTypes =>
    exact hreplace _ _ _ fun _ => rfl
  | matchFirst | name | parameterCount => exact constrain_opened fun _ => ⟨[], rfl⟩

theorem sets_opened (settings : List Setting) :
    Keeps (Opened start slot) (settings.forM (set slot)) :=
  Leads.forM fun setting _ => set_opened setting

theorem editable_opened (slot : Slot) : Leads (ReflTransGen Graph.Move start)
    (discard (editable slot)) (fun _ => Opened start slot)
    fun _ => ReflTransGen Graph.Move start := by
  intro g hg
  rw [discard_apply]
  cases hnode : g.get? slot with
  | none =>
    rw [editable, bind_apply, node_eq, hnode]
    exact hg
  | some node =>
    rw [editable_apply hnode]
    split_ifs with hfinalized
    · exact hg
    · refine ⟨hg, ?_⟩
      rw [Graph.Frozen, hnode, Option.map_some, Option.some_inj]
      exact hfinalized

theorem matcher_opened (kind : Kind) : Leads (ReflTransGen Graph.Move start) (matcher kind)
    (Opened start) fun _ => ReflTransGen Graph.Move start := by
  intro g hg
  refine ⟨hg.tail (.insert kind), ?_⟩
  rw [Graph.Frozen, Graph.get?_insert, if_pos rfl]
  exact Bool.false_ne_true ∘ Option.some.inj

/-- What goes on while a matcher is open goes by moves. -/
theorem opened_moves {α : Type} {edit : Edit α} (h : Keeps (Opened start slot) edit) :
    Leads (Opened start slot) edit (fun _ => Opened start slot)
      fun _ => ReflTransGen Graph.Move start :=
  h.weaken (fun _ hg => hg) (fun _ _ hg => hg) fun _ _ hg => hg.1

theorem matchFirst_opened : Leads (Opened start slot)
    (constrain slot ({ · with matchFirst := true })) (fun _ => Opened start slot)
    fun _ => ReflTransGen Graph.Move start :=
  opened_moves (constrain_opened fun _ => ⟨[], rfl⟩)

theorem finalize_moves : Leads (Opened start slot) (update slot ({ · with finalized := true }))
    (fun _ => ReflTransGen Graph.Move start) fun _ => ReflTransGen Graph.Move start := by
  have hkeeps : Keeps (ReflTransGen Graph.Move start)
      (update slot ({ · with finalized := true })) :=
    update_keeps fun _ hg => hg.tail (.finalize slot)
  exact hkeeps.weaken (fun _ hg => hg.1) (fun _ _ hg => hg) fun _ _ hg => hg

theorem build_moves (slot : Slot) : Keeps (ReflTransGen Graph.Move start) (build slot) :=
  (editable_opened slot).bind fun _ => finalize_moves

theorem first_moves (kind : Kind) (settings : List Setting) :
    Keeps (ReflTransGen Graph.Move start) (first kind settings) := by
  refine (matcher_opened kind).bind fun slot => ?_
  refine (opened_moves (sets_opened settings)).bind fun _ => matchFirst_opened.bind fun _ => ?_
  exact finalize_moves.bind fun _ => .pure fun _ hg => hg

end Edit

/-! ## Calls -/

namespace ClientCall

theorem perform_moves (call : ClientCall) :
    Keeps (ReflTransGen Graph.Move start) call.perform := by
  cases call with
  | matcher kind => exact ((Edit.matcher_opened kind).weaken (fun _ hg => hg)
      (fun _ _ hg => hg.1) fun _ _ hg => hg).ignore
  | edit slot settings =>
    exact (Edit.editable_opened slot).bind fun _ => (Edit.sets_opened settings).weaken
      (fun _ hg => hg) (fun _ _ hg => hg.1) fun _ _ hg => hg.1
  | build slot => exact Edit.build_moves slot
  | buildFirst slot =>
    refine (Edit.editable_opened slot).bind fun _ => Edit.matchFirst_opened.bind fun _ => ?_
    exact (Edit.build_moves slot).weaken (fun _ hg => hg.1) (fun _ _ hg => hg) fun _ _ hg => hg
  | all kind settings =>
    refine Leads.ignore ((Edit.matcher_opened kind).bind fun slot => ?_)
    refine (Edit.opened_moves (Edit.sets_opened settings)).bind fun _ => ?_
    exact Edit.finalize_moves.bind fun _ => .pure fun _ hg => hg
  | first kind settings => exact (Edit.first_moves kind settings).ignore
  | exactClass name => exact (Edit.first_moves .cls _).ignore
  | setKey slot key => exact Edit.update_keeps fun g hg => hg.tail (.attach fun _ => ⟨rfl, rfl⟩)
  | observe slot trigger number =>
    exact Edit.update_keeps fun g hg => hg.tail (.attach fun _ => ⟨rfl, rfl⟩)

/-- **A call goes by moves**, whether it succeeds or is refused. -/
theorem after_moves (call : ClientCall) (g : Graph) :
    ReflTransGen Graph.Move g (call.after g) :=
  (perform_moves call).state (P := ReflTransGen Graph.Move g) (t := g) .refl

end ClientCall

theorem Graph.afterAll_moves (g : Graph) (calls : List ClientCall) :
    ReflTransGen Graph.Move g (g.afterAll calls) := by
  induction calls generalizing g with
  | nil => exact .refl
  | cons call rest ih => exact (call.after_moves g).trans (ih (call.after g))

/-! ## Masks -/

/-- Demands alone have led to the mask of every matcher. -/
def Graph.Demanded (g : Graph) : Prop :=
  ∀ s node, g.get? s = some node → ∃ demands, node.constraints.modifiers = .ofDemands demands

theorem Graph.Move.demanded (h : g.Move g') (hg : g.Demanded) : g'.Demanded := by
  intro s node' hnode'
  cases hnode : g.get? s with
  | none => exact ⟨[], by rw [h.new hnode hnode']; rfl⟩
  | some node =>
    obtain ⟨demands, hdemands⟩ := hg s node hnode
    obtain ⟨last, hlast, hbecomes⟩ := h.get? hnode
    cases hnode'.symm.trans hlast
    obtain ⟨later, hlater⟩ := hbecomes.demands
    refine ⟨demands ++ later, ?_⟩
    rw [hlater, hdemands, Mask.ofDemands, Mask.ofDemands, List.foldl_append]

theorem Graph.Demanded.moves (hg : g.Demanded) (h : ReflTransGen Graph.Move g g') :
    g'.Demanded := by
  induction h with
  | refl => exact hg
  | tail _ hmove ih => exact hmove.demanded ih

/-- **The last demand on a flag is the one that counts**, be it to ask for the flag or to bar it. So
demands always leave a word to be accepted, and editors make no other masks. -/
theorem masks_of_demands (demands : List Demand) :
    (Mask.ofDemands demands).needed.inter (Mask.ofDemands demands).forbidden = .empty ∧
    (∀ i, (Mask.ofDemands demands).needed.has i =
      (Demand.last? (·.decides i) demands).any (·.asks)) ∧
    (∀ i, (Mask.ofDemands demands).forbidden.has i =
      (Demand.last? (·.touches i) demands).any (·.bars)) ∧
    (∀ word, (Mask.ofDemands demands).accepts word = true ↔
      ∀ i, ((Demand.last? (·.decides i) demands).any (·.asks) → word.has i) ∧
        ((Demand.last? (·.touches i) demands).any (·.bars) → word.has i = false)) ∧
    (∃ word, (Mask.ofDemands demands).accepts word = true) ∧
    ∀ (calls : List ClientCall) (slot : Slot) (node : Node),
      (Graph.afterAll {} calls).get? slot = some node →
      ∃ others, node.constraints.modifiers = .ofDemands others ∧
        ∃ word, node.constraints.modifiers.accepts word = true := by
  refine ⟨Mask.inter_ofDemands demands, Mask.has_needed_ofDemands demands,
    Mask.has_forbidden_ofDemands demands, fun word => ?_, Mask.exists_accepts_ofDemands demands,
    fun calls slot node hnode => ?_⟩
  · simp only [Mask.accepts_iff, Mask.has_needed_ofDemands, Mask.has_forbidden_ofDemands]
  · have hempty : Graph.Demanded {} := fun s node hs => nomatch hs
    obtain ⟨others, hothers⟩ := hempty.moves (Graph.afterAll_moves {} calls) slot node hnode
    exact ⟨others, hothers, hothers ▸ Mask.exists_accepts_ofDemands others⟩

namespace Sample

/-- Package privacy takes the place of an access flag, another one its place, and then it is
dropped. -/
def flips : List Demand :=
  [.require (.union .isPublic .isStatic) true, .packagePrivate true, .require .isProtected true,
    .require .isFinal false, .packagePrivate false]

/-- The same for a matcher, with an edit that is refused. -/
def flipped : List ClientCall :=
  [.matcher .method, .edit 0 [.require (.union .isPublic .isStatic) true, .packagePrivate true],
    .edit 0 [.require .isProtected true, .require .isFinal false, .packagePrivate false],
    .build 0, .edit 0 [.require .isFinal true]]

end Sample

theorem masks_of_flips :
    (Mask.ofDemands Sample.flips).needed = .union .isStatic .isProtected ∧
    (Mask.ofDemands Sample.flips).forbidden = .isFinal ∧
    (∃ word, (Mask.ofDemands Sample.flips).accepts word = true) ∧
    ∃ node others, (Graph.afterAll {} Sample.flipped).get? 0 = some node ∧
      node.constraints.modifiers = .ofDemands Sample.flips ∧
      node.constraints.modifiers = .ofDemands others := by
  obtain ⟨-, -, -, -, hword, hmasks⟩ := masks_of_demands Sample.flips
  have hflipped : ∃ node ∈ (Graph.afterAll {} Sample.flipped).get? 0,
      node.constraints.modifiers = .ofDemands Sample.flips := by
    decide +kernel
  obtain ⟨node, hnode, hmask⟩ := hflipped
  obtain ⟨others, hothers, -⟩ := hmasks Sample.flipped 0 node hnode
  exact ⟨by decide +kernel, by decide +kernel, hword, node, others, hnode, hmask, hothers⟩

end Metamatch
