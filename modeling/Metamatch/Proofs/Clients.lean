import Metamatch.Proofs.Construction
import Metamatch.Proofs.Graph.Observers

/-!
# What the calls of a client leave alone

A call makes at most one matcher, or attaches at most one observer. Whatever else it does, even if
it is refused in the end, concerns neither kinds nor publications nor observers.

* `Edit.Kept`: a condition on a graph that does not concern anything else.
* `ClientCall.after_kept`: what a call has made or attached is all that matters for it.
* `Graph.kinds_afterAll`: the kinds of the matchers that calls make.
* `Graph.observers_afterAll`: the observers that calls attach.
-/

namespace Metamatch

variable {g : Graph} {slot m s : Slot} {P : Graph → Prop}

/-! ## Edits -/

namespace Edit

/-- A condition on a graph that settings, keys, freezing and references do not concern. -/
structure Kept (P : Graph → Prop) : Prop where
  modify : ∀ {g : Graph} {slot} {f : Node → Node}, (∀ node, (f node).kind = node.kind ∧
    (f node).published = node.published ∧ (f node).subscribers = node.subscribers) →
      P g → P (g.modify slot f)
  subscribe : ∀ g m d, P g → P (g.subscribe m d)
  unsubscribe : ∀ g m d, P g → P (g.unsubscribe m d)

namespace Kept

theorem update (h : Kept P) {f : Node → Node} (hf : ∀ node, (f node).kind = node.kind ∧
    (f node).published = node.published ∧ (f node).subscribers = node.subscribers) :
    Keeps P (Edit.update slot f) :=
  update_keeps fun _ => h.modify hf

theorem constrain (h : Kept P) (f : Constraints → Constraints) :
    Keeps P (Edit.constrain slot f) :=
  h.update fun _ => ⟨rfl, rfl, rfl⟩

theorem finalize (h : Kept P) : Keeps P (Edit.update slot ({ · with finalized := true })) :=
  h.update fun _ => ⟨rfl, rfl, rfl⟩

theorem set (h : Kept P) (setting : Setting) : Keeps P (Edit.set slot setting) := by
  have hreplace : ∀ (f : Constraints → Constraints) (old new : List Slot),
      Keeps P (Edit.replace slot f old new) := fun f old new =>
    Leads.bind (Q := fun _ => P) (h.update fun _ => ⟨rfl, rfl, rfl⟩) fun _ =>
      relink_keeps (fun g d => h.unsubscribe g slot d) fun g d => h.subscribe g slot d
  unfold Edit.set
  refine (node_keeps slot).bind fun node => ?_
  cases setting with
  | key key => exact h.update fun _ => ⟨rfl, rfl, rfl⟩
  | superclass | interfaces | declaringClass | valueType | parameterTypes => exact hreplace _ _ _
  | matchFirst | require | packagePrivate | name | parameterCount => exact h.constrain _

theorem sets (h : Kept P) (settings : List Setting) :
    Keeps P (settings.forM (Edit.set slot)) :=
  Leads.forM fun setting _ => h.set setting

theorem editable (slot : Slot) : Keeps P (discard (Edit.editable slot)) := by
  refine Leads.ignore ((node_keeps slot).bind fun node => ?_)
  split <;> exact fun _ hg => hg

theorem build (h : Kept P) : Keeps P (Edit.build slot) :=
  (editable slot).bind fun _ => h.finalize

end Kept

end Edit

/-! ## Calls -/

/-- The observers that a publication concerns wait for this. -/
def Trigger.of (empty : Bool) : Trigger := if empty then .onMiss else .onMatch

theorem Trigger.fires_iff {empty : Bool} {trigger : Trigger} :
    trigger.fires empty = true ↔ trigger = .of empty := by
  cases trigger <;> cases empty <;> decide

namespace ClientCall

/-- The kind of the matcher that a call makes. -/
def made? : ClientCall → Option Kind
  | .matcher kind | .all kind _ | .first kind _ => some kind
  | .exactClass _ => some .cls
  | .edit _ _ | .build _ | .buildFirst _ | .setKey _ _ | .observe _ _ _ => none

/-- The observer that a call attaches to a slot, if it waits for an outcome. -/
def attached? (trigger : Trigger) (slot : Slot) : ClientCall → Option Nat
  | .observe slot' trigger' number =>
    if slot' = slot ∧ trigger' = trigger then some number else none
  | .matcher _ | .edit _ _ | .build _ | .buildFirst _ | .all _ _ | .first _ _ | .exactClass _
  | .setKey _ _ => none

/-- The observers that calls attach to a slot and that wait for an outcome. -/
def attached (trigger : Trigger) (slot : Slot) (calls : List ClientCall) : List Nat :=
  calls.filterMap (attached? trigger slot)

/-- The graph once a call has made its matcher or attached its observer. -/
def started (g : Graph) : ClientCall → Graph
  | .observe slot trigger number => g.modify slot (·.addSubscriber (.observer trigger number))
  | call => call.made?.elim g g.insert

theorem perform_kept (h : Edit.Kept P) (call : ClientCall) :
    Leads (fun g => P (call.started g)) call.perform (fun _ => P) fun _ => P := by
  have hmade : ∀ (kind : Kind) (rest : Slot → Edit Slot), (∀ slot, Keeps P (rest slot)) →
      Leads (fun g => P (g.insert kind)) (discard (Edit.matcher kind >>= rest))
        (fun _ => P) fun _ => P := fun kind rest hrest =>
    Leads.ignore (Leads.bind (Q := fun _ => P) (fun _ hg => hg) hrest)
  have hfirst : ∀ (kind : Kind) (settings : List Setting),
      Leads (fun g => P (g.insert kind)) (discard (Edit.first kind settings))
        (fun _ => P) fun _ => P := fun kind settings =>
    hmade kind _ fun slot => (h.sets settings).bind fun _ => (h.constrain _).bind fun _ =>
      h.finalize.bind fun _ => .pure fun _ hg => hg
  cases call with
  | matcher kind => exact Leads.ignore fun _ hg => hg
  | edit slot settings => exact (Edit.Kept.editable slot).bind fun _ => h.sets settings
  | build slot => exact h.build
  | buildFirst slot =>
    exact (Edit.Kept.editable slot).bind fun _ => (h.constrain _).bind fun _ => h.build
  | all kind settings =>
    exact hmade kind _ fun slot => (h.sets settings).bind fun _ =>
      h.finalize.bind fun _ => .pure fun _ hg => hg
  | first kind settings => exact hfirst kind settings
  | exactClass name => exact hfirst .cls _
  | setKey slot key => exact h.update fun _ => ⟨rfl, rfl, rfl⟩
  | observe slot trigger number =>
    intro g hg
    by_cases hslot : slot < g.size
    · rw [perform, Edit.observe, Edit.update_apply _ hslot]
      exact hg
    · have hsame : started g (.observe slot trigger number) = g := by
        rw [started, Graph.modify, List.modify_eq_self (Nat.not_lt.1 hslot)]
      rw [hsame] at hg
      have hedit : Keeps (· = g) (perform (.observe slot trigger number)) :=
        Edit.update_keeps fun _ h => h ▸ hsame
      exact hedit.weaken (fun _ h => h) (fun _ _ h => h ▸ hg) (fun _ _ h => h ▸ hg) g rfl

/-- **What a call has made or attached is all that matters** for a condition that concerns nothing
else, even if the call is refused later on. -/
theorem after_kept (h : Edit.Kept P) {call : ClientCall} (hg : P (call.started g)) :
    P (call.after g) :=
  (perform_kept h call g hg).state (fun _ _ hg => hg) fun _ _ hg => hg

end ClientCall

/-! ## Kinds -/

namespace Graph

variable {β : Type} {view : Node → β}

theorem map_nodes_congr {g' : Graph} (h : ∀ s, (g'.get? s).map view = (g.get? s).map view) :
    g'.nodes.map view = g.nodes.map view := by
  refine List.ext_getElem? fun s => ?_
  rw [List.getElem?_map, List.getElem?_map]
  exact h s

theorem map_nodes_modify {f : Node → Node} (hf : ∀ node, view (f node) = view node) :
    (g.modify slot f).nodes.map view = g.nodes.map view := by
  refine map_nodes_congr fun s => ?_
  rw [get?_modify, Option.map_map]
  refine congrArg (Option.map · (g.get? s)) (funext fun node => ?_)
  by_cases hs : slot = s
  · simp only [Function.comp_apply, if_pos hs, hf]
  · simp only [Function.comp_apply, if_neg hs]

theorem kept_map {items : List β} (hview : ∀ node node' : Node, node'.kind = node.kind →
    node'.published = node.published → view node' = view node) :
    Edit.Kept fun g => g.nodes.map view = items where
  modify hf hg := (map_nodes_modify fun node => hview _ _ (hf node).1 (hf node).2.1).trans hg
  subscribe g m d hg := by
    refine (map_nodes_congr fun s => ?_).trans hg
    rw [get?_subscribe, Option.map_map]
    exact congrArg (Option.map · (g.get? s)) (funext fun node => hview _ _ rfl rfl)
  unsubscribe g m d hg := by
    refine (map_nodes_congr fun s => ?_).trans hg
    exact map_get?_unsubscribe fun _ _ _ _ => hview _ _ rfl rfl

/-- **The matchers are those that the calls make**, of the kinds that they ask for, and nothing is
published yet. -/
theorem kinds_afterAll (g : Graph) (calls : List ClientCall) :
    (g.afterAll calls).nodes.map (fun node => (node.kind, node.published)) =
      g.nodes.map (fun node => (node.kind, node.published)) ++
        (calls.filterMap ClientCall.made?).map (·, none) := by
  induction calls generalizing g with
  | nil => exact (List.append_nil _).symm
  | cons call rest ih =>
    have hcall : (call.after g).nodes.map (fun node => (node.kind, node.published)) =
        g.nodes.map (fun node => (node.kind, node.published)) ++
          call.made?.toList.map (·, none) := by
      refine ClientCall.after_kept (kept_map fun _ _ hkind hpublished => ?_) ?_
      · rw [hkind, hpublished]
      · cases call with
        | matcher | all | first | exactClass =>
          simp [ClientCall.started, ClientCall.made?, insert]
        | edit | build | buildFirst | setKey => simp [ClientCall.started, ClientCall.made?]
        | observe slot trigger number =>
          refine (map_nodes_modify fun node => ?_).trans (List.append_nil _).symm
          rfl
    change ((call.after g).afterAll rest).nodes.map _ = _
    rw [ih, hcall, List.append_assoc, ← List.map_append]
    cases call <;> rfl

theorem published_afterAll {calls : List ClientCall} {node : Node}
    (h : (Graph.afterAll {} calls).get? s = some node) : node.published = none := by
  have hmem : (node.kind, node.published) ∈ (calls.filterMap ClientCall.made?).map (·, none) := by
    rw [← List.nil_append (List.map _ _), ← List.map_nil, ← kinds_afterAll]
    exact List.mem_map_of_mem (List.mem_of_getElem? h)
  obtain ⟨kind, -, heq⟩ := List.mem_map.1 hmem
  exact (congrArg Prod.snd heq).symm

/-! ## Observers -/

variable {empty : Bool}

theorem kept_observers {numbers : List Nat} :
    Edit.Kept fun g => (g.observers s empty).Perm numbers where
  modify hf hg := by rwa [observers_modify fun node => (hf node).2.2]
  subscribe _ _ _ hg := by rwa [observers_subscribe]
  unsubscribe _ _ _ hg := observers_unsubscribe.trans hg

theorem count_observers {node : Node} (hnode : g.get? s = some node) (number : Nat) :
    (g.observers s empty).count number =
      node.subscribers.count (.observer (.of empty) number) := by
  rw [observers_eq, hnode, Option.map_some, Option.elim_some, List.count_filterMap, List.count]
  refine List.countP_congr fun subscriber _ => ?_
  rw [beq_iff_eq, beq_iff_eq]
  cases subscriber with
  | matcher dependent => simp [Subscriber.called?]
  | observer trigger number' =>
    by_cases htrigger : trigger = .of empty
    · simp [Subscriber.called?, htrigger, Trigger.fires_iff.2 rfl]
    · simp [Subscriber.called?, htrigger, mt Trigger.fires_iff.1 htrigger]

theorem observers_insert (kind : Kind) :
    (g.insert kind).observers s empty = g.observers s empty := by
  rw [observers_eq, observers_eq, get?_insert]
  split_ifs with hs
  · rw [hs, get?_eq_none (Nat.le_refl _)]
    rfl
  · rfl

theorem observers_addObserver (hslot : slot < g.size) (trigger : Trigger) (number : Nat) :
    (g.modify slot (·.addSubscriber (.observer trigger number))).observers s empty =
      g.observers s empty ++
        if slot = s ∧ trigger.fires empty then [number] else [] := by
  rw [observers_eq, observers_eq, get?_modify, Option.map_map]
  by_cases hs : slot = s
  · obtain ⟨node, hnode⟩ := lt_size_iff.1 hslot
    rw [← hs, hnode]
    cases hfires : trigger.fires empty <;>
      simp [Node.addSubscriber, Subscriber.called?, hfires]
  · simp [hs, Function.comp_def]

theorem observers_after {call : ClientCall} (hc : call.InRange g.size) :
    ((call.after g).observers s empty).Perm
      (g.observers s empty ++ (call.attached? (.of empty) s).toList) := by
  refine ClientCall.after_kept kept_observers (.of_eq ?_)
  cases call with
  | matcher | all | first | exactClass =>
    exact (observers_insert _).trans (List.append_nil _).symm
  | edit | build | buildFirst | setKey => exact (List.append_nil _).symm
  | observe slot trigger number =>
    refine (observers_addObserver hc trigger number).trans (congrArg (_ ++ ·) ?_)
    by_cases hs : slot = s ∧ trigger = .of empty
    · rw [if_pos (by rwa [Trigger.fires_iff]), ClientCall.attached?, if_pos hs]
      rfl
    · rw [if_neg (by rwa [Trigger.fires_iff]), ClientCall.attached?, if_neg hs]
      rfl

/-- **The observers of a slot are those that the calls attach**, apart from the order. -/
theorem observers_afterAll {calls : List ClientCall} (h : ClientCall.AllInRange calls g) :
    ((g.afterAll calls).observers s empty).Perm
      (g.observers s empty ++ ClientCall.attached (.of empty) s calls) := by
  induction calls generalizing g with
  | nil => exact .of_eq (List.append_nil _).symm
  | cons call rest ih =>
    refine (ih h.2).trans (((observers_after h.1).append_right _).trans (.of_eq ?_))
    rw [List.append_assoc, ClientCall.attached, ClientCall.attached, List.filterMap_cons]
    cases call.attached? (.of empty) s <;> rfl

end Graph

end Metamatch
