import Metamatch.Proofs.Moves
import Metamatch.Proofs.Run.Graphs

/-!
# Building freezes a matcher

Keys and observers are attached to a matcher that is built, others refer to it, and a run publishes
it. None of this concerns what it asks of its candidates.

* `ClientCall.frozen_of_given`: a matcher is frozen when a handle of its values is given out.
* `Graph.Frozen.moves`: it stays so, with its constraints, whatever is called afterwards.
* `Session.edit_of_frozen`: edits of it are refused and change nothing.
* `Session.constraints_graphs`: nor does a run change any constraints.
* `constraints_of_given`: building freezes.
-/

namespace Metamatch

open Relation (ReflTransGen)

variable {σ α : Type} {g g' : Graph} {slot s : Slot}

/-! ## Before a run -/

namespace Edit

theorem finalize_frozen : Leads (fun _ => True) (update slot ({ · with finalized := true }))
    (fun _ g => g.Frozen slot) fun _ _ => True := by
  refine Leads.bind (Q := fun _ g => ∃ node, g.get? slot = some node) ?_ fun _ => ?_
  · intro g _
    rw [discard_apply, node_eq]
    cases hnode : g.get? slot with
    | none => trivial
    | some node => exact ⟨node, hnode⟩
  · rintro g ⟨node, hnode⟩
    change ((g.modify slot _).get? slot).map _ = some true
    rw [Graph.get?_modify, hnode, Option.map_some, if_pos rfl]
    rfl

theorem build_frozen (slot : Slot) : Leads (fun _ => True) (build slot)
    (fun _ g => g.Frozen slot) fun _ _ => True :=
  (Leads.trivial _).bind fun _ => finalize_frozen

theorem first_frozen (kind : Kind) (settings : List Setting) :
    Leads (fun _ => True) (first kind settings) (fun slot g => g.Frozen slot) fun _ _ => True :=
  (Leads.trivial _).bind fun _ => (Leads.trivial _).bind fun _ => (Leads.trivial _).bind fun _ =>
    finalize_frozen.bind fun _ => .pure fun _ hg => hg

end Edit

namespace ClientCall

/-- Handles of values are those of matchers that are frozen. -/
def GivesFrozen (handles : List Handle) (g : Graph) : Prop :=
  ∀ handle ∈ handles, handle.form ≠ .matcher → g.Frozen handle.slot

theorem respond_frozen (call : ClientCall) :
    Leads (fun _ => True) call.respond GivesFrozen fun _ _ => True := by
  have hnone : ∀ edit : Edit Unit, Leads (fun _ => True) (edit >>= fun _ => pure [])
      GivesFrozen fun _ _ => True :=
    fun edit => (Leads.trivial edit).bind fun _ => .pure fun _ _ => List.forall_mem_nil _
  have hsingle : ∀ (form : HandleForm) (kind : Kind) (slot : Slot) (g : Graph), g.Frozen slot →
      GivesFrozen [⟨form, kind, slot⟩] g :=
    fun form kind slot g hg => List.forall_mem_singleton.2 fun _ => hg
  cases call with
  | matcher kind =>
    refine (Leads.trivial _).bind fun slot => .pure fun g _ => ?_
    exact List.forall_mem_singleton.2 fun hform => absurd rfl hform
  | edit slot settings => exact hnone _
  | build slot =>
    refine (Leads.trivial _).bind fun node => (Edit.build_frozen slot).bind fun _ => ?_
    exact .pure fun g hg => hsingle _ _ _ g hg
  | buildFirst slot =>
    refine (Leads.trivial _).bind fun node => ?_
    refine ((Leads.trivial _).bind fun _ => (Leads.trivial _).bind fun _ =>
      Edit.build_frozen slot).bind fun _ => ?_
    exact .pure fun g hg => hsingle _ _ _ g hg
  | all kind settings =>
    refine ((Leads.trivial _).bind fun slot => (Leads.trivial _).bind fun _ =>
      Edit.finalize_frozen.bind fun _ => .pure fun _ hg => hg).bind fun slot => ?_
    exact .pure fun g hg => hsingle _ _ _ g hg
  | first kind settings =>
    exact (Edit.first_frozen kind settings).bind fun slot =>
      .pure fun g hg => hsingle _ _ _ g hg
  | exactClass name =>
    exact (Edit.first_frozen .cls _).bind fun slot => .pure fun g hg => hsingle _ _ _ g hg
  | setKey slot key => exact hnone _
  | observe slot trigger number => exact hnone _

/-- **A matcher is frozen when a handle of its values is given out.** -/
theorem frozen_of_given {call : ClientCall} {handle : Handle} (hgiven : handle ∈ call.given g)
    (hform : handle.form ≠ .matcher) : (call.after g).Frozen handle.slot := by
  have hrespond := call.respond_frozen g trivial
  rw [← respond_after]
  change handle ∈ (call.respond g : Except EditError (List Handle) × Graph).1.toOption.getD []
    at hgiven
  revert hrespond hgiven
  generalize (call.respond g : Except EditError (List Handle) × Graph) = r
  rcases r with ⟨e | handles, g'⟩
  · exact fun _ hgiven => absurd hgiven List.not_mem_nil
  · exact fun hfrozen hgiven => hfrozen handle hgiven hform

end ClientCall

namespace Graph

/-- The constraints of a matcher that is there. -/
def constraints? (g : Graph) (s : Slot) : Option Constraints := (g.get? s).map (·.constraints)

/-- **A matcher that is frozen stays so, with its constraints**, whatever moves there are. -/
theorem Frozen.moves (hs : g.Frozen s) (h : ReflTransGen Move g g') :
    g'.Frozen s ∧ g'.constraints? s = g.constraints? s := by
  induction h with
  | refl => exact ⟨hs, rfl⟩
  | tail _ hmove ih =>
    obtain ⟨hfrozen, hconstraints⟩ := ih
    rw [Frozen] at hfrozen
    obtain ⟨node, hnode, hfinalized⟩ := Option.map_eq_some_iff.1 hfrozen
    obtain ⟨node', hnode', hbecomes⟩ := hmove.get? hnode
    obtain ⟨hfinalized', hsame⟩ := hbecomes.frozen hfinalized
    rw [Frozen, hnode', Option.map_some, hfinalized', ← hconstraints, constraints?, hnode',
      constraints?, hnode, Option.map_some, hsame]
    exact ⟨rfl, rfl⟩

end Graph

/-- An edit of a frozen matcher is refused, whatever it was to do, and changes nothing. -/
theorem Session.edit_of_frozen {session : Session} (hs : session.graph.Frozen s) (rest : Edit α) :
    session.edit (discard (Edit.editable s) >>= fun _ => rest) =
      (.error (.refused (.finalized s)), session) := by
  rw [Graph.Frozen] at hs
  obtain ⟨node, hnode, hfinalized⟩ := Option.map_eq_some_iff.1 hs
  have hedit : (discard (Edit.editable s) >>= fun _ => rest) session.graph =
      (.error (.refused (.finalized s)), session.graph) := by
    rw [bind_apply, discard_apply, Edit.editable_apply hnode, if_pos hfinalized]
    rfl
  change (((discard (Edit.editable s) >>= fun _ => rest) session.graph).1,
    { session with graph := ((discard (Edit.editable s) >>= fun _ => rest) session.graph).2 }) = _
  rw [hedit]

/-! ## During a run -/

/-- A run changes no constraints: each of its graphs has those of the session. -/
theorem Session.constraints_graphs (session : Session) (arrange : List Slot → List Slot)
    (lists : List (List String)) (host : Host σ) (world : σ) :
    ∀ g ∈ (session.execute arrange lists host world).2.graphs, ∀ s,
      g.constraints? s = session.graph.constraints? s := by
  have hdetach : ∀ (g : Graph) (slot s : Slot), (g.detach slot).constraints? s =
      g.constraints? s := fun g slot s => Graph.map_get?_detach (fun _ _ _ _ => rfl) g slot s
  have hpublish : ∀ (g g' : Graph) (slot : Slot) (values : List Entity) (sweep : Nat),
      g.publish slot values sweep = .ok g' → ∀ s, g'.constraints? s = g.constraints? s := by
    intro g g' slot values sweep h s
    obtain ⟨_, -, -, -, hget⟩ := Graph.publish_cases h
    rw [Graph.constraints?, hget, Option.map_map]
    rfl
  have hpairwise := session.pairwise_graphs
    (r := fun g g' => ∀ s, g'.constraints? s = g.constraints? s)
    (fun _ _ => rfl) (fun _ _ _ h h' s => (h' s).trans (h s)) hdetach hpublish
    arrange lists host world
  exact (List.pairwise_cons.1 hpairwise).1

/-- **Building freezes a matcher.** Its constraints stay as they are, whatever calls follow and in
every run, and to edit it or to build it again is refused and changes nothing. -/
theorem constraints_of_given {call : ClientCall} {handle : Handle} (hgiven : handle ∈ call.given g)
    (hform : handle.form ≠ .matcher) (calls : List ClientCall) {session : Session}
    (hgraph : session.graph = (call.after g).afterAll calls) :
    ∃ constraints, (call.after g).constraints? handle.slot = some constraints ∧
      session.graph.constraints? handle.slot = some constraints ∧
      (∀ settings, session.edit (Edit.configure handle.slot settings) =
        (.error (.refused (.finalized handle.slot)), session)) ∧
      session.edit (Edit.build handle.slot) =
        (.error (.refused (.finalized handle.slot)), session) ∧
      session.edit (Edit.buildFirst handle.slot) =
        (.error (.refused (.finalized handle.slot)), session) ∧
      ∀ (σ : Type) (arrange : List Slot → List Slot) (lists : List (List String)) (host : Host σ)
        (world : σ), ∀ g' ∈ (session.execute arrange lists host world).2.graphs,
          g'.constraints? handle.slot = some constraints := by
  have hbuilt := ClientCall.frozen_of_given hgiven hform
  obtain ⟨hfrozen, hsame⟩ := hbuilt.moves (Graph.afterAll_moves _ calls)
  rw [← hgraph] at hfrozen hsame
  rw [Graph.Frozen] at hbuilt
  obtain ⟨node, hnode, -⟩ := Option.map_eq_some_iff.1 hbuilt
  have hconstraints : (call.after g).constraints? handle.slot = some node.constraints := by
    rw [Graph.constraints?, hnode]
    rfl
  refine ⟨node.constraints, hconstraints, hsame.trans hconstraints,
    fun settings => Session.edit_of_frozen hfrozen _, Session.edit_of_frozen hfrozen _,
    Session.edit_of_frozen hfrozen _, fun σ arrange lists host world g' hg' => ?_⟩
  exact (session.constraints_graphs arrange lists host world g' hg' _).trans
    (hsame.trans hconstraints)

namespace Sample

/-- A matcher that is still open, with a reference. -/
def draft : List ClientCall :=
  [.exactClass "A", .matcher .cls, .edit 1 [.superclass 0, .packagePrivate true]]

/-- What comes too late for the matcher, with a reference to it, a key and observers. -/
def late : List ClientCall :=
  [.edit 1 [.name (.named "B")], .all .field [.declaringClass 1], .setKey 1 "kept",
    .observe 1 .onMatch 0, .buildFirst 1, .edit 7 [.matchFirst true]]

/-- The session that all these calls lead to, with an earlier result that has the key. -/
def frozen : Session where
  graph := ((ClientCall.build 1).after (Graph.afterAll {} draft)).afterAll late
  last := some last

end Sample

theorem constraints_of_frozen : ∃ constraints : Constraints,
    constraints.superclass = some 0 ∧ constraints.matchFirst = false ∧ constraints.name = none ∧
      Sample.frozen.edit (Edit.buildFirst 1) =
        (.error (.refused (.finalized 1)), Sample.frozen) ∧
      ((Sample.frozen.execute id [["B", "A"]] Sample.host 0).2.graph.valuation 1).isSome ∧
      ∀ g ∈ (Sample.frozen.execute id [["B", "A"]] Sample.host 0).2.graphs,
        g.constraints? 1 = some constraints := by
  have hgiven : (⟨.sequence, .cls, 1⟩ : Handle) ∈
      (ClientCall.build 1).given (Graph.afterAll {} Sample.draft) := by
    decide +kernel
  have hgraph : Sample.frozen.graph =
      ((ClientCall.build 1).after (Graph.afterAll {} Sample.draft)).afterAll Sample.late := by
    rw [Sample.frozen]
  obtain ⟨constraints, hconstraints, -, -, -, hrefused, hruns⟩ :=
    constraints_of_given hgiven (by decide) Sample.late hgraph
  have hdraft : ∀ constraints ∈
      ((ClientCall.build 1).after (Graph.afterAll {} Sample.draft)).constraints? 1,
      constraints.superclass = some 0 ∧ constraints.matchFirst = false ∧
        constraints.name = none := by
    decide +kernel
  obtain ⟨hsuperclass, hfirst, hname⟩ := hdraft constraints hconstraints
  exact ⟨constraints, hsuperclass, hfirst, hname, hrefused, by decide +kernel,
    hruns Nat id [["B", "A"]] Sample.host 0⟩

end Metamatch
