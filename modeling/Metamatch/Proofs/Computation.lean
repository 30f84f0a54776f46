import Metamatch.Progress

/-!
# Computations and where they lead

Edits, tasks and runs are computations over a state that may fail. `Leads P x Q E` says where such
a computation ends: from a state with `P` it gives a value with `Q` or fails with `E`, and in
either case the condition is about the state that it leaves behind.

* `bind_apply`, `map_apply`: one computation after another.
* `Leads.bind`, `Leads.pure`, `Leads.forM`: the rules for the ways to put computations together.
* `Keeps`: a condition on the state that a computation keeps.
* `Yields`: a condition on the value of a computation.
* `Task.ask_ends`, `Run.ofTask_ends`, `Run.consult_ends`: the end of a computation as part of
  another one over a larger state.
-/

namespace Metamatch

variable {σ τ ε ε' α β : Type}

/-- The end of a computation: a value with `Q` or a failure with `E`. -/
def Ends (Q : α → τ → Prop) (E : ε → τ → Prop) : Except ε α × τ → Prop
  | (.ok a, u) => Q a u
  | (.error e, u) => E e u

/-- From a state with `P`, a computation gives a value with `Q` or fails with `E`. -/
def Leads (P : τ → Prop) (x : ExceptT ε (StateM τ) α) (Q : α → τ → Prop) (E : ε → τ → Prop) :
    Prop :=
  ∀ t, P t → Ends Q E (x t)

theorem eq_ok_of_toOption {x : Except ε α} {a : α} (h : x.toOption = some a) : x = .ok a := by
  cases x with
  | error e => cases h
  | ok b => exact congrArg Except.ok (Option.some.inj h)

namespace Ends

variable {Q Q' : α → τ → Prop} {E E' : ε → τ → Prop} {r : Except ε α × τ}

theorem of_ok (h : Ends Q E r) {a : α} (hr : r.1 = .ok a) : Q a r.2 := by
  rcases r with ⟨e | b, u⟩ <;> cases hr
  exact h

theorem of_error (h : Ends Q E r) {e : ε} (hr : r.1 = .error e) : E e r.2 := by
  rcases r with ⟨f | a, u⟩ <;> cases hr
  exact h

theorem outcome {S : Except ε α → τ → Prop}
    (h : Ends (fun a => S (.ok a)) (fun e => S (.error e)) r) : S r.1 r.2 := by
  rcases r with ⟨e | a, u⟩ <;> exact h

theorem of_outcome {S : Except ε α → τ → Prop} (h : S r.1 r.2) :
    Ends (fun a => S (.ok a)) (fun e => S (.error e)) r := by
  rcases r with ⟨e | a, u⟩ <;> exact h

theorem state {S : τ → Prop} (h : Ends Q E r) (hQ : ∀ a u, Q a u → S u)
    (hE : ∀ e u, E e u → S u) : S r.2 := by
  rcases r with ⟨e | a, u⟩
  · exact hE e u h
  · exact hQ a u h

theorem getD {S : α → Prop} (h : Ends (fun a _ => S a) E r) {other : α} (hother : S other) :
    S (r.1.toOption.getD other) := by
  rcases r with ⟨e | a, u⟩
  · exact hother
  · exact h

theorem mono (h : Ends Q E r) (hQ : ∀ a u, Q a u → Q' a u) (hE : ∀ e u, E e u → E' e u) :
    Ends Q' E' r := by
  rcases r with ⟨e | a, u⟩
  · exact hE e u h
  · exact hQ a u h

theorem and (h : Ends Q E r) (h' : Ends Q' E' r) :
    Ends (fun a u => Q a u ∧ Q' a u) (fun e u => E e u ∧ E' e u) r := by
  rcases r with ⟨e | a, u⟩ <;> exact ⟨h, h'⟩

theorem self (r : Except ε α × τ) :
    Ends (fun a u => r = (.ok a, u)) (fun e u => r = (.error e, u)) r := by
  rcases r with ⟨e | a, u⟩ <;> rfl

/-- The end over a part of a state is one over the whole. -/
theorem lift {r : Except ε α × σ} {g : σ → τ}
    (h : Ends (fun a u => Q a (g u)) (fun e u => E e (g u)) r) : Ends Q E (r.1, g r.2) := by
  rcases r with ⟨e | a, u⟩ <;> exact h

theorem adapt {r : Except ε α × σ} {f : ε → ε'} {g : σ → τ} {E : ε' → τ → Prop}
    (h : Ends (fun a u => Q a (g u)) (fun e u => E (f e) (g u)) r) :
    Ends Q E (r.1.mapError f, g r.2) := by
  rcases r with ⟨e | a, u⟩ <;> exact h

end Ends

theorem bind_apply (x : ExceptT ε (StateM τ) α) (f : α → ExceptT ε (StateM τ) β) (t : τ) :
    (x >>= f) t = match (x t : Except ε α × τ) with
      | (.ok a, u) => f a u
      | (.error e, u) => (.error e, u) := by
  change (StateT.bind x (ExceptT.bindCont f)) t = _
  simp only [StateT.bind, bind]
  generalize (x t : Except ε α × τ) = r
  rcases r with ⟨_ | _, _⟩ <;> rfl

theorem bind_eq_ok {x : ExceptT ε (StateM τ) α} {f : α → ExceptT ε (StateM τ) β} {t v : τ} {b : β}
    (h : (x >>= f) t = (.ok b, v)) : ∃ a u, x t = (.ok a, u) ∧ f a u = (.ok b, v) := by
  rw [bind_apply] at h
  revert h
  generalize (x t : Except ε α × τ) = r
  rcases r with ⟨e | a, u⟩
  · exact fun h => nomatch h
  · exact fun h => ⟨a, u, rfl, h⟩

theorem map_apply (x : ExceptT ε (StateM τ) α) (f : α → β) (t : τ) :
    (f <$> x) t = (Except.map f (x t).1, (x t).2) := by
  change (x >>= fun a => pure (f a)) t = _
  rw [bind_apply]
  generalize (x t : Except ε α × τ) = r
  rcases r with ⟨_ | _, _⟩ <;> rfl

theorem discard_apply (x : ExceptT ε (StateM τ) α) (t : τ) :
    (discard x : ExceptT ε (StateM τ) PUnit) t = (Except.map (fun _ => ⟨⟩) (x t).1, (x t).2) :=
  map_apply x _ t

theorem forM_apply {γ : Type} {body : γ → ExceptT ε (StateM τ) PUnit} {step : τ → γ → τ}
    {items : List γ} (I : τ → Prop)
    (h : ∀ c ∈ items, ∀ t, I t → body c t = (.ok ⟨⟩, step t c) ∧ I (step t c)) {t : τ} (ht : I t) :
    items.forM body t = (.ok ⟨⟩, items.foldl step t) := by
  induction items generalizing t with
  | nil => rfl
  | cons c rest ih =>
    obtain ⟨hc, hI⟩ := h c List.mem_cons_self t ht
    rw [List.forM, bind_apply, hc]
    exact ih (fun d hd => h d (List.mem_cons_of_mem _ hd)) hI

namespace Leads

variable {P P' : τ → Prop} {x : ExceptT ε (StateM τ) α} {f : α → ExceptT ε (StateM τ) β}
  {Q Q' : α → τ → Prop} {R : β → τ → Prop} {E E' : ε → τ → Prop}

theorem ok (h : Leads P x Q E) {t u : τ} {a : α} (ht : P t) (hx : x t = (.ok a, u)) : Q a u := by
  have := h t ht
  rwa [hx] at this

theorem returns (h : Leads P x Q fun _ _ => False) {t : τ} (ht : P t) :
    ∃ a u, x t = (.ok a, u) ∧ Q a u := by
  have hx := h t ht
  revert hx
  generalize (x t : Except ε α × τ) = r
  rcases r with ⟨e | a, u⟩
  · exact False.elim
  · exact fun hq => ⟨a, u, rfl, hq⟩

theorem weaken (h : Leads P x Q E) (hP : ∀ t, P' t → P t) (hQ : ∀ a t, Q a t → Q' a t)
    (hE : ∀ e t, E e t → E' e t) : Leads P' x Q' E' :=
  fun t ht => (h t (hP t ht)).mono hQ hE

theorem and (h : Leads P x Q E) (h' : Leads P' x Q' E') :
    Leads (fun t => P t ∧ P' t) x (fun a t => Q a t ∧ Q' a t) fun e t => E e t ∧ E' e t :=
  fun t ht => (h t ht.1).and (h' t ht.2)

theorem bind (hx : Leads P x Q E) (hf : ∀ a, Leads (Q a) (f a) R E) :
    Leads P (x >>= f) R E := by
  intro t ht
  have hx := hx t ht
  rw [bind_apply]
  revert hx
  generalize (x t : Except ε α × τ) = r
  rcases r with ⟨e | a, u⟩
  · exact id
  · exact hf a u

theorem ignore {Q : τ → Prop} (h : Leads P x (fun _ => Q) E) :
    Leads P (discard x) (fun _ => Q) E := by
  intro t ht
  have hx := h t ht
  revert hx
  rw [discard_apply]
  generalize (x t : Except ε α × τ) = r
  rcases r with ⟨_ | _, _⟩ <;> exact id

theorem trivial (x : ExceptT ε (StateM τ) α) :
    Leads P x (fun _ _ => True) fun _ _ => True :=
  fun t _ => (Ends.self (x t)).mono (fun _ _ _ => .intro) fun _ _ _ => .intro

theorem pure {a : α} (h : ∀ t, P t → Q a t) : Leads P (Pure.pure a) Q E := h

/-- A condition that every round keeps holds at the end of a loop. -/
theorem forM {γ : Type} {items : List γ} {body : γ → ExceptT ε (StateM τ) PUnit}
    (h : ∀ c ∈ items, Leads P (body c) (fun _ => P) E) :
    Leads P (items.forM body) (fun _ => P) E := by
  induction items with
  | nil => exact pure fun _ ht => ht
  | cons c rest ih =>
    exact bind (h c List.mem_cons_self) fun _ =>
      ih fun d hd => h d (List.mem_cons_of_mem _ hd)

end Leads

/-! ## Conditions on the state or on the value -/

/-- A computation that keeps a condition on the state, even if it fails. -/
abbrev Keeps (P : τ → Prop) (x : ExceptT ε (StateM τ) α) : Prop :=
  Leads P x (fun _ => P) fun _ => P

theorem Keeps.state {P : τ → Prop} {x : ExceptT ε (StateM τ) α} (h : Keeps P x) {t : τ}
    (ht : P t) : P (x t : Except ε α × τ).2 :=
  (h t ht).state (fun _ _ hu => hu) fun _ _ hu => hu

theorem Keeps.of_state {P : τ → Prop} {x : ExceptT ε (StateM τ) α}
    (h : ∀ t, P t → P (x t : Except ε α × τ).2) : Keeps P x := by
  intro t ht
  have hx := h t ht
  revert hx
  generalize (x t : Except ε α × τ) = r
  rcases r with ⟨e | a, u⟩ <;> exact id

/-- A computation whose value, if it has one, meets a condition. -/
abbrev Yields (Q : α → Prop) (x : ExceptT ε (StateM τ) α) : Prop :=
  Leads (fun _ => True) x (fun a _ => Q a) fun _ _ => True

namespace Yields

variable {Q Q' : α → Prop} {R : β → Prop} {x : ExceptT ε (StateM τ) α}
  {f : α → ExceptT ε (StateM τ) β}

theorem pure {a : α} (h : Q a) : Yields Q (Pure.pure a : ExceptT ε (StateM τ) α) := fun _ _ => h

theorem bind (hx : Yields Q x) (hf : ∀ a, Q a → Yields R (f a)) : Yields R (x >>= f) :=
  Leads.bind hx fun a t ha => hf a ha t .intro

theorem any (hf : ∀ a, Yields R (f a)) : Yields R (x >>= f) :=
  (Leads.trivial x).bind hf

theorem mono (h : Yields Q x) (hQ : ∀ a, Q a → Q' a) : Yields Q' x :=
  h.weaken (fun _ ht => ht) (fun a _ ha => hQ a ha) fun _ _ _ => .intro

end Yields

/-! ## Embeddings -/

section Embeddings

variable {trace : Trace σ} {p : Progress σ} {host : Host σ} {ctx : RunContext σ} {slot : Slot}
  {message : String}

theorem Task.ask_ends {call : Call σ α} {Q : α → Trace σ → Prop}
    {E : TaskError → Trace σ → Prop}
    (h : Ends (fun a world => Q a { trace with world })
      (fun mishap world => E (.ofMishap mishap) { trace with world }) (call trace.world)) :
    Ends Q E (ask call trace) :=
  h.adapt

theorem Task.attempt_ends {call : Call σ α} {Q : Except LookupError α → Trace σ → Prop}
    {E : TaskError → Trace σ → Prop}
    (h : Ends (fun answer world => Q answer { trace with world })
      (fun payload world => E (.ofPayload payload) { trace with world })
      (call.attempt trace.world)) :
    Ends Q E (attempt call trace) :=
  h.adapt

theorem Trace.consult_ends {Q : Decision → Trace σ → Prop} {E : Payload → Trace σ → Prop}
    (h : Ends
      (fun decision world => Q decision ⟨world, trace.failures ++ [⟨slot, message, decision⟩]⟩)
      (fun payload world => E payload { trace with world }) (host.judge message trace.world)) :
    Ends Q E (trace.consult host slot message) := by
  revert h
  unfold consult
  simp only [ExceptT.run, StateT.run, Id.run]
  generalize (host.judge message trace.world : Except Payload Decision × σ) = r
  rcases r with ⟨payload | decision, world⟩ <;> exact id

theorem Trace.consult_of_judge {decision : Decision} {world : σ}
    (h : host.judge message trace.world = (.ok decision, world)) :
    trace.consult host slot message =
      (.ok decision, ⟨world, trace.failures ++ [⟨slot, message, decision⟩]⟩) := by
  unfold consult
  simp only [ExceptT.run, StateT.run, Id.run, h]

theorem Task.consult_ends {Q : Decision → Trace σ → Prop} {E : TaskError → Trace σ → Prop}
    (h : Ends
      (fun decision world => Q decision ⟨world, trace.failures ++ [⟨slot, message, decision⟩]⟩)
      (fun payload world => E (.ofPayload payload) { trace with world })
      (host.judge message trace.world)) :
    Ends Q E (consult host slot message trace) :=
  Ends.adapt (g := id) (Trace.consult_ends h)

theorem Run.ofTask_ends {task : Task σ α} {Q : α → Progress σ → Prop}
    {E : TaskError → Progress σ → Prop}
    (h : Ends (fun a trace => Q a { p with toTrace := trace })
      (fun e trace => E e { p with toTrace := trace }) (task p.toTrace)) :
    Ends Q E (ofTask task p) :=
  h.lift

theorem Run.ask_ends {question : ExceptT ε (StateM σ) α} {Q : α → Progress σ → Prop}
    {E : ε → Progress σ → Prop}
    (h : Ends (fun a world => Q a { p with world }) (fun e world => E e { p with world })
      (question p.world)) :
    Ends Q E (ask question p) :=
  h.lift

theorem Run.consult_ends {Q : Unit → Progress σ → Prop} {E : Payload → Progress σ → Prop}
    (h : Ends
      (fun decision world =>
        Q () { p with world, failures := p.failures ++ [⟨slot, message, decision⟩] })
      (fun payload world => E payload { p with world }) (ctx.host.judge message p.world)) :
    Ends Q E (consult ctx slot message p) := by
  have hconsult : Ends (fun _ trace => Q () { p with toTrace := trace })
      (fun payload trace => E payload { p with toTrace := trace })
      (p.toTrace.consult ctx.host slot message) := Trace.consult_ends h
  revert hconsult
  unfold consult
  generalize (p.toTrace.consult ctx.host slot message :
    Except Payload Decision × Trace σ) = r
  rcases r with ⟨payload | decision, trace⟩ <;> exact id

end Embeddings

end Metamatch
