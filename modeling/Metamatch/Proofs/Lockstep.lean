import Mathlib.Data.List.Forall2
import Mathlib.Logic.Relator
import Metamatch.Proofs.Computation

/-!
# Computations in lockstep

Two computations over different states go in lockstep if they turn related states into related
states and come to related values, or fail with the same error. The states need not be of one type.

* `Agree`: outcomes that are related values or the same error.
* `Lockstep`: computations that lead from related states to outcomes that agree.
* `Lockstep.bind`, `Lockstep.forM`, `Lockstep.mapM`: the rules to put such computations together.
-/

namespace Metamatch

variable {σ τ ε ε' α α' β β' : Type}

/-! ## Options and lists -/

section Relations

variable {Q : α → β → Prop} {S : α' → β' → Prop} {a : Option α} {b : Option β} {as : List α}
  {bs : List β}

theorem optionRel_bind {f : α → Option α'} {g : β → Option β'} (h : Option.Rel Q a b)
    (hf : ∀ a b, Q a b → Option.Rel S (f a) (g b)) : Option.Rel S (a.bind f) (b.bind g) := by
  cases h with
  | some hab => exact hf _ _ hab
  | none => exact .none

theorem optionRel_map {f : α → α'} {g : β → β'} (h : Option.Rel Q a b)
    (hf : ∀ a b, Q a b → S (f a) (g b)) : Option.Rel S (a.map f) (b.map g) := by
  cases h with
  | some hab => exact .some (hf _ _ hab)
  | none => exact .none

theorem optionRel_elim {c : α'} {d : β'} {f : α → α'} {g : β → β'} (h : Option.Rel Q a b)
    (hnone : S c d) (hf : ∀ a b, Q a b → S (f a) (g b)) : S (a.elim c f) (b.elim d g) := by
  cases h with
  | some hab => exact hf _ _ hab
  | none => exact hnone

theorem optionRel_eq {b : Option α} (h : Option.Rel Eq a b) : a = b := by
  cases h with
  | some hab => exact congrArg some hab
  | none => rfl

theorem optionRel_refl (a : Option α) : Option.Rel Eq a a := by
  cases a with
  | some a => exact .some rfl
  | none => exact .none

theorem optionRel_any {p : α → Bool} {q : β → Bool} (h : Option.Rel Q a b)
    (hpq : ∀ a b, Q a b → p a = q b) : a.any p = b.any q := by
  cases h with
  | some hab => exact hpq _ _ hab
  | none => rfl

theorem optionRel_all {p : α → Bool} {q : β → Bool} (h : Option.Rel Q a b)
    (hpq : ∀ a b, Q a b → p a = q b) : a.all p = b.all q := by
  cases h with
  | some hab => exact hpq _ _ hab
  | none => rfl

theorem optionRel_getD {c : α} {d : β} (h : Option.Rel Q a b) (hcd : Q c d) :
    Q (a.getD c) (b.getD d) := by
  cases h with
  | some hab => exact hab
  | none => exact hcd

theorem optionRel_beq [DecidableEq α] [DecidableEq β] (hQ : Relator.BiUnique Q) {c : Option α}
    {d : Option β} (h : Option.Rel Q a b) (h' : Option.Rel Q c d) : (a == c) = (b == d) := by
  rw [Bool.eq_iff_iff, beq_iff_eq, beq_iff_eq]
  cases h with
  | none => cases h' <;> simp
  | some hab =>
    cases h' with
    | none => simp
    | some hcd => simpa using Relator.rel_eq hQ hab hcd

theorem optionRel_isSome (h : Option.Rel Q a b) : a.isSome = b.isSome := by
  cases h <;> rfl

theorem forall₂_isEmpty (h : List.Forall₂ Q as bs) : as.isEmpty = bs.isEmpty := by
  cases h <;> rfl

theorem forall₂_head? (h : List.Forall₂ Q as bs) : Option.Rel Q as.head? bs.head? := by
  cases h with
  | nil => exact .none
  | cons hab _ => exact .some hab

theorem forall₂_any {p : α → Bool} {q : β → Bool} (h : List.Forall₂ Q as bs)
    (hpq : ∀ a b, Q a b → p a = q b) : as.any p = bs.any q := by
  induction h with
  | nil => rfl
  | cons hab _ ih => rw [List.any_cons, List.any_cons, hpq _ _ hab, ih]

theorem forall₂_all {p : α → Bool} {q : β → Bool} (h : List.Forall₂ Q as bs)
    (hpq : ∀ a b, Q a b → p a = q b) : as.all p = bs.all q := by
  induction h with
  | nil => rfl
  | cons hab _ ih => rw [List.all_cons, List.all_cons, hpq _ _ hab, ih]

theorem forall₂_mapIdx {f : Nat → α → α'} {g : Nat → β → β'} (h : List.Forall₂ Q as bs)
    (hfg : ∀ i a b, Q a b → S (f i a) (g i b)) : List.Forall₂ S (as.mapIdx f) (bs.mapIdx g) := by
  induction h generalizing f g with
  | nil => exact .nil
  | cons hab _ ih =>
    rw [List.mapIdx_cons, List.mapIdx_cons]
    exact .cons (hfg 0 _ _ hab) (ih fun i => hfg (i + 1))

theorem forall₂_find? {p : α → Bool} {q : β → Bool} (h : List.Forall₂ Q as bs)
    (hpq : ∀ a b, Q a b → p a = q b) : Option.Rel Q (as.find? p) (bs.find? q) := by
  induction h with
  | nil => exact .none
  | @cons a b _ _ hab _ ih =>
    rw [List.find?_cons, List.find?_cons, ← hpq a b hab]
    cases p a with
    | true => exact .some hab
    | false => exact ih

theorem forall₂_of_getElem? (h : ∀ i : Nat, Option.Rel Q as[i]? bs[i]?) :
    List.Forall₂ Q as bs := by
  induction as generalizing bs with
  | nil =>
    cases bs with
    | nil => exact .nil
    | cons b bs => nomatch h 0
  | cons a as ih =>
    cases bs with
    | nil => nomatch h 0
    | cons b bs =>
      have hhead := h 0
      cases hhead with
      | some hab => exact .cons hab (ih fun i => h (i + 1))

end Relations

/-! ## Outcomes -/

/-- Both outcomes are values, which are related, or both are the same error. -/
inductive Agree (Q : α → β → Prop) : Except ε α → Except ε β → Prop
  | ok {a : α} {b : β} : Q a b → Agree Q (.ok a) (.ok b)
  | error (e : ε) : Agree Q (.error e) (.error e)

namespace Agree

variable {Q Q' : α → β → Prop} {S : α' → β' → Prop} {x : Except ε α} {y : Except ε β}

theorem mono (h : Agree Q x y) (hQ : ∀ a b, Q a b → Q' a b) : Agree Q' x y := by
  cases h with
  | ok hab => exact .ok (hQ _ _ hab)
  | error e => exact .error e

theorem bind {f : α → Except ε α'} {g : β → Except ε β'} (h : Agree Q x y)
    (hf : ∀ a b, Q a b → Agree S (f a) (g b)) : Agree S (x >>= f) (y >>= g) := by
  cases h with
  | ok hab => exact hf _ _ hab
  | error e => exact .error e

theorem map {f : α → α'} {g : β → β'} (h : Agree Q x y) (hf : ∀ a b, Q a b → S (f a) (g b)) :
    Agree S (f <$> x) (g <$> y) := by
  cases h with
  | ok hab => exact .ok (hf _ _ hab)
  | error e => exact .error e

theorem mapError (h : Agree Q x y) (f : ε → ε') : Agree Q (x.mapError f) (y.mapError f) := by
  cases h with
  | ok hab => exact .ok hab
  | error e => exact .error (f e)

theorem eq {y : Except ε α} (h : Agree Eq x y) : x = y := by
  cases h with
  | ok hab => exact congrArg Except.ok hab
  | error e => rfl

theorem refl (x : Except ε α) : Agree Eq x x := by
  cases x with
  | ok a => exact .ok rfl
  | error e => exact .error e

theorem exists_ok {a : α} (h : Agree Q (.ok a : Except ε α) y) : ∃ b, y = .ok b ∧ Q a b := by
  cases h with
  | ok hab => exact ⟨_, rfl, hab⟩

end Agree

/-! ## Computations -/

/-- From related states, the computations come to outcomes that agree and leave related states
behind. -/
def Lockstep (R : σ → τ → Prop) (Q : α → β → Prop) (x : ExceptT ε (StateM σ) α)
    (y : ExceptT ε (StateM τ) β) : Prop :=
  ∀ t u, R t u → Agree Q (x t : Except ε α × σ).1 (y u : Except ε β × τ).1 ∧
    R (x t : Except ε α × σ).2 (y u : Except ε β × τ).2

namespace Lockstep

variable {R : σ → τ → Prop} {Q Q' : α → β → Prop} {S : α' → β' → Prop}
  {x : ExceptT ε (StateM σ) α} {y : ExceptT ε (StateM τ) β} {f : α → ExceptT ε (StateM σ) α'}
  {g : β → ExceptT ε (StateM τ) β'}

theorem pure {a : α} {b : β} (h : Q a b) :
    Lockstep R Q (Pure.pure a : ExceptT ε (StateM σ) α) (Pure.pure b) :=
  fun _ _ hR => ⟨.ok h, hR⟩

theorem throw (e : ε) :
    Lockstep R Q (throw e : ExceptT ε (StateM σ) α) (MonadExcept.throw e) :=
  fun _ _ hR => ⟨.error e, hR⟩

theorem bind (h : Lockstep R Q x y) (hf : ∀ a b, Q a b → Lockstep R S (f a) (g b)) :
    Lockstep R S (x >>= f) (y >>= g) := by
  intro t u hR
  have h := h t u hR
  rw [bind_apply, bind_apply]
  revert h
  generalize (x t : Except ε α × σ) = r
  generalize (y u : Except ε β × τ) = r'
  rcases r with ⟨outcome, t'⟩
  rcases r' with ⟨outcome', u'⟩
  rintro ⟨hagree, hR'⟩
  cases hagree with
  | ok hab => exact hf _ _ hab t' u' hR'
  | error e => exact ⟨.error e, hR'⟩

theorem bindEq {x : ExceptT ε (StateM σ) α} {y : ExceptT ε (StateM τ) α}
    {f : α → ExceptT ε (StateM σ) α'} {g : α → ExceptT ε (StateM τ) β'} (h : Lockstep R Eq x y)
    (hf : ∀ a, Lockstep R S (f a) (g a)) : Lockstep R S (x >>= f) (y >>= g) :=
  h.bind fun a _ hab => hab ▸ hf a

theorem mono (h : Lockstep R Q x y) (hQ : ∀ a b, Q a b → Q' a b) : Lockstep R Q' x y :=
  fun t u hR => ⟨(h t u hR).1.mono hQ, (h t u hR).2⟩

theorem map {f : α → α'} {g : β → β'} (h : Lockstep R Q x y)
    (hf : ∀ a b, Q a b → S (f a) (g b)) : Lockstep R S (f <$> x) (g <$> y) := by
  intro t u hR
  rw [map_apply, map_apply]
  exact ⟨(h t u hR).1.map hf, (h t u hR).2⟩

theorem forM {γ δ : Type} {P : γ → δ → Prop} {items : List γ} {items' : List δ}
    (hitems : List.Forall₂ P items items') {body : γ → ExceptT ε (StateM σ) PUnit}
    {body' : δ → ExceptT ε (StateM τ) PUnit} (h : ∀ c d, P c d → Lockstep R Eq (body c) (body' d)) :
    Lockstep R Eq (items.forM body) (items'.forM body') := by
  induction hitems with
  | nil => exact pure rfl
  | cons hhead _ ih => exact (h _ _ hhead).bindEq fun _ => ih

theorem mapM {items : List α'} {items' : List β'} (hitems : List.Forall₂ S items items')
    {body : α' → ExceptT ε (StateM σ) α} {body' : β' → ExceptT ε (StateM τ) β}
    (h : ∀ c d, S c d → Lockstep R Q (body c) (body' d)) :
    Lockstep R (List.Forall₂ Q) (items.mapM body) (items'.mapM body') := by
  induction hitems with
  | nil => exact pure .nil
  | cons hhead _ ih =>
    rw [List.mapM_cons, List.mapM_cons]
    refine (h _ _ hhead).bind fun a b hab => ih.bind fun as bs habs => ?_
    exact pure (.cons hab habs)

theorem optionMapM {item : Option α'} {item' : Option β'} (hitem : Option.Rel S item item')
    {body : α' → ExceptT ε (StateM σ) α} {body' : β' → ExceptT ε (StateM τ) β}
    (h : ∀ c d, S c d → Lockstep R Q (body c) (body' d)) :
    Lockstep R (Option.Rel Q) (item.mapM body) (item'.mapM body') := by
  cases hitem with
  | some hcd => exact (h _ _ hcd).map fun _ _ => .some
  | none => exact pure .none

end Lockstep

end Metamatch
