import Metamatch.Proofs.Run.Tasks

/-!
# Sweeps follow the schedule

* `Run.batch_leads`, `Run.sweep_leads`, `Run.sweeps_leads`: whatever the host does, the batches and
  sweeps of a run do to the publications what the schedule says.
* `Run.sweeps_eq`: the bound on the number of sweeps is never reached.
-/

namespace Metamatch

namespace Run

open Progress (At Failed)

variable {σ : Type} {ctx : RunContext σ} {start : Graph} {ground : Ground}
  {pub pub' : Publications} {number : Nat}

theorem draw_leads (number : Nat) (kind : Kind) :
    Leads (At ctx start ground pub) (draw ctx number kind)
      (fun ready p => ready = (ground.after pub).ready ctx.config.pruneUnconsumed kind ∧
        At ctx start ground pub p)
      fun _ _ => False :=
  fun _ hp => ⟨by rw [hp.graph], hp.graph, hp.sound, hp.recorded, hp.safe⟩

theorem executeReady_leads {ε : Type} (harrange : ∀ items, (ctx.arrange items).Perm items)
    (hd : ∀ s ∈ ground.detached, pub s ≠ none) (number : Nat) {kind : Kind} {ready : List Slot}
    (hready : ready = (ground.after pub).ready ctx.config.pruneUnconsumed kind) :
    Leads (At ctx start ground pub) (execute ctx number (ctx.arrange ready) : Run σ ε _)
      (fun outcomes p => ∃ pub', At ctx start ground pub' p ∧ pub.Tried number ready pub' ∧
        ∀ s ∈ ready, Open ctx ground outcomes pub' s)
      fun _ _ => False := by
  have hperm := harrange ready
  have hmem : ∀ s ∈ ready, ground.Ready pub s := fun s hs => (Ground.mem_ready.1 (hready ▸ hs)).1
  have hnodup : ready.Nodup := hready ▸ Ground.nodup_ready
  refine (execute_leads (hperm.nodup_iff.2 hnodup) (fun s hs => hmem s (hperm.mem_iff.1 hs))
    fun s hs hsd => hd s hsd (hmem s (hperm.mem_iff.1 hs)).unpublished).weaken (fun _ => id)
    (fun outcomes p ⟨pub', hp, htried, hopen⟩ => ?_) fun _ _ => id
  exact ⟨pub', hp, htried.perm hperm, fun s hs => hopen s (hperm.mem_iff.2 hs)⟩

/-- Every matcher of a batch is published in it, unless the run fails. -/
theorem batch_leads (harrange : ∀ items, (ctx.arrange items).Perm items)
    (hd : ∀ s ∈ ground.detached, pub s ≠ none) (number : Nat) (kind : Kind) :
    Leads (At ctx start ground pub) (batch ctx number kind)
      (fun count p => ∃ pub', At ctx start ground pub' p ∧
        ground.Batch ctx.config.pruneUnconsumed number kind pub pub' ∧
        (count = 0 ↔ pub' = pub))
      (Failed ctx start) := by
  unfold batch
  refine ((draw_leads number kind).weaken (fun _ => id) (fun _ _ => id)
    fun _ _ => False.elim).bind fun ready p ⟨hready, hp⟩ => ?_
  refine (((executeReady_leads harrange hd number hready).weaken (fun _ => id) (fun _ _ => id)
    fun _ _ => False.elim).bind fun outcomes p ⟨pub₁, hp, htried, hopen⟩ => ?_) p hp
  refine ((settleAll_leads (hready ▸ Ground.nodup_ready) hopen).bind
    fun _ => .pure fun p hp => ?_) p hp
  have hbatch : ground.Batch ctx.config.pruneUnconsumed number kind pub
      (pub₁.close number ready) := by
    refine ⟨fun s hs => ?_, fun s hs => ?_⟩
    · rw [← hready] at hs
      have hunpublished := (Ground.mem_ready.1 (hready ▸ hs)).1.unpublished
      rcases htried.taken s hs with h₁ | ⟨-, values, h₁⟩
      · exact ⟨[], Publications.close_of_unpublished hs (h₁.trans hunpublished)⟩
      · exact ⟨values, (Publications.close_of_published (by simp [h₁])).trans h₁⟩
    · rw [← hready] at hs
      rw [(Publications.close_tried number ready pub₁).kept s hs]
      exact htried.kept s hs
  exact ⟨_, hp, hbatch, List.length_eq_zero_iff.trans (hready ▸ hbatch.eq_iff.symm)⟩

theorem sweep_leads (harrange : ∀ items, (ctx.arrange items).Perm items)
    (hd : ∀ s ∈ ground.detached, pub s ≠ none) (number : Nat) (kinds : List Kind) :
    Leads (At ctx start ground pub) (sweep ctx number kinds)
      (fun count p => ∃ pub', At ctx start ground pub' p ∧
        ground.Sweep ctx.config.pruneUnconsumed number kinds pub pub' ∧ (count = 0 ↔ pub' = pub))
      (Failed ctx start) := by
  induction kinds generalizing pub with
  | nil => exact .pure fun p hp => ⟨pub, hp, .done, by simp⟩
  | cons kind rest ih =>
    unfold sweep
    refine (batch_leads harrange hd number kind).bind fun here p ⟨pub₁, hp, hbatch, hhere⟩ => ?_
    refine ((ih fun s hs => hbatch.grows.ne_none (hd s hs)).bind
      fun count => .pure fun p ⟨pub₂, hp, hrest, hcount⟩ => ?_) p hp
    refine ⟨pub₂, hp, .batch hbatch hrest, ?_⟩
    rw [Nat.add_eq_zero_iff, hhere, hcount]
    constructor
    · rintro ⟨rfl, rfl⟩
      rfl
    · rintro rfl
      have h₁ := hbatch.grows.antisymm hrest.grows
      exact ⟨h₁, h₁.symm⟩

/-- **Sweeps follow the schedule to its end**, as long as their bound exceeds the number of slots
that are left. -/
theorem sweeps_leads (harrange : ∀ items, (ctx.arrange items).Perm items)
    (hd : ∀ s ∈ ground.detached, pub s ≠ none) {fuel : Nat} (hfuel : ground.remaining pub < fuel) :
    Leads (At ctx start ground pub) (sweeps ctx number fuel)
      (fun last p => ∃ pub', At ctx start ground pub' p ∧
        ground.Sweeps ctx.config.pruneUnconsumed number pub last pub')
      (Failed ctx start) := by
  induction fuel generalizing number pub with
  | zero => exact absurd hfuel (Nat.not_lt_zero _)
  | succ fuel ih =>
    unfold sweeps
    refine (sweep_leads harrange hd number _).bind fun count p ⟨pub₁, hp, hsweep, hcount⟩ => ?_
    split
    · next hzero =>
      have h₁ := hcount.1 hzero
      subst h₁
      exact ⟨_, hp, .silent hsweep⟩
    · next hzero =>
      have hne : pub₁ ≠ pub := fun h => hzero (hcount.2 h)
      have hless := Ground.remaining_lt hsweep.grows hne hp.sound.inRange
      have hd₁ : ∀ s ∈ ground.detached, pub₁ s ≠ none :=
        fun s hs => hsweep.grows.ne_none (hd s hs)
      have hfuel₁ : ground.remaining pub₁ < fuel := by omega
      exact ((ih hd₁ hfuel₁).weaken (fun _ => id)
        (fun last p ⟨pub', hp, hsweeps⟩ => ⟨pub', hp, .next hsweep hne hsweeps⟩) fun _ _ => id) p hp

/-- **The sweeps come to an end by themselves**: bounds that exceed the number of slots that are
left make no difference. -/
theorem sweeps_eq (harrange : ∀ items, (ctx.arrange items).Perm items)
    (hd : ∀ s ∈ ground.detached, pub s ≠ none) {p : Progress σ} (hp : At ctx start ground pub p)
    {fuel fuel' : Nat} (hfuel : ground.remaining pub < fuel)
    (hfuel' : ground.remaining pub < fuel') :
    sweeps ctx number fuel p = sweeps ctx number fuel' p := by
  induction fuel generalizing number pub p fuel' with
  | zero => exact absurd hfuel (Nat.not_lt_zero _)
  | succ fuel ih =>
    obtain ⟨fuel', rfl⟩ := Nat.exists_eq_succ_of_ne_zero (Nat.ne_of_gt (Nat.zero_lt_of_lt hfuel'))
    have hsweep := sweep_leads harrange hd number Kind.scheduled p hp
    rw [sweeps, sweeps, bind_apply, bind_apply]
    revert hsweep
    generalize (sweep ctx number Kind.scheduled p : Except RunError Nat × Progress σ) = r
    rcases r with ⟨e | count, u⟩
    · exact fun _ => rfl
    · rintro ⟨pub₁, hp, hsweep, hcount⟩
      by_cases hzero : count = 0
      · simp only [if_pos hzero]
      · have hne : pub₁ ≠ pub := fun h => hzero (hcount.2 h)
        have hless := Ground.remaining_lt hsweep.grows hne hp.sound.inRange
        simp only [if_neg hzero]
        have hd₁ : ∀ s ∈ ground.detached, pub₁ s ≠ none :=
          fun s hs => hsweep.grows.ne_none (hd s hs)
        exact ih hd₁ hp (by omega) (by omega)

end Run

end Metamatch
