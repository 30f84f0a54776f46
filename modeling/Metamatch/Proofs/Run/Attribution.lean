import Metamatch.Proofs.Run.Batches
import Metamatch.Proofs.Run.Ledgers

/-!
# Failures attributed

A failure goes on record for the crash of an observer, or for a name or a task on its own account.
The crashes of a run are told by its calls where each observer crashes always or never.

* `MatchResult.Attributed`: the failures of a result apart from crashes of observers, with what the
  run noted.
* `Host.Apart`: observers that neither answers nor verdicts affect.
* `Session.exists_opening`: what is noted before the first sweep.
* `MatchResult.Attributed.subperm`: failures compared by calls and failures of their own.
-/

namespace Metamatch

variable {σ : Type} {host : Host σ} {world : σ} {verdict : String → Decision}
  {own own' : List Failure} {calls : List (Slot × Nat × List Entity)} {notes notes' : List Note}

/-- Where each observer crashes always or never, the calls tell which failures are due to that. -/
theorem Note.crashes_eq {crash : Nat → List Entity → Option Payload} (hcrash : host.Crashes crash)
    (hreal : ∀ note ∈ notes, note.entry.Real host) :
    notes.filterMap (crash? verdict) = (notes.filterMap call?).filterMap fun call =>
      (crash call.2.1 call.2.2).map (Payload.failure verdict call.1) := by
  rw [List.filterMap_filterMap]
  refine List.filterMap_congr fun note hnote => ?_
  have hentry := hreal note hnote
  obtain ⟨slot, entry⟩ := note
  cases entry with
  | load | verdict => rfl
  | call number values answer =>
    obtain ⟨world, hworld⟩ := hentry
    obtain rfl : crash number values = answer := (hcrash number values world).symm.trans hworld
    rfl

/-! ## Observers of their own -/

/-- The observers go by a view of the surroundings that neither answers nor verdicts change. -/
structure Host.Apart {τ : Type} (host : Host σ) (view : σ → τ) : Prop where
  preserves : ∀ v, host.Preserves (view · = v)
  observe : ∀ number values world world', view world = view world' →
    (host.observe number values world : Option Payload × σ).1 =
        (host.observe number values world' : Option Payload × σ).1 ∧
      view (host.observe number values world : Option Payload × σ).2 =
        view (host.observe number values world' : Option Payload × σ).2

/-- The failures for observers that crash when they are called one after the other, and nothing
else happens. -/
def Host.crashes (host : Host σ) (verdict : String → Decision) :
    σ → List (Slot × Nat × List Entity) → List Failure
  | _, [] => []
  | world, (slot, number, values) :: rest =>
    let answer : Option Payload × σ := host.observe number values world
    (answer.1.map (Payload.failure verdict slot)).toList ++ host.crashes verdict answer.2 rest

/-- Where answers and verdicts change nothing, observers may go by all there is. -/
theorem Host.apart_id (h : ∀ v, host.Preserves (· = v)) : host.Apart id where
  preserves := h
  observe := by
    rintro number values world _ rfl
    exact ⟨rfl, rfl⟩

namespace Host.Apart

variable {τ : Type} {view : σ → τ}

theorem crashes_congr (h : host.Apart view) {world world' : σ} (hview : view world = view world') :
    host.crashes verdict world calls = host.crashes verdict world' calls := by
  induction calls generalizing world world' with
  | nil => rfl
  | cons call rest ih =>
    obtain ⟨hanswer, hnext⟩ := h.observe call.2.1 call.2.2 world world' hview
    unfold crashes
    dsimp only
    rw [hanswer, ih hnext]

theorem unnamed (h : host.Apart view) (v : τ) :
    host.resolver.unnamed.Answers (view · = v) fun _ => (view · = v) :=
  { (h.preserves v).answers with loadClass := fun _ _ hw => hw }

/-- **Such observers crash by their calls alone**, whatever else the host is asked for. -/
theorem crashes_eq (h : host.Apart view) {world' : σ}
    (hnoted : host.Noted world (notes.map (·.entry)) world') :
    notes.filterMap (Note.crash? verdict) =
      host.crashes verdict world (notes.filterMap Note.call?) := by
  generalize hentries : notes.map (·.entry) = entries at hnoted
  induction hnoted generalizing notes with
  | refl =>
    rw [List.map_eq_nil_iff.1 hentries]
    rfl
  | @load name world _ _ _ ih =>
    obtain ⟨⟨slot, _⟩, rest, rfl, rfl, hrest⟩ := List.map_eq_cons_iff.1 hentries
    refine (ih hrest).trans (h.crashes_congr ?_)
    exact ((h.preserves _).loadClass name).state rfl
  | @call number values world _ _ _ ih =>
    obtain ⟨⟨slot, _⟩, rest, rfl, rfl, hrest⟩ := List.map_eq_cons_iff.1 hentries
    rw [List.filterMap_cons_some (rfl : Note.call? ⟨slot, .call number values _⟩ = some _), crashes,
      ← ih hrest, List.filterMap_cons]
    dsimp only [Note.crash?]
    cases (host.observe number values world : Option Payload × σ).1 <;> rfl
  | @verdict text decision world _ _ hjudge _ ih =>
    obtain ⟨⟨slot, _⟩, rest, rfl, rfl, hrest⟩ := List.map_eq_cons_iff.1 hentries
    refine (ih hrest).trans (h.crashes_congr ?_)
    exact ((h.preserves _).judge text).state rfl
  | @other world _ _ _ hasked _ ih =>
    exact (ih hentries).trans (h.crashes_congr (hasked.keeps (h.unnamed _) rfl))

end Host.Apart

/-! ## The opening of a run -/

theorem Ledger.opening_split {ledger : Ledger}
    (h : ∀ seed ∈ ledger.seeds, seed.2.Judged verdict) :
    Note.Split verdict [] (ledger.opening.filterMap Note.call?) ledger.opening where
  calls := rfl
  failures := by
    have hrounds : (ledger.seeds.flatMap fun seed => seed.2.toRound.notes seed.1).filterMap
        Note.failure? = [] := by
      rw [List.filterMap_flatMap, List.flatMap_eq_nil_iff]
      exact fun seed _ => Round.failures_eq_nil seed.1 seed.2.toRound
    have hverdicts : (ledger.seeds.flatMap fun seed => seed.2.verdictNotes seed.1).filterMap
        (Note.crash? verdict) = [] := by
      rw [List.filterMap_flatMap, List.flatMap_eq_nil_iff]
      exact fun seed _ => Hearing.crash?_eq_nil
    rw [opening, List.filterMap_append, List.filterMap_append, hrounds, hverdicts,
      List.filterMap_flatMap, List.filterMap_flatMap, List.append_nil,
      List.flatMap_congr fun seed hseed => (h seed hseed).failures]

/-- Nothing is on record yet, and nothing was asked for but the classes of earlier values. -/
structure Progress.Opens (host : Host σ) (world : σ) (base : Progress σ) : Prop where
  failures : base.failures = []
  notices : base.notices = []
  loads : ∃ loads : List Entry, (∀ entry ∈ loads, entry.IsLoad) ∧ host.Noted world loads base.world

theorem Progress.Opens.notices_perm {base p p' : Progress σ}
    {calls' : List (Slot × Nat × List Entity)} (h : base.Opens host world)
    (hp : base.Since host notes p) (hsplit : Note.Split verdict own calls notes)
    (hp' : base.Since host notes' p') (hsplit' : Note.Split verdict own' calls' notes')
    (hcalls : calls.Perm calls') :
    (p.notices.map Notice.call).Perm (p'.notices.map Notice.call) := by
  have hnotices := hp.calls
  have hnotices' := hp'.calls
  rw [h.notices, hsplit.calls, List.map_reverse] at hnotices
  rw [h.notices, hsplit'.calls, List.map_reverse] at hnotices'
  refine (List.reverse_perm _).symm.trans (.trans ?_ (List.reverse_perm _))
  rw [hnotices, hnotices']
  exact hcalls

/-- Before the first sweep no failure is on record but for crashes of observers. -/
theorem Session.exists_opening {ctx : RunContext σ} (hverdict : ctx.host.Judges verdict)
    {last : Option MatchResult} {graph : Graph} {start : Progress σ}
    (hstart : last.forM (Run.seed ctx) { world, graph } = (.ok (), start)) :
    ∃ base calls notes, Progress.Opens ctx.host world base ∧ base.Since ctx.host notes start ∧
      Note.Split verdict [] calls notes := by
  obtain ⟨loads, opened, seeds, hloads, -, hnoted, hsince⟩ :=
    (Run.seed_since ctx hverdict.decides last _).ok rfl hstart
  have hsince := hsince fun _ => .found [] .silent
  refine ⟨_, _, _, ⟨rfl, rfl, loads, hloads, hnoted⟩, hsince, Ledger.opening_split ?_⟩
  intro seed hseed
  have hreal : ∀ note ∈ seed.2.verdictNotes seed.1, note.entry.Real ctx.host := fun note hnote =>
    hsince.trace.noted.real _ (List.mem_map_of_mem (List.mem_append_right _
      (List.mem_flatMap.2 ⟨seed, hseed, hnote⟩)))
  exact hverdict.judged hreal

/-! ## The end of a run -/

/-- What a run has noted, after loads for earlier values: its calls, and its failures, which are
those in `own` apart from crashes of observers. -/
structure MatchResult.Attributed (host : Host σ) (verdict : String → Decision) (world : σ)
    (result : MatchResult) (final : Progress σ) (own : List Failure) (notes : List Note) : Prop
    where
  noted : ∃ loads : List Entry, (∀ entry ∈ loads, entry.IsLoad) ∧
    host.Noted world (loads ++ notes.map (·.entry)) final.world
  calls : final.notices.reverse.map Notice.call = notes.filterMap Note.call?
  failures : result.failures.Perm (own ++ notes.filterMap (Note.crash? verdict))

namespace MatchResult.Attributed

variable {base final final' : Progress σ} {result result' : MatchResult}

theorem of_since (hbase : base.Opens host world) (hsince : base.Since host notes final)
    (hsplit : Note.Split verdict own calls notes) (hfailures : result.failures = final.failures) :
    result.Attributed host verdict world final own notes where
  noted := by
    obtain ⟨loads, hloads, hnoted⟩ := hbase.loads
    exact ⟨loads, hloads, hnoted.trans hsince.trace.noted⟩
  calls := by
    rw [hsince.calls, hbase.notices]
    rfl
  failures := by
    rw [hfailures, hsince.trace.failures, hbase.failures, List.nil_append]
    exact hsplit.failures

theorem real (h : result.Attributed host verdict world final own notes) :
    ∀ note ∈ notes, note.entry.Real host := by
  obtain ⟨loads, -, hnoted⟩ := h.noted
  exact fun note hnote => hnoted.real _ (List.mem_append_right _ (List.mem_map_of_mem hnote))

/-- Observers that crash always or never leave as many failures where they are called alike. -/
theorem subperm (h : result.Attributed host verdict world final own notes)
    (h' : result'.Attributed host verdict world final' own' notes') (hown : own.Subperm own')
    (hcalls : (final.notices.map Notice.call).Perm (final'.notices.map Notice.call))
    {crash : Nat → List Entity → Option Payload} (hcrash : host.Crashes crash) :
    result.failures.Subperm result'.failures := by
  have hnotes : (notes.filterMap Note.call?).Perm (notes'.filterMap Note.call?) := by
    rw [← h.calls, ← h'.calls, List.map_reverse, List.map_reverse]
    exact (List.reverse_perm _).trans (hcalls.trans (List.reverse_perm _).symm)
  have hcrashes : (notes.filterMap (Note.crash? verdict)).Perm
      (notes'.filterMap (Note.crash? verdict)) := by
    rw [Note.crashes_eq hcrash h.real, Note.crashes_eq hcrash h'.real]
    exact hnotes.filterMap _
  refine h.failures.subperm.trans (List.Subperm.trans ?_ h'.failures.symm.subperm)
  exact ((List.subperm_append_left own).2 hcrashes.subperm).trans
    ((List.subperm_append_right _).2 hown)

end MatchResult.Attributed

end Metamatch
