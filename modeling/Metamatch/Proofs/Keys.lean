import Mathlib.Data.List.Induction
import Mathlib.Data.String.Basic
import Metamatch.Proofs.Ordered
import Metamatch.Result

/-!
# Results by key

A result finds the report of a key by its index, which is not saved and made anew when the result is
read. Wherever it comes from, it leads to the last report with the key.

* `KeyIndex.lookup_put`: what is found under a key once a place was put there.
* `KeyIndex.place?_ofReports`: the index of reports leads to the last one with a key.
* `MatchResult.keys_eq`: its keys are those of the reports, each once and in order.
* `MatchResult.keyed?_eq_some_iff`: the result leads to the last report with a key.
-/

namespace Metamatch

namespace KeyIndex

theorem lookup_put (key other : String) (place : Nat) (entries : List (String × Nat)) :
    (put key place entries).lookup other =
      if other = key then some place else entries.lookup other := by
  induction entries with
  | nil => by_cases h : other = key <;> simp [put, h]
  | cons entry rest ih =>
    unfold put
    split_ifs <;> grind

theorem place?_note (index : KeyIndex) (report : Report) (place : Nat) (key : String) :
    (index.note (report, place)).place? key =
      if report.key = some key then some place else index.place? key := by
  unfold note
  cases report.key with
  | none => simp
  | some other =>
    rw [place?, lookup_put]
    simp only [Option.some.injEq, eq_comm]
    rfl

theorem keys_put (key : String) (place : Nat) (entries : List (String × Nat)) :
    (put key place entries).map Prod.fst = Ordered.insert key (entries.map Prod.fst) := by
  induction entries with
  | nil => rfl
  | cons entry rest ih =>
    rw [List.map_cons, put, Ordered.insert]
    split_ifs with hlt heq
    · rfl
    · rw [List.map_cons, heq]
    · rw [List.map_cons, ih]

theorem ofReports_concat (rest : List Report) (report : Report) :
    ofReports (rest ++ [report]) = (ofReports rest).note (report, rest.length) := by
  rw [ofReports, List.zipIdx_append, List.foldl_append, Nat.zero_add, List.zipIdx_singleton]
  rfl

theorem keys_ofReports (reports : List Report) :
    (ofReports reports).keys = Ordered.ofList (reports.filterMap (·.key)) := by
  induction reports using List.reverseRecOn with
  | nil => rfl
  | append_singleton rest report ih =>
    rw [ofReports_concat, List.filterMap_append, note]
    dsimp only
    cases hkey : report.key with
    | none =>
      dsimp only
      rw [ih, List.filterMap_cons_none hkey, List.filterMap_nil, List.append_nil]
    | some key =>
      rw [List.filterMap_cons_some hkey, List.filterMap_nil, keys, keys_put]
      change Ordered.insert key (ofReports rest).keys = _
      rw [ih]
      have hsame : ∀ other, other ∈ key :: rest.filterMap (·.key) ↔
          other ∈ rest.filterMap (·.key) ++ [key] := by simp [or_comm]
      exact Ordered.ofList_congr hsame

/-- **The index of reports leads to the last one with a key**, by a place among them. -/
theorem place?_ofReports (reports : List Report) (key : String) :
    (∀ place, (ofReports reports).place? key = some place → place < reports.length) ∧
      ((ofReports reports).place? key).bind (reports[·]?) =
        reports.findRev? (·.key == some key) := by
  -- From the end of the list: the last report is the last one to be noted, and the first to be
  -- looked at from behind.
  induction reports using List.reverseRecOn with
  | nil => exact ⟨fun _ h => (nomatch h), rfl⟩
  | append_singleton rest report ih =>
    obtain ⟨hlt, hfound⟩ := ih
    have hplace : (ofReports (rest ++ [report])).place? key =
        if report.key = some key then some rest.length else (ofReports rest).place? key := by
      rw [ofReports_concat, place?_note]
    have hlast : (rest ++ [report]).findRev? (·.key == some key) =
        if report.key = some key then some report else rest.findRev? (·.key == some key) := by
      simp only [List.findRev?_eq_find?_reverse, List.reverse_append, List.reverse_singleton,
        List.singleton_append, List.find?_cons]
      cases hkey : report.key == some key <;> simp_all
    rw [hplace, hlast, List.length_append, List.length_singleton]
    split_ifs
    · exact ⟨fun i hi => by cases hi; omega, by simp⟩
    · refine ⟨fun i hi => Nat.lt_succ_of_lt (hlt i hi), ?_⟩
      rw [← hfound]
      exact Option.bind_congr fun i hi => List.getElem?_append_left (hlt i hi)

end KeyIndex

namespace MatchResult

/-- The last report with a key: none of those after it has the same one. -/
def Last (result : MatchResult) (key : String) (report : Report) : Prop :=
  report.key = some key ∧ ∃ before after, result.reports = before ++ report :: after ∧
    ∀ other ∈ after, other.key ≠ some key

/-- **The keys of a result are those of its reports**, each once and in order. -/
theorem keys_eq (result : MatchResult) :
    result.keys = Ordered.ofList (result.reports.filterMap (·.key)) := by
  rw [keys, result.indexed, KeyIndex.keys_ofReports]

/-- The report of a key is the first one from behind that has it. -/
theorem keyed?_eq (result : MatchResult) (key : String) :
    result.keyed? key = result.reports.reverse.find? (·.key == some key) := by
  rw [← List.findRev?_eq_find?_reverse, keyed?, result.indexed]
  exact (KeyIndex.place?_ofReports result.reports key).2

/-- **The report of a key is the last one that has it**, and there is none if no report has it. -/
theorem keyed?_eq_some_iff {result : MatchResult} {key : String} {report : Report} :
    result.keyed? key = some report ↔ result.Last key report := by
  rw [keyed?_eq, List.find?_eq_some_iff_append, Last, beq_iff_eq]
  refine and_congr_right fun _ => ⟨?_, ?_⟩
  · rintro ⟨after, before, hreports, hafter⟩
    refine ⟨before.reverse, after.reverse, ?_, fun other hother => ?_⟩
    · rw [← List.reverse_inj, hreports]
      simp
    · simpa using hafter other (List.mem_reverse.1 hother)
  · rintro ⟨before, after, hreports, hafter⟩
    refine ⟨after.reverse, before.reverse, by simp [hreports], fun other hother => ?_⟩
    simpa using hafter other (List.mem_reverse.1 hother)

end MatchResult

end Metamatch
