import Metamatch.EntityName

/-!
# Results of a run

* `Outcome`, `Report`: what became of one matcher.
* `Failure`: a failure and the verdict on it.
* `KeyIndex`: the places of reports by their keys.
* `MatchResult`: all reports and failures, with access by slot and by key.
-/

namespace Metamatch

/-- What became of a matcher. -/
inductive Outcome
  /-- Published with values. -/
  | resolved
  /-- Published empty. -/
  | missed
  /-- Never ready, because some reference was never published. -/
  | unresolved
  /-- Left out, because nothing asked for it. -/
  | pruned
  deriving DecidableEq, Repr

namespace Outcome

def label : Outcome → String
  | .resolved => "resolved"
  | .missed => "missed"
  | .unresolved => "unresolved"
  | .pruned => "pruned"

def all : List Outcome := [.resolved, .missed, .unresolved, .pruned]

def ofLabel? (label : String) : Option Outcome := all.find? (·.label == label)

theorem ofLabel?_label (outcome : Outcome) : ofLabel? outcome.label = some outcome := by
  cases outcome <;> decide

end Outcome

/-- The end of one matcher. -/
structure Report where
  slot : Slot
  kind : Kind
  key : Option String := none
  outcome : Outcome
  /-- The sweep that published the values; 0 for values taken over from an earlier result. -/
  sweep : Option Nat := none
  values : List Entity := []
  /-- The names of the values, or none at all. -/
  names : List EntityName := []
  deriving DecidableEq, Repr

/-- A failure during a run: the matcher, the text of the root cause and the verdict. -/
structure Failure where
  slot : Slot
  message : String
  decision : Decision
  deriving DecidableEq, Repr

/-- The places of reports by their keys, in the order of the keys. -/
structure KeyIndex where
  entries : List (String × Nat) := []
  deriving DecidableEq, Repr

namespace KeyIndex

/-- Put a place under a key, instead of the one that was there. -/
def put (key : String) (place : Nat) : List (String × Nat) → List (String × Nat)
  | [] => [(key, place)]
  | entry :: rest =>
    if key < entry.1 then (key, place) :: entry :: rest
    else if key = entry.1 then (key, place) :: rest
    else entry :: put key place rest

/-- Note the place of a report under its key. -/
def note (index : KeyIndex) (item : Report × Nat) : KeyIndex :=
  match item.1.key with
  | some key => ⟨put key item.2 index.entries⟩
  | none => index

/-- The places of reports, noted one after the other: of several with a key, the last one counts. -/
def ofReports (reports : List Report) : KeyIndex := reports.zipIdx.foldl note {}

/-- The place under a key. -/
def place? (index : KeyIndex) (key : String) : Option Nat := index.entries.lookup key

/-- The keys in increasing order, each once. -/
def keys (index : KeyIndex) : List String := index.entries.map Prod.fst

end KeyIndex

/-- Everything a run found out. -/
structure MatchResult where
  /-- The number of sweeps, the last one, which published nothing, included. -/
  sweeps : Nat
  /-- One report for each matcher, by slot. -/
  reports : List Report
  failures : List Failure := []
  /-- The places of the reports by their keys. -/
  index : KeyIndex := .ofReports reports
  indexed : index = .ofReports reports := by rfl
  deriving DecidableEq, Repr

namespace MatchResult

/-- A result of its parts: the index is made anew. -/
def ofParts (sweeps : Nat) (reports : List Report) (failures : List Failure) : MatchResult :=
  { sweeps, reports, failures }

theorem eq_of_parts {result result' : MatchResult} (hsweeps : result.sweeps = result'.sweeps)
    (hreports : result.reports = result'.reports) (hfailures : result.failures = result'.failures) :
    result = result' := by
  obtain ⟨_, _, _, _, rfl⟩ := result
  obtain ⟨_, _, _, _, rfl⟩ := result'
  cases hsweeps
  cases hreports
  cases hfailures
  rfl

@[simp] theorem ofParts_eq (result : MatchResult) :
    ofParts result.sweeps result.reports result.failures = result :=
  eq_of_parts rfl rfl rfl

/-- The report of a slot. -/
def report? (result : MatchResult) (slot : Slot) : Option Report := result.reports[slot]?

def outcome? (result : MatchResult) (slot : Slot) : Option Outcome :=
  (result.report? slot).map (·.outcome)

/-- The values of a slot; none unless it was resolved. -/
def values (result : MatchResult) (slot : Slot) : List Entity :=
  ((result.report? slot).map (·.values)).getD []

/-- The first value of a slot. -/
def value? (result : MatchResult) (slot : Slot) : Option Entity := (result.values slot).head?

/-- The report with a key. Of several, the last one counts. -/
def keyed? (result : MatchResult) (key : String) : Option Report :=
  (result.index.place? key).bind result.report?

/-- The values with a key. -/
def get? (result : MatchResult) (key : String) : Option (List Entity) :=
  (result.keyed? key).map (·.values)

/-- The classes among the values with a key. -/
def classes (result : MatchResult) (key : String) : List ClassId :=
  ((result.get? key).getD []).filterMap Entity.classId?

/-- The first class with a key. -/
def class? (result : MatchResult) (key : String) : Option ClassId := (result.classes key).head?

/-- The members among the values with a key. -/
def members (result : MatchResult) (key : String) : List MemberId :=
  ((result.get? key).getD []).filterMap Entity.memberId?

/-- The keys in increasing order, each once. -/
def keys (result : MatchResult) : List String := result.index.keys

end MatchResult

end Metamatch
