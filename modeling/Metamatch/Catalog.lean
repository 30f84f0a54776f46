import Metamatch.Catalog.Merge
import Metamatch.NameFilter

/-!
# The name catalog

All class names of a run in increasing order, each once, with the range searches that narrow a
scan down to a few of them.

* `Catalog.ofLists`: the union of name lists.
* `Catalog.lowerBound`, `Catalog.exactRange`, `Catalog.startRange`: searches by name.
* `Catalog.candidates`: the range that holds every name a filter can accept.
-/

namespace Metamatch

/-- Positions `start`, …, `stop - 1`. -/
structure Range where
  start : Nat
  stop : Nat
  deriving DecidableEq, Repr

/-- Class names in increasing order. -/
structure Catalog where
  names : List String := []
  deriving DecidableEq, Repr

namespace Catalog

/-- A list in order. One that is not is sorted. -/
def repair (list : List String) : List String :=
  if Ordered.isSorted (· < ·) list then list else Ordered.sort (· < ·) list

/-- The names that occur in some list, merged from the lists. -/
def ofLists (lists : List (List String)) : Catalog :=
  ⟨(Merge.start (lists.map repair)).drain.toList⟩

/-- The number of names. -/
def size (catalog : Catalog) : Nat := catalog.names.length

/-- The name at a position. -/
def get? (catalog : Catalog) (index : Nat) : Option String := catalog.names[index]?

/-- The position between `low` and `high` from which on `before` does not hold any more, by
halving what is between them. -/
def bisect (before : Nat → Bool) (low high : Nat) : Nat :=
  if low < high then
    let middle := (low + high) / 2
    if before middle then bisect before (middle + 1) high else bisect before low middle
  else low
termination_by high - low

/-- The first position whose name is not smaller than `key`, or the size if there is none. -/
def lowerBound (catalog : Catalog) (key : String) : Nat :=
  bisect (fun index => (catalog.get? index).any (· < key)) 0 catalog.size

/-- The one position of `name`, or an empty range if the catalog lacks it. -/
def exactRange (catalog : Catalog) (name : String) : Range :=
  let low := catalog.lowerBound name
  if catalog.get? low = some name then ⟨low, low + 1⟩ else ⟨low, low⟩

/-- The largest character. No character follows it, so it bounds what can follow a beginning. -/
def lastChar : Char := Char.ofNat 0x10FFFF

/-- From the first name not smaller than `start` to the first not smaller than `start` followed
by `lastChar`. -/
def startRange (catalog : Catalog) (start : String) : Range :=
  ⟨catalog.lowerBound start, catalog.lowerBound (start.push lastChar)⟩

/-- The range to search for a filter. A whole name narrows it most and so comes first; without
any requirement it is the whole catalog. -/
def candidates (catalog : Catalog) (filter : Option NameFilter) : Range :=
  match filter with
  | some ⟨some name, _⟩ => catalog.exactRange name
  | some ⟨none, some start⟩ => catalog.startRange start
  | _ => ⟨0, catalog.size⟩

/-- The names at the positions of a range, in order. -/
def slice (catalog : Catalog) (range : Range) : List String :=
  (catalog.names.take range.stop).drop range.start

end Catalog

end Metamatch
