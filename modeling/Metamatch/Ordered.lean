/-!
# Lists in order

* `Ordered.insert`: put an element at its place, once.
* `Ordered.ofList`: the elements of a list in increasing order, each once.
* `Ordered.place`, `Ordered.sort`: the same without dropping repetitions.
* `Ordered.dedup`: drop the elements that repeat the one before them.
-/

namespace Metamatch.Ordered

variable {α : Type} [LT α] [DecidableLT α] [DecidableEq α]

/-- Insertion before the first larger element; an element already there is not repeated. -/
def insert (a : α) : List α → List α
  | [] => [a]
  | b :: rest =>
    if a < b then a :: b :: rest
    else if a = b then b :: rest
    else b :: insert a rest

/-- The distinct elements of a list in increasing order. -/
def ofList (items : List α) : List α := items.foldr insert []

theorem mem_insert {a x : α} {items : List α} : x ∈ insert a items ↔ x = a ∨ x ∈ items := by
  induction items with
  | nil => simp [insert]
  | cons b rest ih =>
    simp only [insert]
    split
    · simp
    · split
      · next h => simp [h]
      · simp only [List.mem_cons, ih]
        exact or_left_comm

theorem mem_ofList {x : α} {items : List α} : x ∈ ofList items ↔ x ∈ items := by
  induction items with
  | nil => simp [ofList]
  | cons b rest ih =>
    have h : ofList (b :: rest) = insert b (ofList rest) := rfl
    rw [h, mem_insert, ih, List.mem_cons]

/-! ## Repetitions kept -/

/-- Insertion behind the elements that come before it. -/
def place {β : Type} (before : β → β → Bool) (b : β) : List β → List β
  | [] => [b]
  | first :: rest => if before first b then first :: place before b rest else b :: first :: rest

/-- The elements of a list in order. Of two that are equal, the first stays first. -/
def sort {β : Type} (before : β → β → Bool) (items : List β) : List β :=
  items.foldr (place before) []

/-- No element comes before the one in front of it. -/
def isSorted {β : Type} (before : β → β → Bool) (items : List β) : Bool :=
  (items.zip items.tail).all fun pair => !before pair.2 pair.1

/-- A list without the elements that repeat the one before them. -/
def dedup : List α → List α
  | a :: b :: rest => if a = b then dedup (b :: rest) else a :: dedup (b :: rest)
  | items => items

end Metamatch.Ordered
