import Metamatch.Ordered

/-!
# Lists of names merged

Lists in order are merged by taking the smallest of their first names over and over. The list that a
name is taken from gives its next one.

* `Merge`, `Merge.start`: the first names of the lists, what is behind them, and the names so far.
* `Merge.take`: one name taken.
* `Merge.drain`: all names, each once.
-/

namespace Metamatch

/-- The first name that a list has left, and the number of the list. -/
structure Merge.Head where
  name : String
  list : Nat
  deriving DecidableEq, Repr

/-- Lists that are being merged. -/
structure Merge where
  /-- The first names of the lists that are not exhausted, in the order in which they are taken. -/
  heads : List Merge.Head
  /-- What each list has behind its first name. -/
  tails : List (List String)
  /-- The names that were taken, each once. -/
  names : Array String := #[]
  deriving DecidableEq, Repr

namespace Merge

/-- First names are taken by name, and the same ones by list. -/
def Head.before (a b : Head) : Bool :=
  decide (a.name < b.name) || decide (a.name = b.name) && decide (a.list < b.list)

/-- The first names of all lists, and none taken. -/
def start (lists : List (List String)) : Merge where
  heads := Ordered.sort Head.before
    (lists.zipIdx.filterMap fun entry => entry.1.head?.map (Head.mk · entry.2))
  tails := lists.map List.tail

/-- A name added to those that were taken, unless it is the last of them. -/
def add (names : Array String) (name : String) : Array String :=
  if names.back? = some name then names else names.push name

/-- The first head is taken, and the list that it is from gives its next name. -/
def take (merge : Merge) (head : Head) (others : List Head) : Merge :=
  match merge.tails[head.list]? with
  | some (next :: rest) =>
    { heads := Ordered.place Head.before ⟨next, head.list⟩ others
      tails := merge.tails.set head.list rest
      names := add merge.names head.name }
  | _ => { heads := others, tails := merge.tails, names := add merge.names head.name }

/-! ## All names -/

/-- How many names are still to be taken. -/
def left (merge : Merge) : Nat := merge.heads.length + merge.tails.flatten.length

theorem length_place {β : Type} (before : β → β → Bool) (b : β) (items : List β) :
    (Ordered.place before b items).length = items.length + 1 := by
  induction items with
  | nil => rfl
  | cons first rest ih =>
    unfold Ordered.place
    split
    · rw [List.length_cons, ih, List.length_cons]
    · rfl

theorem length_flatten_set {lists : List (List String)} {index : Nat} {next : String}
    {rest : List String} (h : lists[index]? = some (next :: rest)) :
    (lists.set index rest).flatten.length + 1 = lists.flatten.length := by
  induction lists generalizing index with
  | nil => cases h
  | cons list others ih =>
    cases index with
    | zero =>
      cases h
      rw [List.set_cons_zero, List.flatten_cons, List.flatten_cons, List.length_append,
        List.length_append, List.length_cons]
      omega
    | succ index =>
      have hothers := ih h
      rw [List.set_cons_succ, List.flatten_cons, List.flatten_cons, List.length_append,
        List.length_append]
      omega

theorem left_take {merge : Merge} {head : Head} {others : List Head}
    (h : merge.heads = head :: others) : (merge.take head others).left < merge.left := by
  unfold take left
  split
  · next next rest htail =>
    have hrest := length_flatten_set htail
    rw [length_place, h, List.length_cons]
    dsimp only
    omega
  · rw [h, List.length_cons]
    dsimp only
    omega

/-- Heads are taken until none is left. -/
def drain (merge : Merge) : Array String :=
  match h : merge.heads with
  | [] => merge.names
  | head :: others =>
    have := left_take h
    (merge.take head others).drain
termination_by merge.left

end Merge

end Metamatch
