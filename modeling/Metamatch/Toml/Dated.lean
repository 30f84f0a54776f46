import Metamatch.Toml.Parser

/-!
# Dates written as tables

Inside a document a table may stand for a date: its first key is `Toml.dateKey`, and the text there
spells the date. Further keys of such a table do not matter.

* `Toml.spellsDate`: texts that spell a date, a time, or both.
* `Toml.dated?`: a value with such tables read as dates, unless one of them spells none.
* `Toml.load?`: a document with the dates in its members read.
-/

namespace Metamatch.Toml

/-- The first key of a table that stands for a date. -/
def dateKey : String := "$__toml_private_datetime"

/-- The whole of a text spells a date, a time, or both, as outside of texts. -/
def spellsDate (text : String) : Bool := (moment? text.toList).any (·.2.isEmpty)

/-- What a table that stands for a date has under its first key. -/
def dateMember? : List (String × Toml) → Option Toml
  | (key, value) :: _ => if key = dateKey then some value else none
  | [] => none

/-- The date that a text spells. Nothing else can spell one, not even a date. -/
def spelled? : Toml → Option Toml
  | .text content => if spellsDate content then some .date else none
  | _ => none

mutual

/-- A value in which the tables that stand for dates are read as such. -/
def dated? : Toml → Option Toml
  | .list items => (datedItems? items).map .list
  | .tables items => (datedItems? items).map .tables
  | .table origin members =>
    match dateMember? members with
    | some value => spelled? value
    | none => (datedMembers? members).map (.table origin)
  | value => some value

/-- The items of a list with their dates read. -/
def datedItems? : List Toml → Option (List Toml)
  | [] => some []
  | item :: rest => do return (← dated? item) :: (← datedItems? rest)

/-- The members of a table with their dates read. -/
def datedMembers? : List (String × Toml) → Option (List (String × Toml))
  | [] => some []
  | (key, value) :: rest => do return (key, ← dated? value) :: (← datedMembers? rest)

end

/-- The table of a document with its dates read. The document as a whole is no date, whatever its
first key. -/
def load? (document : String) : Option Toml := do
  match ← parse? document with
  | .table origin members => return .table origin (← datedMembers? members)
  | _ => none

end Metamatch.Toml
