/-!
# TOML documents

* `Toml`: values, with tables that remember how they came about.
* `Toml.assign`: a value under a dotted key.
* `Toml.openTable`, `Toml.openItem`: tables and items of table lists, as headers begin them.

A table may be filled in several places, but only by means that fit the way in which it came about.
-/

namespace Metamatch

/-- How a table came about. -/
inductive TableOrigin
  /-- By a header of its own, or as the document. -/
  | header
  /-- On the way of a header to a deeper table. -/
  | passage
  /-- On the way of a dotted key to its value. -/
  | dotted
  /-- In braces, complete at once. -/
  | inline
  deriving DecidableEq, Repr

namespace TableOrigin

/-- A path may go on into a table of this origin. A dotted key may not reach into a table that has
a header, and nothing reaches into braces. -/
def admits (dotted : Bool) : TableOrigin → Bool
  | .header => !dotted
  | .passage | .dotted => true
  | .inline => false

/-- The origin of a table that a path brings about. -/
def ofPath (dotted : Bool) : TableOrigin := if dotted then .dotted else .passage

end TableOrigin

/-- Values of a document. No option takes a float or a date, so they are not told apart. -/
inductive Toml
  | text (value : String)
  | integer (value : Int)
  | bool (value : Bool)
  | float
  | date
  /-- A list in brackets, complete at once. -/
  | list (items : List Toml)
  /-- A list of tables, each begun by a header in double brackets. -/
  | tables (items : List Toml)
  | table (origin : TableOrigin) (members : List (String × Toml))
  deriving Repr, Inhabited

namespace Toml

/-- Change the member of a key. A member that was not there comes last. -/
def updateMember (key : String) (f : Option Toml → Option Toml) :
    List (String × Toml) → Option (List (String × Toml))
  | [] => do return [(key, ← f none)]
  | (k, value) :: rest =>
    if k = key then do return (k, ← f (some value)) :: rest
    else do return (k, value) :: (← updateMember key f rest)

/-- Change the last item of a list. -/
def updateLast (f : Toml → Option Toml) : List Toml → Option (List Toml)
  | [] => none
  | [item] => do return [← f item]
  | item :: rest => do return item :: (← updateLast f rest)

/-- Change the table at the end of a path, bringing tables about that are missing. A list of tables
stands for its last item. -/
def within (dotted : Bool) (f : Toml → Option Toml) : List String → Toml → Option Toml
  | [], target => f target
  | key :: path, .table origin members => do
    let members ← updateMember key (fun
      | none => within dotted f path (.table (.ofPath dotted) [])
      | some (.table inner items) =>
        if inner.admits dotted then within dotted f path (.table inner items) else none
      | some (.tables items) => do return .tables (← updateLast (within dotted f path) items)
      | some _ => none) members
    return .table origin members
  | _ :: _, _ => none

/-- Add a member to a table that has no such key. -/
def addMember (key : String) (value : Toml) : Toml → Option Toml
  | .table origin members => do
    let members ← updateMember key (fun
      | none => some value
      | some _ => none) members
    return .table origin members
  | _ => none

/-- A table that dotted keys may fill. -/
def isDotted : Toml → Bool
  | .table .dotted _ => true
  | _ => false

/-- Put a value under a dotted key. All but the last part of the key lead through tables that dotted
keys brought about. -/
def assign (path : List String) (key : String) (value : Toml) (target : Toml) : Option Toml :=
  within true (fun table =>
    if path.isEmpty || table.isDotted then addMember key value table else none) path target

/-- The effect of a header `[path.key]`: a table that is new, or was only passed through so far. Its
place is after the members that the table around it has by then. -/
def openTable (path : List String) (key : String) (document : Toml) : Option Toml :=
  within false (fun
    | .table origin members => do
      let items ← match members.lookup key with
        | none => some []
        | some (.table .passage items) => some items
        | some _ => none
      return .table origin (members.filter (·.1 != key) ++ [(key, .table .header items)])
    | _ => none) path document

/-- The effect of a header `[[path.key]]`: one more item of a list of tables. -/
def openItem (path : List String) (key : String) (document : Toml) : Option Toml :=
  within false (fun
    | .table origin members => do
      let members ← updateMember key (fun
        | none => some (.tables [.table .header []])
        | some (.tables items) => some (.tables (items ++ [.table .header []]))
        | some _ => none) members
      return .table origin members
    | _ => none) path document

/-- The effect of a line `path.key = value` under the header `[header]`. -/
def assignUnder (header path : List String) (key : String) (value : Toml) (document : Toml) :
    Option Toml :=
  within false (assign path key value) header document

end Toml

end Metamatch
