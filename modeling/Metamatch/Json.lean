/-!
# JSON values

* `Json`: values. Numbers other than natural numbers keep their spelling, and a text that holds
  half of a surrogate pair stands for no string, so that both can be carried past a reader that
  ignores them.
-/

namespace Metamatch

/-- A text, or `none` if it was written with an escape for half of a surrogate pair. -/
abbrev JsonText := Option String

/-- JSON values. Objects keep the order of their members, and repeated keys. -/
inductive Json
  | null
  | bool (value : Bool)
  /-- A number written with digits alone. -/
  | nat (value : Nat)
  /-- Any other number, as it is written. -/
  | numeral (spelling : String)
  | text (value : JsonText)
  | list (items : List Json)
  | object (members : List (JsonText × Json))
  deriving Repr, Inhabited

namespace Json

/-- A string. -/
def str (value : String) : Json := .text (some value)

/-- An object with string keys. -/
def record (members : List (String × Json)) : Json :=
  .object (members.map fun member => (some member.1, member.2))

end Json

end Metamatch
