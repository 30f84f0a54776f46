import Metamatch.Json

/-!
# Decoding JSON

Readers of values by their expected shape. A reader refuses by `none`.

* `Json.fields?`: the fields of a record, written as an object or as a list.
* `Json.required`, `Json.defaulted`: a field that has to be there, and one that need not.
* `Json.natBelow?`, `Json.string?`, `Json.bool?`, `Json.list?`, `Json.nullable?`: simple shapes.
* `Json.variant?`, `Json.label?`: one case of several.
-/

namespace Metamatch.Json

variable {α : Type}

/-! ## Simple shapes -/

/-- A natural number below a bound, written with digits alone. -/
def natBelow? (bound : Nat) : Json → Option Nat
  | .nat value => if value < bound then some value else none
  | _ => none

/-- A number of 32 bits. -/
def nat32? : Json → Option Nat := natBelow? UInt32.size

/-- A number of 64 bits. -/
def nat64? : Json → Option Nat := natBelow? UInt64.size

def string? : Json → Option String
  | .text value => value
  | _ => none

def bool? : Json → Option Bool
  | .bool value => some value
  | _ => none

/-- A list of items of one shape. -/
def list? (item? : Json → Option α) : Json → Option (List α)
  | .list items => items.mapM item?
  | _ => none

/-- A value, or `null` for none. -/
def nullable? (value? : Json → Option α) : Json → Option (Option α)
  | .null => some none
  | value => (value? value).map some

/-! ## Records -/

/-- The values of a key, in order. -/
def valuesOf (key : String) (members : List (JsonText × Json)) : List Json :=
  members.filterMap fun member => if member.1 = some key then some member.2 else none

/-- The value of a key that may occur once at most. -/
def field? (members : List (JsonText × Json)) (key : String) : Option (Option Json) :=
  match valuesOf key members with
  | [] => some none
  | [value] => some (some value)
  | _ => none

/-- The fields of a record by their names, `none` for one that is missing. An object may hold other
members as well, but no key twice that is a name. A list holds the fields in order, where the last
ones may be missing. -/
def fields? (names : List String) : Json → Option (List (Option Json))
  | .object members =>
    if members.all (·.1.isSome) then names.mapM (field? members) else none
  | .list items =>
    if items.length ≤ names.length then
      some (items.map some ++ List.replicate (names.length - items.length) none)
    else none
  | _ => none

/-- A field that has to be there. -/
def required (value? : Json → Option α) (field : Option Json) : Option α := field >>= value?

/-- A field with a default. -/
def defaulted (default : α) (value? : Json → Option α) : Option Json → Option α
  | none => some default
  | some field => value? field

/-! ## Cases -/

/-- The name of a case with its content: the name alone, or an object with the content under it. -/
def variant? : Json → Option (String × Option Json)
  | .text value => value.map (·, none)
  | .object [(key, content)] => key.map (·, some content)
  | _ => none

/-- A case without content, for which `null` may stand. -/
def label? (ofLabel? : String → Option α) (value : Json) : Option α :=
  match value.variant? with
  | some (label, none) | some (label, some .null) => ofLabel? label
  | _ => none

end Metamatch.Json
