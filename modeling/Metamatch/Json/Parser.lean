import Metamatch.Json.Token

/-!
# Reading JSON

* `Frame`, `Goal`: the open brackets, and what may come next.
* `Json.assemble`: the value that tokens make up.
* `Json.parse?`: the value of a document. Depth is not limited.
-/

namespace Metamatch.Json

/-- An open bracket with what was read inside it, last one first. -/
inductive Frame
  | list (items : List Json)
  | object (members : List (JsonText × Json)) (key : JsonText)

/-- What may come next. -/
inductive Goal
  | value
  /-- A value, or the end of a list that has just been opened. -/
  | firstItem
  /-- A key, or the end of an object that has just been opened. -/
  | firstKey (members : List (JsonText × Json))
  | key (members : List (JsonText × Json))
  /-- The colon after a key. -/
  | colon (members : List (JsonText × Json)) (key : JsonText)
  /-- A separator, a closing bracket or the end, after a value. -/
  | after (value : Json)

/-- What follows once a token is taken: the open brackets and the new goal. -/
def step? (frames : List Frame) (goal : Goal) (token : Token) : Option (List Frame × Goal) :=
  match goal, token with
  | .value, .text value | .firstItem, .text value => some (frames, .after (.text value))
  | .value, .plain value | .firstItem, .plain value => some (frames, .after value)
  | .value, .openList | .firstItem, .openList => some (.list [] :: frames, .firstItem)
  | .value, .openObject | .firstItem, .openObject => some (frames, .firstKey [])
  | .firstItem, .closeList =>
    match frames with
    | .list items :: outer => some (outer, .after (.list items.reverse))
    | _ => none
  | .firstKey members, .closeObject => some (frames, .after (.object members.reverse))
  | .firstKey members, .text key | .key members, .text key => some (frames, .colon members key)
  | .colon members key, .colon => some (.object members key :: frames, .value)
  | .after value, .comma =>
    match frames with
    | .list items :: outer => some (.list (value :: items) :: outer, .value)
    | .object members key :: outer => some (outer, .key ((key, value) :: members))
    | [] => none
  | .after value, .closeList =>
    match frames with
    | .list items :: outer => some (outer, .after (.list (value :: items).reverse))
    | _ => none
  | .after value, .closeObject =>
    match frames with
    | .object members key :: outer =>
      some (outer, .after (.object ((key, value) :: members).reverse))
    | _ => none
  | _, _ => none

/-- The value that tokens make up, given the open brackets and the goal. -/
def assemble (frames : List Frame) (goal : Goal) : List Token → Option Json
  | [] =>
    match frames, goal with
    | [], .after value => some value
    | _, _ => none
  | token :: rest => do
    let (frames, goal) ← step? frames goal token
    assemble frames goal rest

/-- The value of a document. -/
def parse? (document : String) : Option Json := do
  assemble [] .value (← Token.scan document)

end Metamatch.Json
