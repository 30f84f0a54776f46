import Metamatch.Json
import Metamatch.Text.Hex

/-!
# Writing JSON

* `Json.compact`: a value without blanks.
* `Json.pretty`: a value with one item a line, each level indented by two blanks.
-/

namespace Metamatch.Json

/-! ## Texts -/

/-- A character inside a text. Quotes, backslashes and controls are escaped, and nothing else. -/
def writeChar (c : Char) : List Char :=
  match c with
  | '"' => ['\\', '"']
  | '\\' => ['\\', '\\']
  | '\x08' => ['\\', 'b']
  | '\x0c' => ['\\', 'f']
  | '\n' => ['\\', 'n']
  | '\r' => ['\\', 'r']
  | '\t' => ['\\', 't']
  | c =>
    if c.toNat < 0x20 then
      ['\\', 'u', '0', '0', Text.hexDigit (c.toNat / 16), Text.hexDigit (c.toNat % 16)]
    else [c]

/-- A text in quotes. -/
def writeText (text : List Char) : List Char := '"' :: (text.flatMap writeChar ++ ['"'])

/-- A key or a text. Half of a surrogate pair is written as the replacement character. -/
def writeJsonText (text : JsonText) : List Char := writeText ((text.getD "\ufffd").toList)

/-! ## Values -/

/-- A value that holds no others. -/
def writePlain : Json → List Char
  | .null => "null".toList
  | .bool true => "true".toList
  | .bool false => "false".toList
  | .nat value => Nat.toDigits 10 value
  | .numeral spelling => spelling.toList
  | .text value => writeJsonText value
  | .list _ => "[]".toList
  | .object _ => "\x7b\x7d".toList

/-- The layout of lists and objects: what follows an opening bracket or a comma and what comes
before a closing bracket, by the depth inside, and what follows a colon. -/
structure Layout where
  breakAt : Nat → List Char
  gap : List Char

namespace Layout

/-- No blanks at all. -/
def compact : Layout := ⟨fun _ => [], []⟩

/-- One item a line, indented by two blanks a level, and a blank after each colon. -/
def pretty : Layout := ⟨fun depth => '\n' :: List.replicate (2 * depth) ' ', [' ']⟩

end Layout

mutual

/-- A value at a given depth. -/
def write (layout : Layout) (depth : Nat) : Json → List Char
  | .list (item :: items) =>
    '[' :: (layout.breakAt (depth + 1) ++ write layout (depth + 1) item ++
      writeItems layout depth items)
  | .object ((key, value) :: members) =>
    '{' :: (layout.breakAt (depth + 1) ++ writeJsonText key ++ ':' :: layout.gap ++
      write layout (depth + 1) value ++ writeMembers layout depth members)
  | value => writePlain value

/-- The items after the first, with the end of their list. -/
def writeItems (layout : Layout) (depth : Nat) : List Json → List Char
  | [] => layout.breakAt depth ++ [']']
  | item :: items =>
    ',' :: (layout.breakAt (depth + 1) ++ write layout (depth + 1) item ++
      writeItems layout depth items)

/-- The members after the first, with the end of their object. -/
def writeMembers (layout : Layout) (depth : Nat) : List (JsonText × Json) → List Char
  | [] => layout.breakAt depth ++ ['}']
  | (key, value) :: members =>
    ',' :: (layout.breakAt (depth + 1) ++ writeJsonText key ++ ':' :: layout.gap ++
      write layout (depth + 1) value ++ writeMembers layout depth members)

end

/-- A value without blanks. -/
def compact (value : Json) : String := String.ofList (value.write .compact 0)

/-- A value with one item a line. -/
def pretty (value : Json) : String := String.ofList (value.write .pretty 0)

end Metamatch.Json
