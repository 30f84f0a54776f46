import Metamatch.Json
import Metamatch.Text.Hex

/-!
# JSON tokens

* `Token`: brackets, separators, texts and plain values.
* `Lexer.step`: the lexer as a machine that reads one character at a time.
* `Token.scan`: the tokens of a document.
-/

namespace Metamatch.Json

/-- The pieces of a document. -/
inductive Token
  | openList
  | closeList
  | openObject
  | closeObject
  | colon
  | comma
  | text (value : JsonText)
  /-- A word that is a value: `null`, `true`, `false` or a number. -/
  | plain (value : Json)
  deriving Repr

namespace Token

/-! ## Words -/

/-- One digit or more, and nothing else. -/
def isDigits (cs : List Char) : Bool := !cs.isEmpty && cs.all Char.isDigit

/-- An exponent after its mark: digits, perhaps with a sign. -/
def isExponent : List Char → Bool
  | '+' :: cs | '-' :: cs => isDigits cs
  | cs => isDigits cs

/-- What may follow the whole part of a number: a fraction, an exponent, both or neither. -/
def isNumberTail (cs : List Char) : Bool :=
  match cs with
  | [] => true
  | '.' :: rest =>
    isDigits (rest.takeWhile Char.isDigit) && isExponentPart (rest.dropWhile Char.isDigit)
  | _ => isExponentPart cs
where
  isExponentPart : List Char → Bool
    | [] => true
    | 'e' :: rest | 'E' :: rest => isExponent rest
    | _ => false

/-- The whole part of a number: `0`, or digits that do not begin with `0`. -/
def isWhole : List Char → Bool
  | ['0'] => true
  | '0' :: _ => false
  | cs => isDigits cs

/-- A number by its spelling. -/
def number? (cs : List Char) : Option Json :=
  let body := if cs.head? = some '-' then cs.tail else cs
  let whole := body.takeWhile Char.isDigit
  let tail := body.dropWhile Char.isDigit
  if isWhole whole && isNumberTail tail then
    if whole = cs then some (.nat (Nat.ofDigitChars 10 cs 0))
    else some (.numeral (String.ofList cs))
  else none

/-- The value that a word stands for. -/
def ofWord? (cs : List Char) : Option Token :=
  if cs = "null".toList then some (.plain .null)
  else if cs = "true".toList then some (.plain (.bool true))
  else if cs = "false".toList then some (.plain (.bool false))
  else (number? cs).map .plain

/-! ## Texts -/

/-- A piece of a text: a character, or the 16-bit unit of an escape `\u`. -/
inductive Piece
  | char (c : Char)
  | unit (value : Nat)
  deriving Repr

/-- The first half of a surrogate pair. -/
def isHigh (unit : Nat) : Bool := 0xD800 ≤ unit && unit < 0xDC00

/-- The second half of a surrogate pair. -/
def isLow (unit : Nat) : Bool := 0xDC00 ≤ unit && unit < 0xE000

/-- The character of a surrogate pair. -/
def ofPair (high low : Nat) : Char :=
  Char.ofNat (0x10000 + (high - 0xD800) * 0x400 + (low - 0xDC00))

/-- The characters of a text. Each half of a surrogate pair needs the other one next to it. -/
def joinPieces : List Piece → Option (List Char)
  | [] => some []
  | .char c :: rest => (joinPieces rest).map (c :: ·)
  | .unit high :: .unit low :: rest =>
    if isHigh high then
      if isLow low then (joinPieces rest).map (ofPair high low :: ·) else none
    else if isLow high then none
    else (joinPieces (.unit low :: rest)).map (Char.ofNat high :: ·)
  | .unit value :: rest =>
    if isHigh value || isLow value then none else (joinPieces rest).map (Char.ofNat value :: ·)

/-- The token of a text whose pieces were read, last one first. -/
def ofPieces (pieces : List Piece) : Token :=
  .text ((joinPieces pieces.reverse).map String.ofList)

/-- The character that a one-letter escape stands for. -/
def escaped? : Char → Option Char
  | '"' => some '"'
  | '\\' => some '\\'
  | '/' => some '/'
  | 'b' => some '\x08'
  | 'f' => some '\x0c'
  | 'n' => some '\n'
  | 'r' => some '\r'
  | 't' => some '\t'
  | _ => none

end Token

/-! ## The machine -/

/-- What the lexer is in the middle of. Lists hold what was read, last one first. -/
inductive Lexer
  | outside
  | word (read : List Char)
  | text (read : List Token.Piece)
  /-- After a backslash. -/
  | escape (read : List Token.Piece)
  /-- After `\u`, with the digits still to come and the value of those read. -/
  | unit (read : List Token.Piece) (left value : Nat)

namespace Lexer

/-- Blanks between tokens. -/
def isSpace (c : Char) : Bool := c == ' ' || c == '\n' || c == '\t' || c == '\r'

/-- Characters of words. -/
def isWordChar (c : Char) : Bool := c.isAlphanum || c == '+' || c == '-' || c == '.'

/-- The token of a character that is one by itself. -/
def punctuation? : Char → Option Token
  | '[' => some .openList
  | ']' => some .closeList
  | '{' => some .openObject
  | '}' => some .closeObject
  | ':' => some .colon
  | ',' => some .comma
  | _ => none

/-- A character outside of words and texts. -/
def start? (c : Char) : Option (Lexer × List Token) :=
  if isSpace c then some (.outside, [])
  else if c = '"' then some (.text [], [])
  else if isWordChar c then some (.word [c], [])
  else (punctuation? c).map fun token => (.outside, [token])

/-- Read a character: the next state, and the tokens that are complete. -/
def step (c : Char) : Lexer → Option (Lexer × List Token)
  | .outside => start? c
  | .word read =>
    if isWordChar c then some (.word (c :: read), [])
    else do
      let token ← Token.ofWord? read.reverse
      let (next, tokens) ← start? c
      return (next, token :: tokens)
  | .text read =>
    if c = '"' then some (.outside, [Token.ofPieces read])
    else if c = '\\' then some (.escape read, [])
    else if c.toNat < 0x20 then none
    else some (.text (.char c :: read), [])
  | .escape read =>
    if c = 'u' then some (.unit read 4 0, [])
    else (Token.escaped? c).map fun char => (.text (.char char :: read), [])
  | .unit read left value => do
    let value := 16 * value + (← Text.hexValue? c)
    if left = 1 then return (.text (.unit value :: read), [])
    else return (.unit read (left - 1) value, [])

/-- The tokens that the end of a document completes. -/
def finish : Lexer → Option (List Token)
  | .outside => some []
  | .word read => (Token.ofWord? read.reverse).map ([·])
  | .text _ | .escape _ | .unit _ _ _ => none

/-- The tokens of the rest of a document. -/
def run : Lexer → List Char → Option (List Token)
  | state, [] => state.finish
  | state, c :: rest => do
    let (next, tokens) ← state.step c
    return tokens ++ (← run next rest)

end Lexer

/-- The tokens of a document. -/
def Token.scan (document : String) : Option (List Token) := Lexer.run .outside document.toList

end Metamatch.Json
