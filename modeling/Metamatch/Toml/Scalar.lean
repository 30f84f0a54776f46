import Metamatch.Text.Hex
import Metamatch.Toml

/-!
# TOML scalars

Readers of texts, numbers, dates and times. A reader takes a beginning of its input and gives what
it read with the rest, or refuses.

* `Toml.newline?`, `Toml.comment?`: the ends of lines.
* `Toml.quoted?`: texts of all four forms.
* `Toml.number?`, `Toml.moment?`: integers and floats, dates and times.
-/

namespace Metamatch.Toml

/-- A reader: what was read, and the rest. -/
abbrev Reader (α : Type) := List Char → Option (α × List Char)

variable {α β : Type}

/-! ## Characters -/

/-- Blanks within a line. -/
def isBlank (c : Char) : Bool := c == ' ' || c == '\t'

/-- Characters that may stand in a line: all but controls, and the tab. -/
def isInline (c : Char) : Bool := c == '\t' || (0x20 ≤ c.toNat && c.toNat != 0x7F)

/-- The rest after blanks. -/
def skipBlanks (cs : List Char) : List Char := cs.dropWhile isBlank

/-- The end of a line, with or without a carriage return. -/
def newline? : Reader Unit
  | '\n' :: rest | '\r' :: '\n' :: rest => some ((), rest)
  | _ => none

/-- A comment up to the end of its line. -/
def comment? : Reader Unit
  | '#' :: rest => some ((), rest.dropWhile isInline)
  | _ => none

/-- The expected characters, one after the other. -/
def literal? : List Char → Reader Unit
  | [], cs => some ((), cs)
  | c :: expected, d :: rest => if c = d then literal? expected rest else none
  | _ :: _, [] => none

/-! ## Texts -/

/-- The character with a code point, unless that is half of a surrogate pair or too large. -/
def scalar? (code : Nat) : Option Char :=
  if code.isValidChar then some (Char.ofNat code) else none

/-- The number that hexadecimal digits spell. -/
def hexNumber? (digits : List Char) : Option Nat :=
  digits.foldlM (fun n c => (Text.hexValue? c).map (16 * n + ·)) 0

/-- The character that a one-letter escape stands for. -/
def escaped? : Char → Option Char
  | 'b' => some '\x08'
  | 't' => some '\t'
  | 'n' => some '\n'
  | 'f' => some '\x0c'
  | 'r' => some '\r'
  | '"' => some '"'
  | '\\' => some '\\'
  | _ => none

/-- A text in double quotes, after the opening one. -/
def basicBody? : Reader (List Char)
  | '"' :: rest => some ([], rest)
  | '\\' :: 'u' :: a :: b :: c :: d :: rest => do
    let char ← hexNumber? [a, b, c, d] >>= scalar?
    let (tail, rest) ← basicBody? rest
    return (char :: tail, rest)
  | '\\' :: 'U' :: a :: b :: c :: d :: e :: f :: g :: h :: rest => do
    let char ← hexNumber? [a, b, c, d, e, f, g, h] >>= scalar?
    let (tail, rest) ← basicBody? rest
    return (char :: tail, rest)
  | '\\' :: c :: rest => do
    let char ← escaped? c
    let (tail, rest) ← basicBody? rest
    return (char :: tail, rest)
  | c :: rest => do
    if isInline c && c != '\\' then
      let (tail, rest) ← basicBody? rest
      return (c :: tail, rest)
    else none
  | [] => none

/-- A text in single quotes, after the opening one. -/
def literalBody? : Reader (List Char)
  | '\'' :: rest => some ([], rest)
  | c :: rest => do
    if isInline c then
      let (tail, rest) ← literalBody? rest
      return (c :: tail, rest)
    else none
  | [] => none

/-- A backslash here ends its line: only blanks come before the next one. -/
def endsLine (cs : List Char) : Bool := (newline? (skipBlanks cs)).isSome

/-- A text in three double quotes, after the opening ones and a first line break. Up to two quotes
may stand right before the closing ones. After a backslash that ends its line, `skipping` drops
blanks and line breaks up to the next character. -/
def basicBlock? : Bool → Reader (List Char)
  | _, '"' :: '"' :: '"' :: '"' :: '"' :: rest => some (['"', '"'], rest)
  | _, '"' :: '"' :: '"' :: '"' :: rest => some (['"'], rest)
  | _, '"' :: '"' :: '"' :: rest => some ([], rest)
  | skipping, '\r' :: '\n' :: rest => do
    let (tail, rest) ← basicBlock? skipping rest
    return (if skipping then tail else '\n' :: tail, rest)
  | _, '\\' :: 'u' :: a :: b :: c :: d :: rest => do
    let char ← hexNumber? [a, b, c, d] >>= scalar?
    let (tail, rest) ← basicBlock? false rest
    return (char :: tail, rest)
  | _, '\\' :: 'U' :: a :: b :: c :: d :: e :: f :: g :: h :: rest => do
    let char ← hexNumber? [a, b, c, d, e, f, g, h] >>= scalar?
    let (tail, rest) ← basicBlock? false rest
    return (char :: tail, rest)
  | _, '\\' :: c :: rest => do
    if endsLine (c :: rest) then basicBlock? true (c :: rest)
    else
      let char ← escaped? c
      let (tail, rest) ← basicBlock? false rest
      return (char :: tail, rest)
  | skipping, c :: rest => do
    if skipping && (isBlank c || c == '\n') then basicBlock? true rest
    else if c == '\n' || (isInline c && c != '\\') then
      let (tail, rest) ← basicBlock? false rest
      return (c :: tail, rest)
    else none
  | _, [] => none

/-- A text in three single quotes, after the opening ones and a first line break. Up to two quotes
may stand right before the closing ones. -/
def literalBlock? : Reader (List Char)
  | '\'' :: '\'' :: '\'' :: '\'' :: '\'' :: rest => some (['\'', '\''], rest)
  | '\'' :: '\'' :: '\'' :: '\'' :: rest => some (['\''], rest)
  | '\'' :: '\'' :: '\'' :: rest => some ([], rest)
  | '\r' :: '\n' :: rest => do
    let (tail, rest) ← literalBlock? rest
    return ('\n' :: tail, rest)
  | c :: rest => do
    if c == '\n' || isInline c then
      let (tail, rest) ← literalBlock? rest
      return (c :: tail, rest)
    else none
  | [] => none

/-- The rest after a line break, if it begins with one. -/
def skipNewline (cs : List Char) : List Char := ((newline? cs).map Prod.snd).getD cs

/-- A text in one of its four forms. -/
def quoted? (cs : List Char) : Option (String × List Char) :=
  let body := match cs with
    | '"' :: '"' :: '"' :: rest => basicBlock? false (skipNewline rest)
    | '"' :: rest => basicBody? rest
    | '\'' :: '\'' :: '\'' :: rest => literalBlock? (skipNewline rest)
    | '\'' :: rest => literalBody? rest
    | _ => none
  body.map fun (chars, rest) => (String.ofList chars, rest)

/-! ## Numbers -/

/-- Digits, where single underscores may stand between two of them; the digits alone. -/
def digits? (isDigit : Char → Bool) : Reader (List Char)
  | c :: '_' :: rest => do
    if isDigit c then
      let (digits, rest) ← digits? isDigit rest
      return (c :: digits, rest)
    else none
  | c :: rest =>
    if isDigit c then
      match digits? isDigit rest with
      | some (digits, rest) => some (c :: digits, rest)
      | none => if (rest.head?.any isDigit) then none else some ([c], rest)
    else none
  | [] => none

/-- The value of digits to a base. -/
def ofDigits (base : Nat) (digits : List Char) : Nat :=
  digits.foldl (fun n c => base * n + (Text.hexValue? c).getD 0) 0

/-- A sign; `true` if it is negative. -/
def sign (cs : List Char) : Bool × List Char :=
  match cs with
  | '+' :: rest => (false, rest)
  | '-' :: rest => (true, rest)
  | _ => (false, cs)

/-- Decimal digits that do not begin with a needless zero. -/
def whole? : Reader (List Char)
  | '0' :: rest => some (['0'], rest)
  | cs => digits? Char.isDigit cs

/-- An integer of 64 bits. -/
def bounded? (value : Int) : Option Toml :=
  if -9223372036854775808 ≤ value ∧ value ≤ 9223372036854775807 then some (.integer value) else none

/-- An integer: hexadecimal, octal or binary without a sign, or decimal. -/
def integer? (cs : List Char) : Option (Toml × List Char) :=
  match cs with
  | '0' :: 'x' :: rest => based 16 (fun c => (Text.hexValue? c).isSome) rest
  | '0' :: 'o' :: rest => based 8 (fun c => '0' ≤ c && c ≤ '7') rest
  | '0' :: 'b' :: rest => based 2 (fun c => c == '0' || c == '1') rest
  | _ => do
    let (negative, rest) := sign cs
    let (digits, rest) ← whole? rest
    let value : Int := ofDigits 10 digits
    return (← bounded? (if negative then -value else value), rest)
where
  based (base : Nat) (isDigit : Char → Bool) (cs : List Char) : Option (Toml × List Char) := do
    let (digits, rest) ← digits? isDigit cs
    return (← bounded? (ofDigits base digits), rest)

/-- The number `mantissa * 10 ^ exponent` is beyond the largest float, even when rounded. -/
def overflows (mantissa : List Char) (exponent : Int) : Bool :=
  let significant := mantissa.dropWhile (· == '0')
  let size : Int := significant.length + exponent
  if significant.isEmpty || size < 300 then false
  else if 400 < size then true
  else
    let value := ofDigits 10 significant
    let bound := Nat.pow 2 1024 - Nat.pow 2 970
    if 0 ≤ exponent then bound ≤ value * Nat.pow 10 exponent.toNat
    else bound * Nat.pow 10 (-exponent).toNat ≤ value

/-- An exponent with its mark. -/
def exponent? : Reader Int
  | 'e' :: rest | 'E' :: rest => do
    let (negative, rest) := sign rest
    let (digits, rest) ← digits? Char.isDigit rest
    let value : Int := ofDigits 10 digits
    return (if negative then -value else value, rest)
  | _ => none

/-- A number with a fraction, an exponent or both, or one of the words `inf` and `nan`. A positive
number beyond the largest float is refused. -/
def float? (cs : List Char) : Option (Toml × List Char) := do
  let (negative, rest) := sign cs
  match rest with
  | 'i' :: 'n' :: 'f' :: rest | 'n' :: 'a' :: 'n' :: rest => return (.float, rest)
  | _ =>
    let (whole, rest) ← whole? rest
    let (fraction, exponent, rest) ← match rest with
      | '.' :: rest => do
        let (fraction, rest) ← digits? Char.isDigit rest
        match exponent? rest with
        | some (exponent, rest) => pure (fraction, exponent, rest)
        | none => pure (fraction, 0, rest)
      | _ => (exponent? rest).map fun (exponent, rest) => ([], exponent, rest)
    if !negative && overflows (whole ++ fraction) (exponent - fraction.length) then none
    else return (.float, rest)

/-! ## Dates and times -/

/-- A number of exactly `count` digits within bounds. -/
def fixed? (count low high : Nat) : Reader Nat := fun cs =>
  let digits := cs.take count
  let value := ofDigits 10 digits
  if digits.length = count ∧ digits.all Char.isDigit ∧ low ≤ value ∧ value ≤ high then
    some (value, cs.drop count)
  else none

/-- The number of days of a month. -/
def daysIn (year month : Nat) : Nat :=
  if month = 2 then
    if year % 4 = 0 ∧ (year % 100 ≠ 0 ∨ year % 400 = 0) then 29 else 28
  else if month ∈ [4, 6, 9, 11] then 30
  else 31

/-- A date. -/
def day? (cs : List Char) : Option (Unit × List Char) := do
  let (year, cs) ← fixed? 4 0 9999 cs
  let ((), cs) ← literal? ['-'] cs
  let (month, cs) ← fixed? 2 1 12 cs
  let ((), cs) ← literal? ['-'] cs
  let (_, cs) ← fixed? 2 1 (daysIn year month) cs
  return ((), cs)

/-- The characters that may join a time to a date. -/
def joinsTime (c : Char) : Bool := c == 'T' || c == 't' || c == ' '

/-- A time of day. Any number of digits may follow the seconds. -/
def time? : Reader Unit := fun cs => do
  let (_, cs) ← fixed? 2 0 23 cs
  let ((), cs) ← literal? [':'] cs
  let (_, cs) ← fixed? 2 0 59 cs
  let ((), cs) ← literal? [':'] cs
  let (_, cs) ← fixed? 2 0 60 cs
  match cs with
  | '.' :: c :: rest => if c.isDigit then return ((), rest.dropWhile Char.isDigit) else none
  | '.' :: [] => none
  | _ => return ((), cs)

/-- The rest after an offset from universal time, if there is one. -/
def skipOffset (cs : List Char) : List Char :=
  match cs with
  | 'Z' :: rest | 'z' :: rest => rest
  | '+' :: rest | '-' :: rest =>
    let offset : Option (List Char) := do
      let (_, rest) ← fixed? 2 0 23 rest
      let ((), rest) ← literal? [':'] rest
      let (_, rest) ← fixed? 2 0 59 rest
      return rest
    offset.getD cs
  | _ => cs

/-- A date, a time, or both with or without an offset. -/
def moment? (cs : List Char) : Option (Toml × List Char) :=
  match day? cs with
  | none => (time? cs).map fun (_, rest) => (.date, rest)
  | some (_, rest) =>
    match rest with
    | c :: after =>
      if joinsTime c then
        match time? after with
        | some (_, rest) => some (.date, skipOffset rest)
        | none => some (.date, rest)
      else some (.date, rest)
    | [] => some (.date, [])

/-- A number, a date or a time. -/
def number? (cs : List Char) : Option (Toml × List Char) :=
  (moment? cs).or ((float? cs).or (integer? cs))

end Metamatch.Toml
