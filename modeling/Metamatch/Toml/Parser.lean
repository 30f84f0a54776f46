import Metamatch.Toml.Scalar

/-!
# Reading TOML

* `Toml.key?`: dotted keys.
* `Toml.value?`: values up to a depth.
* `Toml.parse?`: the table of a document.
-/

namespace Metamatch.Toml

variable {α : Type}

/-! ## Keys -/

/-- Characters of keys without quotes. -/
def isBare (c : Char) : Bool := c.isAlphanum || c == '-' || c == '_'

/-- One part of a key: in quotes of one line, or of bare characters. -/
def keyPart? (cs : List Char) : Option (String × List Char) :=
  match cs with
  | '"' :: rest => (basicBody? rest).map fun (chars, rest) => (String.ofList chars, rest)
  | '\'' :: rest => (literalBody? rest).map fun (chars, rest) => (String.ofList chars, rest)
  | _ =>
    let part := cs.takeWhile isBare
    if part.isEmpty then none else some (String.ofList part, cs.dropWhile isBare)

/-- Paths of keys, and values in brackets and braces, go less deep than this. -/
def depthLimit : Nat := 80

/-- The parts of a key with dots between them and blanks around each: the last one and those before
it. -/
def keyParts? : Nat → Reader (List String × String)
  | 0, _ => none
  | left + 1, cs => do
    let (part, rest) ← keyPart? (skipBlanks cs)
    match skipBlanks rest with
    | '.' :: rest =>
      let ((path, last), rest) ← keyParts? left rest
      return ((part :: path, last), rest)
    | rest => return (([], part), rest)

/-- A key, bare, in quotes or dotted. -/
def key? : Reader (List String × String) := keyParts? (depthLimit - 1)

/-! ## Values -/

/-- A value that holds no others. -/
def scalar : Reader Toml := fun cs =>
  match cs with
  | '"' :: _ | '\'' :: _ => (quoted? cs).map fun (content, rest) => (.text content, rest)
  | 't' :: _ => (literal? "true".toList cs).map fun (_, rest) => (.bool true, rest)
  | 'f' :: _ => (literal? "false".toList cs).map fun (_, rest) => (.bool false, rest)
  | _ => number? cs

/-- The rest after blanks, line breaks and comments, of which `fuel` bounds the number. -/
def skipLines : Nat → List Char → List Char
  | 0, cs => cs
  | fuel + 1, cs =>
    match skipBlanks cs with
    | '#' :: rest => skipLines fuel (rest.dropWhile isInline)
    | '\n' :: rest | '\r' :: '\n' :: rest => skipLines fuel rest
    | rest => rest

/-- The items of a list with its end. A comma may follow the last item. -/
def items? (value : Reader Toml) : Nat → Reader (List Toml)
  | 0, _ => none
  | fuel + 1, cs =>
    match skipLines (fuel + 1) cs with
    | ']' :: rest => some ([], rest)
    | cs => do
      let (item, rest) ← value cs
      match skipLines (fuel + 1) rest with
      | ',' :: rest =>
        let (items, rest) ← items? value fuel rest
        return (item :: items, rest)
      | ']' :: rest => return ([item], rest)
      | _ => none

/-- A member of a table in braces, put in its place. -/
def member? (value : Reader Toml) (target : Toml) : Reader Toml := fun cs => do
  let ((path, key), rest) ← key? cs
  let ((), rest) ← literal? ['='] rest
  let (content, rest) ← value (skipBlanks rest)
  return (← assign path key content target, skipBlanks rest)

/-- The members of a table in braces with its end, one at least. No comma follows the last one. -/
def members? (value : Reader Toml) : Nat → Toml → Reader Toml
  | 0, _, _ => none
  | fuel + 1, target, cs => do
    let (filled, rest) ← member? value target cs
    match rest with
    | ',' :: rest => members? value fuel filled rest
    | '}' :: rest => return (filled, rest)
    | _ => none

/-- A value in which brackets and braces go less deep than `depth`. -/
def value? : Nat → Reader Toml
  | 0, cs => scalar cs
  | depth + 1, cs =>
    match cs with
    | '[' :: rest => do
      let (items, rest) ← items? (value? depth) (rest.length + 1) rest
      return (.list items, rest)
    | '{' :: rest =>
      match skipBlanks rest with
      | '}' :: rest => some (.table .inline [], rest)
      | _ => members? (value? depth) (rest.length + 1) (.table .inline []) rest
    | _ => scalar cs

/-! ## Documents -/

/-- The end of a line after blanks and perhaps a comment, or the end of the document. -/
def endLine? (cs : List Char) : Option (List Char) :=
  let rest := match skipBlanks cs with
    | '#' :: rest => rest.dropWhile isInline
    | rest => rest
  match rest with
  | [] => some []
  | _ => (newline? rest).map Prod.snd

/-- The lines of a document, read into a table. `header` leads to the table that they fill. -/
def lines? : Nat → List String → Toml → List Char → Option Toml
  | 0, _, _, _ => none
  | fuel + 1, header, document, cs =>
    match skipBlanks cs with
    | [] => some document
    | '#' :: rest => do lines? fuel header document (← endLine? ('#' :: rest))
    | '\n' :: rest | '\r' :: '\n' :: rest => lines? fuel header document rest
    | '[' :: '[' :: rest => do
      let ((path, key), rest) ← key? rest
      let ((), rest) ← literal? "]]".toList rest
      let document ← openItem path key document
      lines? fuel (path ++ [key]) document (← endLine? rest)
    | '[' :: rest => do
      let ((path, key), rest) ← key? rest
      let ((), rest) ← literal? [']'] rest
      let document ← openTable path key document
      lines? fuel (path ++ [key]) document (← endLine? rest)
    | cs => do
      let ((path, key), rest) ← key? cs
      let ((), rest) ← literal? ['='] rest
      let (value, rest) ← value? (depthLimit - 1) (skipBlanks rest)
      let document ← assignUnder header path key value document
      lines? fuel header document (← endLine? rest)

/-- The table of a document, which may begin with a byte order mark. -/
def parse? (document : String) : Option Toml :=
  let cs := match document.toList with
    | '\ufeff' :: rest => rest
    | cs => cs
  lines? (cs.length + 1) [] (.table .header []) cs

end Metamatch.Toml
