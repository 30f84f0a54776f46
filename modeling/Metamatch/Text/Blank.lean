/-!
# Blank characters and words

* `Text.isBlank`: the Unicode property `White_Space`.
* `Text.words`: the maximal runs of characters that are not blank.
-/

namespace Metamatch.Text

/-- The property `White_Space` as inclusive ranges of code points. -/
def blankRanges : List (Nat × Nat) :=
  [(0x0009, 0x000D), (0x0020, 0x0020), (0x0085, 0x0085), (0x00A0, 0x00A0), (0x1680, 0x1680),
   (0x2000, 0x200A), (0x2028, 0x2029), (0x202F, 0x202F), (0x205F, 0x205F), (0x3000, 0x3000)]

/-- A character of the property `White_Space`. -/
def isBlank (c : Char) : Bool :=
  blankRanges.any fun range => range.1 ≤ c.toNat && c.toNat ≤ range.2

/-- Words of a text whose current word, read so far, is `current` backwards. -/
def wordsFrom (current : List Char) : List Char → List String
  | [] => if current.isEmpty then [] else [String.ofList current.reverse]
  | c :: rest =>
    if isBlank c then
      if current.isEmpty then wordsFrom [] rest
      else String.ofList current.reverse :: wordsFrom [] rest
    else wordsFrom (c :: current) rest

/-- The maximal runs of characters that are not blank, from left to right. -/
def words (text : String) : List String := wordsFrom [] text.toList

end Metamatch.Text
