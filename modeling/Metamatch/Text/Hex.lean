/-!
# Hexadecimal digits

* `Text.hexValue?`: the value of a digit of either case.
* `Text.hexDigit`: the digit of a value, in lower case.
-/

namespace Metamatch.Text

/-- The value of a hexadecimal digit of either case. -/
def hexValue? (c : Char) : Option Nat :=
  if '0' ≤ c ∧ c ≤ '9' then some (c.toNat - '0'.toNat)
  else if 'a' ≤ c ∧ c ≤ 'f' then some (c.toNat - 'a'.toNat + 10)
  else if 'A' ≤ c ∧ c ≤ 'F' then some (c.toNat - 'A'.toNat + 10)
  else none

/-- The hexadecimal digit of a value below 16, in lower case. -/
def hexDigit (value : Nat) : Char := Nat.digitChar value

theorem hexValue?_hexDigit {value : Nat} (h : value < 16) :
    hexValue? (hexDigit value) = some value := by
  have all : ∀ v < 16, hexValue? (hexDigit v) = some v := by decide
  exact all value h

end Metamatch.Text
