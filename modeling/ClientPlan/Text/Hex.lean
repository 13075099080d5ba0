/-!
# Hexadecimal Digits

Fixed-width hexadecimal numbers, as escapes in quoted text and in JSON strings
use them.

## Main definitions

* `hexDigit`: The digit of a value below sixteen.
* `hexDigits`: The last digits of a number, leading zeros included.
* `hexValue?`: The value of a digit in either case.
-/

namespace ClientPlan

namespace Text

/-- The lower-case digit of a value below sixteen. -/
def hexDigit (n : Nat) : Char :=
  if n < 10 then Char.ofNat (48 + n) else Char.ofNat (87 + n)

/-- The last `width` hexadecimal digits of a number, leading zeros included. -/
def hexDigits : Nat → Nat → List Char
  | 0, _ => []
  | width + 1, n => hexDigits width (n / 16) ++ [hexDigit (n % 16)]

/-- The value of a hexadecimal digit in either case, or `none` for any other
    character. -/
def hexValue? (c : Char) : Option Nat :=
  if 48 ≤ c.toNat ∧ c.toNat ≤ 57 then some (c.toNat - 48)
  else if 97 ≤ c.toNat ∧ c.toNat ≤ 102 then some (c.toNat - 87)
  else if 65 ≤ c.toNat ∧ c.toNat ≤ 70 then some (c.toNat - 55)
  else none

end Text

end ClientPlan
