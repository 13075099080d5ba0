/-!
# Blank Characters

The characters that are trimmed around a number written as text: those with the
Unicode property `White_Space`, twenty-five in all.

## Main definitions

* `isBlank`: Whether a character is white space.
* `trimBlank`: A text without the blanks at its two ends.
-/

namespace ClientPlan

namespace Text

/-- Whether a character is white space: the controls from tab to carriage
    return, the space, the next-line control, and the spaces and separators
    beyond ASCII. -/
def isBlank (c : Char) : Bool :=
  let n := c.toNat
  (9 ≤ n && n ≤ 13) || n == 0x20 || n == 0x85 || n == 0xA0 || n == 0x1680 ||
    (0x2000 ≤ n && n ≤ 0x200A) || n == 0x2028 || n == 0x2029 || n == 0x202F || n == 0x205F ||
    n == 0x3000

/-- A text without the blanks at its two ends. -/
def trimBlank (text : List Char) : List Char :=
  (((text.dropWhile isBlank).reverse).dropWhile isBlank).reverse

end Text

end ClientPlan
