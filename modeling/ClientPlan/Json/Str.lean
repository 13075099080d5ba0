import ClientPlan.Text.Surrogate

/-!
# JSON Strings

The strings of a JSON text, which need not be text.

The escapes of a JSON string stand for UTF-16 units, so a surrogate may stand in
it without the other one of its pair. Almost all strings hold none, and are text
like any other; the rest is kept as the numbers it was written with.

## Main definitions

* `Json.Str`: A text, or a string that is none.
* `Json.Str.ofUnits`: The string of code points and UTF-16 units.
* `Json.Str.shown`: The text that is shown in place of a string.
-/

namespace ClientPlan

namespace Json

/-- A JSON string. -/
inductive Str where
  | text (value : String)
  /-- Numbers of characters, and of surrogates that stand alone. -/
  | broken (codes : List Nat)
  deriving DecidableEq, Repr, Inhabited

namespace Str

instance : Coe String Str := ⟨text⟩

/-- The string of some numbers of characters and surrogates. -/
def ofCodes (codes : List Nat) : Str :=
  if codes.any Surrogate.isSurrogate then broken codes
  else text (String.ofList (codes.map Char.ofNat))

/-- The string of code points and UTF-16 units. -/
def ofUnits (units : List Nat) : Str :=
  ofCodes (Surrogate.joinPairs units)

/-- The characters that are shown in place of a number. A surrogate takes three
    bytes, and each of them is shown as one that cannot be read. -/
def shownCode (n : Nat) : List Char :=
  if Surrogate.isSurrogate n then List.replicate 3 '\uFFFD' else [Char.ofNat n]

/-- The text that is shown in place of a string: the string itself, if it is
    text. -/
def shown : Str → String
  | text value => value
  | broken codes => String.ofList (codes.flatMap shownCode)

end Str

end Json

end ClientPlan
