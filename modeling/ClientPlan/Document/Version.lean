import ClientPlan.Document.Checked
import ClientPlan.Number.Digits
import ClientPlan.Text.Blank

/-!
# Document Versions

The version of a document: an integer that may be written in several ways.

Besides an integer of any size, a truth value counts as one or zero, a number
with a fraction or an exponent counts if it is whole and within 64 bits, and so
does a text that spells an integer. The plain spelling is that of JSON. Any other
spelling is loosened first: blanks around it, a plus sign, leading zeros, single
underscores between the digits and a fraction of nothing but zeros are dropped. A
sign may thus stand behind leading zeros.

## Main definitions

* `plainInteger`: The integer that a text spells as JSON does.
* `loosened`: A text without what is allowed around an integer.
* `integerOfText`: The integer that a text spells.
* `checkVersion`: The check of a version.
-/

namespace ClientPlan

namespace Document

/-- The integer of a sign and what follows it, or what is wrong with it. Too many
    digits are too many whatever follows them. -/
def signedInteger (limits : Limits) (negative : Bool) (magnitude : List Char) :
    Except Violation Int :=
  match Digits.whole? magnitude with
  | none => .error .unreadableInteger
  | some (digits, rest) =>
    if maxTextDigits < limits.length negative digits then .error .oversizedInteger
    else if rest ≠ [] then .error .unreadableInteger
    else .ok (if negative then -(Digits.value digits : Int) else Digits.value digits)

/-- The integer that a text spells as JSON does, or what is wrong with it. -/
def plainInteger (limits : Limits) : List Char → Except Violation Int
  | '-' :: magnitude => signedInteger limits true magnitude
  | magnitude => signedInteger limits false magnitude

/-- What follows a leading zero once all others, and the underscores among them,
    are dropped. `last` is the character that has been dropped last; it is kept
    if no digit follows. -/
def afterZeros (last : Char) : List Char → Option (List Char)
  | [] => some [last]
  | c :: rest =>
    -- Two underscores in a row are allowed here, though not among the digits.
    if c = '0' ∨ c = '_' then afterZeros c rest
    else if c = '-' ∨ c.isDigit then some (c :: rest)
    else if c = '.' then some (last :: c :: rest)
    else none

/-- A text that starts with a digit, without its leading zeros. -/
def withoutLeadingZeros : List Char → Option (List Char)
  | [] => none
  | c :: rest =>
    if c = '0' then afterZeros c rest
    else if c.isDigit then some (c :: rest)
    else none

/-- The text before a fraction of nothing but zeros, if it ends in one. -/
def withoutZeroFraction (text : List Char) : List Char :=
  let whole := text.takeWhile (· != '.')
  match text.dropWhile (· != '.') with
  | '.' :: '0' :: zeros => if zeros.all (· == '0') then whole else text
  | _ => text

/-- Whether two underscores follow each other in a text. -/
def hasDoubleUnderscore : List Char → Bool
  | '_' :: '_' :: _ => true
  | [] => false
  | _ :: rest => hasDoubleUnderscore rest

/-- A text without its underscores, if each of them stands alone between two
    other characters. -/
def withoutUnderscores (text : List Char) : List Char :=
  if text.head? = some '_' ∨ text.getLast? = some '_' ∨ hasDoubleUnderscore text then text
  else text.filter (· != '_')

/-- A text that starts with a digit, without what is allowed around the plain
    spelling. -/
def loosenedMagnitude (text : List Char) : Option (List Char) :=
  (withoutLeadingZeros text).map fun rest => withoutUnderscores (withoutZeroFraction rest)

/-- A text without what is allowed around the plain spelling of an integer. -/
def loosened (text : List Char) : Option (List Char) :=
  match Text.trimBlank text with
  | '-' :: magnitude => (loosenedMagnitude magnitude).map ('-' :: ·)
  | '+' :: magnitude => loosenedMagnitude magnitude
  | magnitude => loosenedMagnitude magnitude

/-- The integer that a text spells, or what is wrong with the text. Only the
    plain spelling can have too many digits. -/
def integerOfText (limits : Limits) (text : List Char) : Except Violation Int :=
  match plainInteger limits text with
  | .error .unreadableInteger =>
    -- What is wrong with the loosened text is not told, only that the text is no integer.
    match (loosened text).map (plainInteger limits) with
    | some (.ok n) => .ok n
    | _ => .error .unreadableInteger
  | result => result

/-- The integer that a number is equal to, or what is wrong with the number. -/
def integerOfFloat (x : Binary64) : Except Violation Int :=
  if x.isFinite then
    match x.toInt? with
    | none => .error .hasFraction
    | some n => if n.natAbs < Nat.pow 2 63 then .ok n else .error .oversizedInteger
  else .error .notFinite

/-- The integer that a value counts as, or what is wrong with the value. -/
def integerOf (limits : Limits) : Json → Except Violation Int
  | .int n => .ok n
  | .bool true => .ok 1
  | .bool false => .ok 0
  | .float x => integerOfFloat x
  | .str (.text value) => integerOfText limits value.toList
  | .str (.broken _) => .error .noText
  | _ => .error .noInteger

/-- The check of a version. -/
def checkVersion (limits : Limits) (value : Json) : Checked Int :=
  match integerOf limits value with
  | .ok n => .ok n
  | .error violation => .refuse violation

end Document

end ClientPlan
