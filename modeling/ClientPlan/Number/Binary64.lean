/-!
# Binary Floating-Point Numbers

Numbers with a fraction or an exponent, rounded to the 64-bit binary format.

A finite number is a significand below `2 ^ 53` times a power of two, and each
number has one such form: the significand has 53 bits unless the exponent is
the least one. `ofRatio` rounds a quotient of naturals to that form in exact
arithmetic, a half going to the even neighbour, and `ofDecimal` does so for a
decimal. The magnitude of a decimal is estimated first, so an exponent of any
size costs no more than a large one.

## Main definitions

* `Binary64`: The numbers of the format, with infinities and the undefined one.
* `Binary64.ofRatio`: The number nearest to a quotient.
* `Binary64.ofDecimal`: The number nearest to a decimal.
* `Binary64.toInt?`: The integer that a number is equal to, if there is one.
-/

namespace ClientPlan

/-- A 64-bit binary floating-point number. -/
inductive Binary64 where
  /-- The undefined number. -/
  | nan
  | infinity (negative : Bool)
  /-- The number `significand * 2 ^ exponent`, or its negation. -/
  | finite (negative : Bool) (significand : Nat) (exponent : Int)
  deriving DecidableEq, Repr

namespace Binary64

/-- The least exponent: numbers too small for 53 bits share it. -/
def leastExponent : Int := -1074

/-- The greatest exponent of a finite number. -/
def greatestExponent : Int := 971

/-- Zero, with its sign. -/
def zero (negative : Bool) : Binary64 := finite negative 0 leastExponent

/-- A quotient rounded to the nearest natural, a half going to the even one. -/
def roundHalfEven (num den : Nat) : Nat :=
  let q := num / den
  let twice := 2 * (num % den)
  if twice < den then q
  else if den < twice then q + 1
  else q + q % 2

/-- A quotient times a power of two, as a quotient again. -/
def scale (num den : Nat) (exponent : Int) : Nat × Nat :=
  if 0 ≤ exponent then (num * Nat.pow 2 exponent.toNat, den)
  else (num, den * Nat.pow 2 (-exponent).toNat)

/-- The number nearest to `num / den`, for a positive `den`. The exponent is
    chosen so that the scaled quotient has 53 bits before it is rounded; a
    quotient that rounds up to one bit more is halved again. -/
def ofRatio (negative : Bool) (num den : Nat) : Binary64 :=
  if num = 0 then zero negative
  else
    let estimate : Int := (num.log2 : Int) - (den.log2 : Int)
    -- The estimate is one too great at most, which the scaled quotient shows.
    let (scaledNum, scaledDen) := scale num den (-estimate)
    let top : Int := if scaledNum < scaledDen then estimate - 1 else estimate
    let exponent := max (top - 52) leastExponent
    let (n, d) := scale num den (-exponent)
    let rounded := roundHalfEven n d
    let (significand, exponent) :=
      if rounded = Nat.pow 2 53 then (Nat.pow 2 52, exponent + 1) else (rounded, exponent)
    if greatestExponent < exponent then infinity negative
    else if significand = 0 then zero negative
    else finite negative significand exponent

/-- The number nearest to `digits * 10 ^ exponent`. A decimal with more than 310
    places before the point is out of range, and one whose first digit stands
    more than 330 places behind it rounds to zero. -/
def ofDecimal (negative : Bool) (digits : Nat) (exponent : Int) : Binary64 :=
  let places : Int := (Nat.toDigits 10 digits).length + exponent
  if digits = 0 then zero negative
  else if 310 < places then infinity negative
  else if places < -330 then zero negative
  else if 0 ≤ exponent then ofRatio negative (digits * Nat.pow 10 exponent.toNat) 1
  else ofRatio negative digits (Nat.pow 10 (-exponent).toNat)

/-- Whether a number is neither infinite nor undefined. -/
def isFinite : Binary64 → Bool
  | finite _ _ _ => true
  | _ => false

/-- The magnitude of a finite number as a quotient. -/
def ratio (significand : Nat) (exponent : Int) : Nat × Nat :=
  scale significand 1 exponent

/-- The integer that a number is equal to, if there is one. -/
def toInt? : Binary64 → Option Int
  | finite negative significand exponent =>
    let (num, den) := ratio significand exponent
    if num % den = 0 then
      some (if negative then -((num / den : Nat) : Int) else ((num / den : Nat) : Int))
    else none
  | _ => none

end Binary64

end ClientPlan
