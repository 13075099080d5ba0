import ClientPlan.Number.Binary64

/-!
# Shortest Decimals

The decimal text of a floating-point number: the fewest digits that read back
as the same number, and of those the nearest to it.

For one digit, two digits and so on, the two decimals of that many digits on
either side of the number are tried. Seventeen digits are always enough. The
point stands among the digits as long as the number lies between a
ten-thousandth and ten to the sixteenth; beyond that the text has an exponent
of at least two digits. A number that is an integer keeps a zero behind the
point, so it is not taken for one.

## Main definitions

* `Binary64.shortest`: The digits of a number and the place of its point.
* `Binary64.text`: The decimal text of a number.
-/

namespace ClientPlan

namespace Binary64

/-- The place of the decimal point before the first digit of `num / den`: the
    least power of ten that exceeds the quotient. -/
def pointPlace (num den : Nat) : Int :=
  if den ≤ num then (Nat.toDigits 10 (num / den)).length
  else
    match (List.range 340).find? fun j => den ≤ num * Nat.pow 10 (j + 1) with
    | some j => -(j : Int)
    | none => -340

/-- The decimals `c * 10 ^ place` next to a quotient that read back as the given
    number, the nearest first. Of two that are equally near, the even one comes
    first. -/
def candidates (number : Binary64) (num den : Nat) (place : Int) : List Nat :=
  let (n, d) :=
    if 0 ≤ place then (num, den * Nat.pow 10 place.toNat)
    else (num * Nat.pow 10 (-place).toNat, den)
  let below := n / d
  let twice := 2 * (n % d)
  let ordered :=
    if twice < d ∨ twice = d ∧ below % 2 = 0 then [below, below + 1] else [below + 1, below]
  ordered.filter fun c => ofDecimal false c place = number

/-- The shortest decimal among those of `count` digits and more, tried for at
    most `fuel` counts. -/
def shortestFrom (number : Binary64) (num den : Nat) (point : Int) : Nat → Nat → Nat × Int
  | 0, _ => (0, 0)
  | fuel + 1, count =>
    let place := point - count
    match candidates number num den place with
    | c :: _ => (c, place)
    | [] => shortestFrom number num den point fuel (count + 1)

/-- The digits of a positive finite number without trailing zeros, and the place
    of the decimal point counted from before the first digit. -/
def shortest (significand : Nat) (exponent : Int) : List Char × Int :=
  let (num, den) := ratio significand exponent
  let (c, place) :=
    shortestFrom (finite false significand exponent) num den (pointPlace num den) 17 1
  let digits := Nat.toDigits 10 c
  ((digits.reverse.dropWhile (· == '0')).reverse, digits.length + place)

/-- The exponent of a number in scientific form, with its sign and at least two
    digits. -/
def exponentText (e : Int) : List Char :=
  let digits := Nat.toDigits 10 e.natAbs
  (if e < 0 then '-' else '+') :: (List.replicate (2 - digits.length) '0' ++ digits)

/-- Digits with the decimal point at the given place. -/
def layout (digits : List Char) (point : Int) : List Char :=
  if -4 < point ∧ point ≤ 16 then
    if point ≤ 0 then '0' :: '.' :: (List.replicate (-point).toNat '0' ++ digits)
    else
      let whole := digits.take point.toNat
      let rest := digits.drop point.toNat
      whole ++ List.replicate (point.toNat - digits.length) '0' ++
        '.' :: (if rest.isEmpty then ['0'] else rest)
  else
    digits.take 1 ++ (if digits.length ≤ 1 then [] else '.' :: digits.drop 1) ++
      'e' :: exponentText (point - 1)

/-- The decimal text of a number. -/
def text : Binary64 → String
  | nan => "nan"
  | infinity negative => if negative then "-inf" else "inf"
  | finite negative significand exponent =>
    let body :=
      if significand = 0 then ['0', '.', '0']
      else
        let (digits, point) := shortest significand exponent
        layout digits point
    String.ofList (if negative then '-' :: body else body)

end Binary64

end ClientPlan
