/-!
# Decimal Digits

The number that a run of decimal digits stands for.

## Main definitions

* `Digits.value`: The number that decimal digits stand for.
* `Digits.span`: The digits at the beginning of a text, and what follows them.
* `Digits.whole?`: The whole number at the beginning of a text, and what follows
  it.

## Theorems

* `Digits.append_span`: Nothing is lost between the two.
* `Digits.length_span_le`: What follows is no longer than the text.
* `Digits.length_lt_of_whole?`: What follows a whole number is shorter.
-/

namespace ClientPlan

namespace Digits

/-- The number that decimal digits stand for. -/
def value (digits : List Char) : Nat :=
  digits.foldl (fun (n : Nat) c => n * 10 + (c.toNat - 48)) 0

/-- The digits at the beginning of a text, and what follows them. -/
def span (text : List Char) : List Char × List Char :=
  (text.takeWhile Char.isDigit, text.dropWhile Char.isDigit)

/-- The digits of the whole number at the beginning of a text, and what follows
    them: a zero on its own, or digits that start with another one. -/
def whole? : List Char → Option (List Char × List Char)
  | [] => none
  | c :: rest =>
    if c = '0' then some (['0'], rest)
    else if c.isDigit then some (span (c :: rest))
    else none

theorem append_span (text : List Char) : (span text).1 ++ (span text).2 = text :=
  List.takeWhile_append_dropWhile

theorem length_span_le (text : List Char) : (span text).2.length ≤ text.length :=
  (List.dropWhile_sublist Char.isDigit).length_le

theorem length_lt_of_whole? {text digits rest : List Char}
    (h : whole? text = some (digits, rest)) : rest.length < text.length := by
  cases text with
  | nil => cases h
  | cons c text =>
      simp only [whole?] at h
      split at h
      · cases h
        simp only [List.length_cons, Nat.lt_add_one]
      · split at h
        · rename_i hd
          simp only [span, Option.some.injEq, Prod.mk.injEq, List.dropWhile_cons, hd,
            if_true] at h
          rw [← h.2]
          have := length_span_le text
          simp only [span] at this
          simp only [List.length_cons]
          omega
        · cases h

end Digits

end ClientPlan
