/-!
# Surrogates

The numbers that UTF-16 writes a character beyond the basic plane with: a high
surrogate and a low one. No character has such a number itself.

## Main definitions

* `Surrogate.isSurrogate`: Whether a number is that of a surrogate.
* `Surrogate.high`, `Surrogate.low`: The two surrogates of a character.
* `Surrogate.combine`: The character of two surrogates.
* `Surrogate.joinPairs`: Numbers with one for each pair of surrogates.

## Theorems

* `Surrogate.combine_high_low`: The surrogates of a character stand for it.
* `Surrogate.isHigh_high`, `Surrogate.isLow_low`: They are a high one and a low
  one.
-/

namespace ClientPlan

namespace Surrogate

/-- Whether a number is that of a high surrogate, the first one of a pair. -/
def isHigh (n : Nat) : Bool :=
  0xD800 ≤ n && n < 0xDC00

/-- Whether a number is that of a low surrogate, the second one of a pair. -/
def isLow (n : Nat) : Bool :=
  0xDC00 ≤ n && n < 0xE000

/-- Whether a number is that of a surrogate. -/
def isSurrogate (n : Nat) : Bool :=
  isHigh n || isLow n

/-- The high surrogate of a character beyond the basic plane. -/
def high (n : Nat) : Nat :=
  0xD800 + (n - 0x10000) / 0x400

/-- The low surrogate of a character beyond the basic plane. -/
def low (n : Nat) : Nat :=
  0xDC00 + (n - 0x10000) % 0x400

/-- The character that a pair of surrogates stands for. -/
def combine (high low : Nat) : Nat :=
  0x10000 + (high - 0xD800) * 0x400 + (low - 0xDC00)

/-- Numbers of characters in which a high surrogate and a low one behind it are
    one character. -/
def joinPairs : List Nat → List Nat
  | [] => []
  | [n] => [n]
  | m :: n :: units =>
    if isHigh m && isLow n then combine m n :: joinPairs units
    else m :: joinPairs (n :: units)

theorem combine_high_low {n : Nat} (h : 0x10000 ≤ n) : combine (high n) (low n) = n := by
  unfold combine high low
  omega

theorem isHigh_high {n : Nat} (h : n < 0x110000) : isHigh (high n) = true := by
  unfold isHigh high
  rw [Bool.and_eq_true, decide_eq_true_eq, decide_eq_true_eq]
  omega

theorem isLow_low (n : Nat) : isLow (low n) = true := by
  unfold isLow low
  rw [Bool.and_eq_true, decide_eq_true_eq, decide_eq_true_eq]
  omega

end Surrogate

end ClientPlan
