/-!
# Limits of a Check

How much a document may hold of what is limited.

Two things in a document can grow without bound and are not allowed to: types stand
within types, and a version may be a text with any number of digits. What the limits
are is not said by the format. How deep a check can go depends on its stack, and whether
a minus sign is taken for a digit depends on the release of the check: it is one up to
2.13, and none from 2.14 on. So both are part of what a check is told.

## Main definitions

* `Room`: How many levels are left.
* `Room.take?`: What is left inside one more level.
* `Limits`: The limits that a document is held to.
* `Limits.standard`: The limits that files are held to.
* `Limits.anyDepth`: Limits without that of the levels.
* `Limits.length`: The length of an integer in a text.
-/

namespace ClientPlan

namespace Document

/-- How many more levels there may be. There may be any number if none is said. -/
abbrev Room := Option Nat

/-- The room that is left inside a part that takes a level, if there is one for it. -/
def Room.take? : Room → Option Room
  | none => some none
  | some 0 => none
  | some (left + 1) => some (some left)

/-- The most digits that a text may have. -/
def maxTextDigits : Nat := 4300

/-- The limits that a document is held to. -/
structure Limits where
  /-- The most levels of a type. -/
  levels : Room
  /-- Whether a minus sign in front of the digits of a text counts as one of them. -/
  signCounts : Bool
  /-- There is room for the name of a service at least. -/
  levels_ne_zero : levels ≠ some 0 := by decide
  deriving DecidableEq, Repr

namespace Limits

/-- The limits that files are held to: as many levels as an ordinary stack allows for,
    and the rule of release 2.14 that a sign is no digit. -/
def standard : Limits where
  levels := some 255
  signCounts := false

/-- The same limits without that of the levels. -/
def anyDepth (limits : Limits) : Limits where
  levels := none
  signCounts := limits.signCounts

/-- The length of an integer in a text, as far as it is limited. -/
def length (limits : Limits) (negative : Bool) (digits : List Char) : Nat :=
  (negative && limits.signCounts).toNat + digits.length

end Limits

end Document

end ClientPlan
