import ClientPlan.Json.Printer
import ClientPlan.Json.Reader

/-!
# Reading Back Strings

A string that was written is read as itself.

The reader does not see characters but numbers, one for each character that stands
for itself or behind a backslash, and one for each escape of four digits. A character
beyond the basic plane is written as two such escapes, so what is read for it are two
surrogates, and only at the end of the string they become one character again. That
nothing else becomes a pair is due to the characters themselves: none of them has the
number of a surrogate.

## Main definitions

* `unitsOf`: The numbers that are read for a character.

## Theorems

* `hexUnit?_hexDigits`: Four hexadecimal digits are read back.
* `scanString_escapeChar`: A character is read as its numbers.
* `scanString_quote`: A string is read as the numbers of its characters.
* `joinPairs_unitsOf`: The pairs among these numbers are the characters that were split.
* `ofUnits_unitsOf`: The numbers stand for the string.
-/

namespace ClientPlan

namespace Json

/-- The numbers that are read for a character: its own, or those of its surrogates. -/
def unitsOf (c : Char) : List Nat :=
  if c.toNat < 0x10000 then [c.toNat] else [Surrogate.high c.toNat, Surrogate.low c.toNat]

theorem hexValue?_hexDigit : ∀ n < 16, Text.hexValue? (Text.hexDigit n) = some n := by
  decide

/-- The digits of a number of sixteen bits are read as that number. -/
theorem hexUnit?_hexDigits (n : Nat) (h : n < 0x10000) :
    ∃ a b c d, Text.hexDigits 4 n = [a, b, c, d] ∧ hexUnit? a b c d = some n := by
  refine ⟨_, _, _, _, rfl, ?_⟩
  have hdigit (m : Nat) : Text.hexValue? (Text.hexDigit (m % 16)) = some (m % 16) :=
    hexValue?_hexDigit (m % 16) (Nat.mod_lt m (by omega))
  simp only [hexUnit?, hdigit, Option.some.injEq]
  omega

/-- An escape of four digits is read as its number, if the text goes on behind it. -/
theorem scanString_escapeUnit (start text after : List Char) (units : List Nat) (n : Nat)
    (hn : n < 0x10000) (h : scanString start text = .ok (units, after)) :
    scanString start (escapeUnit n ++ text) = .ok (n :: units, after) := by
  -- An escape is only read if a character follows it, and at least a quote does.
  cases text with
  | nil => cases h
  | cons e text =>
      rcases hexUnit?_hexDigits n hn with ⟨a, b, c, d, hdigits, hunit⟩
      rw [escapeUnit, hdigits]
      simp only [List.cons_append, List.nil_append]
      rw [scanString, hunit, h]
      rfl

/-- A letter behind a backslash is read as the character it stands for. -/
theorem scanString_letter (start text after : List Char) (units : List Nat) (letter c : Char)
    (hletter : letter ≠ 'u') (hc : escaped? letter = some c)
    (h : scanString start text = .ok (units, after)) :
    scanString start ('\\' :: letter :: text) = .ok (c.toNat :: units, after) := by
  rw [scanString, hc, h]
  · rfl
  · exact fun _ _ _ _ _ _ hu => absurd hu hletter
  · exact hletter

/-- A character that is written as it is is read as its number. -/
theorem scanString_plain (start text after : List Char) (units : List Nat) (c : Char)
    (hquote : c ≠ '"') (hbackslash : c ≠ '\\') (hcontrol : 32 ≤ c.toNat)
    (h : scanString start text = .ok (units, after)) :
    scanString start (c :: text) = .ok (c.toNat :: units, after) := by
  -- It is neither a quote nor a backslash, so the last case of the scan is left.
  rw [scanString, if_neg (Nat.not_lt.2 hcontrol), h]
  · rfl
  · exact hquote
  · exact fun _ _ _ _ _ _ hc => absurd hc hbackslash
  · exact fun _ hc => absurd hc hbackslash
  · exact fun hc => absurd hc hbackslash
  · exact fun _ _ hc => absurd hc hbackslash

theorem toNat_lt (c : Char) : c.toNat < 0x110000 := by
  rcases c.valid with h | h
  · exact Nat.lt_trans h (by omega)
  · exact h.2

/-- No character has the number of a surrogate. -/
theorem not_isSurrogate (c : Char) : Surrogate.isSurrogate c.toNat = false := by
  have hvalid : c.toNat < 0xD800 ∨ 0xDFFF < c.toNat ∧ c.toNat < 0x110000 := c.valid
  simp only [Surrogate.isSurrogate, Surrogate.isHigh, Surrogate.isLow, Bool.or_eq_false_iff,
    Bool.and_eq_false_iff, decide_eq_false_iff_not]
  omega

theorem high_lt (c : Char) : Surrogate.high c.toNat < 0x10000 := by
  have := toNat_lt c
  unfold Surrogate.high
  omega

theorem low_lt (c : Char) : Surrogate.low c.toNat < 0x10000 := by
  unfold Surrogate.low
  omega

theorem unitsOf_of_basic (c : Char) (h : c.toNat < 0x10000) : unitsOf c = [c.toNat] :=
  if_pos h

theorem unitsOf_of_not_basic (c : Char) (h : ¬ c.toNat < 0x10000) :
    unitsOf c = [Surrogate.high c.toNat, Surrogate.low c.toNat] :=
  if_neg h

/-- A character is read as its numbers, however it was written. -/
theorem scanString_escapeChar (start text after : List Char) (units : List Nat) (c : Char)
    (h : scanString start text = .ok (units, after)) :
    scanString start (escapeChar c ++ text) = .ok (unitsOf c ++ units, after) := by
  -- Behind a backslash stands a letter for a character of the basic plane.
  have hletter (letter : Char) (hu : letter ≠ 'u') (hc : escaped? letter = some c)
      (hbasic : c.toNat < 0x10000) :
      scanString start (['\\', letter] ++ text) = .ok (unitsOf c ++ units, after) := by
    rw [unitsOf_of_basic c hbasic]
    exact scanString_letter start text after units letter c hu hc h
  unfold escapeChar
  split
  · subst c; exact hletter '"' (by decide) rfl (by decide)
  split
  · subst c; exact hletter '\\' (by decide) rfl (by decide)
  split
  · subst c; exact hletter 'n' (by decide) rfl (by decide)
  split
  · subst c; exact hletter 'r' (by decide) rfl (by decide)
  split
  · subst c; exact hletter 't' (by decide) rfl (by decide)
  split
  · rename_i h8
    have hc : c = '\x08' := Char.toNat_inj.1 h8
    subst c; exact hletter 'b' (by decide) rfl (by decide)
  split
  · rename_i h12
    have hc : c = '\x0c' := Char.toNat_inj.1 h12
    subst c; exact hletter 'f' (by decide) rfl (by decide)
  split
  · -- What is left is printable, and written as it is.
    rename_i hquote hbackslash _ _ _ _ _ hprintable
    rw [unitsOf_of_basic c (by omega)]
    exact scanString_plain start text after units c hquote hbackslash hprintable.1 h
  split
  · rename_i hbasic
    rw [unitsOf_of_basic c hbasic]
    exact scanString_escapeUnit start text after units c.toNat hbasic h
  · rename_i hbasic
    -- Two escapes in a row, one for each half of the pair.
    rw [unitsOf_of_not_basic c hbasic, List.append_assoc]
    refine scanString_escapeUnit start _ after _ _ (high_lt c) ?_
    exact scanString_escapeUnit start text after units _ (low_lt c) h

/-- A text is read as the numbers of its characters, up to the quote behind it. -/
theorem scanString_escape (start rest text : List Char) :
    scanString start (text.flatMap escapeChar ++ '"' :: rest) =
      .ok (text.flatMap unitsOf, rest) := by
  induction text with
  | nil => rw [List.flatMap_nil, List.nil_append, scanString, List.flatMap_nil]
  | cons c text ih =>
      rw [List.flatMap_cons, List.flatMap_cons, List.append_assoc]
      exact scanString_escapeChar start _ rest _ c ih

/-- The pairs of surrogates among the numbers of some characters are those that were
    split. -/
theorem joinPairs_unitsOf (text : List Char) :
    Surrogate.joinPairs (text.flatMap unitsOf) = text.map Char.toNat := by
  induction text with
  | nil => rfl
  | cons c text ih =>
      rw [List.flatMap_cons, List.map_cons, ← ih]
      by_cases hbasic : c.toNat < 0x10000
      · rw [unitsOf_of_basic c hbasic]
        -- A character is not the first half of a pair with what follows.
        have hhigh : Surrogate.isHigh c.toNat = false :=
          (Bool.or_eq_false_iff.1 (not_isSurrogate c)).1
        cases text.flatMap unitsOf with
        | nil => rfl
        | cons n units =>
            simp only [List.singleton_append, Surrogate.joinPairs, hhigh, Bool.false_and,
              Bool.false_eq_true, if_false]
      · -- The two halves are put together again.
        rw [unitsOf_of_not_basic c hbasic]
        simp only [List.cons_append, List.nil_append, Surrogate.joinPairs,
          Surrogate.isHigh_high (toNat_lt c), Surrogate.isLow_low, Bool.and_self, if_true,
          Surrogate.combine_high_low (Nat.not_lt.1 hbasic)]

theorem ofUnits_unitsOf (text : List Char) :
    Str.ofUnits (text.flatMap unitsOf) = .text (String.ofList text) := by
  rw [Str.ofUnits, joinPairs_unitsOf, Str.ofCodes]
  -- No surrogate is left, so the string is not broken.
  have hnone : (text.map Char.toNat).any Surrogate.isSurrogate = false := by
    simp only [List.any_map, List.any_eq_false, Function.comp_apply, not_isSurrogate,
      Bool.false_eq_true, not_false_eq_true, implies_true]
  have hchars : (text.map Char.toNat).map Char.ofNat = text := by
    rw [List.map_map]
    exact (List.map_congr_left fun c _ => Char.ofNat_toNat c).trans (List.map_id text)
  rw [hnone, hchars]
  rfl

/-- A string that was written is read back, up to the quote that closes it. -/
theorem scanString_quote (s : String) (rest : List Char) :
    ∃ units, (∀ start, scanString start (escape (.text s) ++ '"' :: rest) = .ok (units, rest)) ∧
      Str.ofUnits units = .text s := by
  refine ⟨s.toList.flatMap unitsOf, fun start => ?_, ?_⟩
  · exact scanString_escape start rest s.toList
  · rw [ofUnits_unitsOf, String.ofList_toList]

end Json

end ClientPlan
