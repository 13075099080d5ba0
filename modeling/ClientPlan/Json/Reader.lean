import ClientPlan.Json.Basic
import ClientPlan.Number.Digits
import ClientPlan.Text.Hex

/-!
# Reading JSON

A reader of JSON texts that says where and why a text is refused.

The text is read from left to right, and the first place that allows no
continuation is reported: while reading, a report carries the number of
characters that were left, which the outermost function turns into an offset.
Every step consumes at least one character, and its result carries that fact,
so the recursion ends with the text and needs no bound.

Besides the standard grammar the names `NaN`, `Infinity` and `-Infinity` are
numbers, characters from `U+007F` on may stand in a string as they are, and the
last of several entries of one name counts. A number is the longest beginning
of the text that is one. A surrogate may be escaped on its own, though no
character stands for it. An integer may have at most 4300 digits; a longer one is
refused as such, whatever follows it.

## Main definitions

* `Json.Expectation`: What a text lacks at the place where it is refused.
* `Json.Fault`: Why a text is refused.
* `Json.Fault.message`: The wording, with line and column.
* `Json.read`: The value of a text.

## Theorems

* `Json.length_skipBlank_le`: Skipping blanks adds nothing.
* `Json.length_lt_of_scanString`, `Json.length_lt_of_scanNumber`: A string and
  a number consume some of the text.
-/

namespace ClientPlan

namespace Json

/-- What a text lacks, or has too much, at the place where it is refused. -/
inductive Expectation where
  | value
  /-- The name of an entry, in double quotes. -/
  | name
  | colon
  | comma
  /-- The quote that closes the string opened here. -/
  | closingQuote
  /-- An escape in place of a raw control character. -/
  | escapedControl
  /-- One of the letters that may follow a backslash. -/
  | escapeLetter
  /-- Four hexadecimal digits, and a character behind them. -/
  | fourDigits
  /-- The end of the text. -/
  | ending
  /-- No byte order mark in front of the text. -/
  | noMark
  deriving DecidableEq, Repr

/-- Why a text is refused. -/
inductive Fault where
  /-- The text breaks the grammar at an offset. -/
  | malformed (expected : Expectation) (offset : Nat)
  /-- An integer of this many digits stands in the text. -/
  | tooManyDigits (count : Nat)
  deriving DecidableEq, Repr

/-- The most digits that an integer may have. -/
def maxDigits : Nat := 4300

/-- A fault found while reading, with the number of characters that were left
    in place of an offset. -/
inductive Trouble where
  | malformed (expected : Expectation) (left : Nat)
  | tooManyDigits (count : Nat)

/-- A fault at the place where the given text is left. -/
def failAt {α : Type} (expected : Expectation) (rest : List Char) : Except Trouble α :=
  .error (.malformed expected rest.length)

/-- Whether a character may stand between the parts of a JSON text. -/
def isBlank (c : Char) : Bool :=
  c == ' ' || c == '\t' || c == '\n' || c == '\r'

/-- The text after the blanks at its beginning. -/
def skipBlank (text : List Char) : List Char :=
  text.dropWhile isBlank

theorem length_skipBlank_le (text : List Char) : (skipBlank text).length ≤ text.length :=
  (List.dropWhile_sublist isBlank).length_le

/-- The number that four hexadecimal digits stand for. -/
def hexUnit? (a b c d : Char) : Option Nat :=
  match Text.hexValue? a, Text.hexValue? b, Text.hexValue? c, Text.hexValue? d with
  | some a, some b, some c, some d => some (((a * 16 + b) * 16 + c) * 16 + d)
  | _, _, _, _ => none

/-- The character that a letter after a backslash stands for. -/
def escaped? (c : Char) : Option Char :=
  if c = '"' ∨ c = '\\' ∨ c = '/' then some c
  else if c = 'b' then some '\x08'
  else if c = 'f' then some '\x0c'
  else if c = 'n' then some '\n'
  else if c = 'r' then some '\r'
  else if c = 't' then some '\t'
  else none

/-- Read a string from behind its opening quote, as code points and escaped
    UTF-16 units, and return the text behind its closing quote. `start` is the
    text from the opening quote on. -/
def scanString (start : List Char) : List Char → Except Trouble (List Nat × List Char)
  | [] => failAt .closingQuote start
  | '"' :: rest => .ok ([], rest)
  | '\\' :: 'u' :: a :: b :: c :: d :: e :: rest =>
    -- A character has to follow the digits, since a text that ends with them is refused
    -- for the escape and not for the missing quote.
    match hexUnit? a b c d with
    | some n => do
      let (units, after) ← scanString start (e :: rest)
      .ok (n :: units, after)
    | none => failAt .fourDigits ('u' :: a :: b :: c :: d :: e :: rest)
  | '\\' :: 'u' :: rest => failAt .fourDigits ('u' :: rest)
  | ['\\'] => failAt .closingQuote start
  | '\\' :: c :: rest =>
    match escaped? c with
    | some x => do
      let (units, after) ← scanString start rest
      .ok (x.toNat :: units, after)
    | none => failAt .escapeLetter ('\\' :: c :: rest)
  | c :: rest =>
    if c.toNat < 0x20 then failAt .escapedControl (c :: rest)
    else do
      let (units, after) ← scanString start rest
      .ok (c.toNat :: units, after)

/-- The digits behind the point of a number. A point without a digit behind it
    does not belong to the number. -/
def scanFraction : List Char → List Char × List Char
  | '.' :: rest =>
    match Digits.span rest with
    | ([], _) => ([], '.' :: rest)
    | (digits, after) => (digits, after)
  | text => ([], text)

/-- The sign of an exponent, and what follows it. -/
def scanSign : List Char → Bool × List Char
  | '-' :: rest => (true, rest)
  | '+' :: rest => (false, rest)
  | text => (false, text)

/-- The exponent of a number. An `e` without a digit behind it does not belong
    to the number. -/
def scanExponent : List Char → Option Int × List Char
  | [] => (none, [])
  | c :: rest =>
    if c = 'e' ∨ c = 'E' then
      let (negative, digits) := scanSign rest
      match Digits.span digits with
      | ([], _) => (none, c :: rest)
      | (digits, after) =>
        (some (if negative then -(Digits.value digits : Int) else Digits.value digits), after)
    else (none, c :: rest)

/-- Read a number behind its sign. -/
def scanMagnitude (negative : Bool) (start text : List Char) :
    Except Trouble (Json × List Char) :=
  match Digits.whole? text with
  | none => failAt .value start
  | some (whole, rest) =>
    match scanFraction rest with
    | (fraction, rest) =>
      match scanExponent rest with
      | (exponent, rest) =>
        if fraction.isEmpty ∧ exponent.isNone then
          -- Only an integer is limited, for a fraction or an exponent makes a float of it.
          if maxDigits < whole.length then .error (.tooManyDigits whole.length)
          else
            .ok (.int (if negative then -(Digits.value whole : Int) else Digits.value whole), rest)
        else
          .ok (.float (Binary64.ofDecimal negative (Digits.value (whole ++ fraction))
            (exponent.getD 0 - fraction.length)), rest)

/-- Read a number. -/
def scanNumber : List Char → Except Trouble (Json × List Char)
  -- `-Infinity` is tried before a number, which can begin with a hyphen too.
  | '-' :: 'I' :: 'n' :: 'f' :: 'i' :: 'n' :: 'i' :: 't' :: 'y' :: rest =>
    .ok (.float (.infinity true), rest)
  | 'I' :: 'n' :: 'f' :: 'i' :: 'n' :: 'i' :: 't' :: 'y' :: rest =>
    .ok (.float (.infinity false), rest)
  | 'N' :: 'a' :: 'N' :: rest => .ok (.float .nan, rest)
  | '-' :: rest => scanMagnitude true ('-' :: rest) rest
  | text => scanMagnitude false text text

theorem length_lt_of_scanString {start text : List Char} {units : List Nat}
    {rest : List Char} (h : scanString start text = .ok (units, rest)) :
    rest.length < text.length := by
  fun_induction scanString start text generalizing units rest with
  | case1 => cases h
  | case2 rest' => cases h; simp only [List.length_cons, Nat.lt_add_one]
  | case3 a b c d e rest' n hn ih =>
      rcases hs : scanString start (e :: rest') with t | ⟨u, r⟩
      · rw [hs] at h; cases h
      · rw [hs] at h; cases h
        have := ih hs
        simp only [List.length_cons] at this ⊢
        omega
  | case4 => cases h
  | case5 => cases h
  | case6 => cases h
  | case7 c rest' _ _ x hx ih =>
      rcases hs : scanString start rest' with t | ⟨u, r⟩
      · rw [hs] at h; cases h
      · rw [hs] at h; cases h
        have := ih hs
        simp only [List.length_cons]
        omega
  | case8 => cases h
  | case9 => cases h
  | case10 c rest' _ _ _ _ _ hc ih =>
      rcases hs : scanString start rest' with t | ⟨u, r⟩
      · rw [hs] at h; cases h
      · rw [hs] at h; cases h
        have := ih hs
        simp only [List.length_cons]
        omega

theorem length_scanFraction_le (text : List Char) :
    (scanFraction text).2.length ≤ text.length := by
  unfold scanFraction
  split
  · rename_i rest
    have := Digits.length_span_le rest
    simp only [Digits.span] at this
    split
    · exact Nat.le_refl _
    · rename_i hs
      simp only [Digits.span, Prod.mk.injEq] at hs
      rw [← hs.2]
      simp only [List.length_cons]
      omega
  · exact Nat.le_refl _

theorem length_scanSign_le (text : List Char) : (scanSign text).2.length ≤ text.length := by
  unfold scanSign
  split <;> simp only [List.length_cons, Nat.le_refl] <;> omega

theorem length_scanExponent_le (text : List Char) :
    (scanExponent text).2.length ≤ text.length := by
  unfold scanExponent
  split
  · exact Nat.le_refl _
  · rename_i c rest
    split
    · have hsign := length_scanSign_le rest
      rcases hs : scanSign rest with ⟨negative, digits⟩
      rw [hs] at hsign
      have := Digits.length_span_le digits
      simp only [Digits.span] at this
      simp only
      split
      · exact Nat.le_refl _
      · rename_i hd
        simp only [Digits.span, Prod.mk.injEq] at hd
        rw [← hd.2]
        simp only [List.length_cons] at hsign ⊢
        omega
    · exact Nat.le_refl _

theorem length_lt_of_scanMagnitude {negative : Bool} {start text rest : List Char} {j : Json}
    (h : scanMagnitude negative start text = .ok (j, rest)) : rest.length < text.length := by
  unfold scanMagnitude at h
  split at h
  · cases h
  · rename_i whole after hw
    have hlt := Digits.length_lt_of_whole? hw
    have hf := length_scanFraction_le after
    have he := length_scanExponent_le (scanFraction after).2
    simp only at h
    split at h
    · split at h
      · cases h
      · cases h
        omega
    · cases h
      omega

theorem length_lt_of_scanNumber {text rest : List Char} {j : Json}
    (h : scanNumber text = .ok (j, rest)) : rest.length < text.length := by
  unfold scanNumber at h
  split at h
  · cases h; simp only [List.length_cons]; omega
  · cases h; simp only [List.length_cons]; omega
  · cases h; simp only [List.length_cons]; omega
  · have := length_lt_of_scanMagnitude h
    simp only [List.length_cons]
    omega
  · exact length_lt_of_scanMagnitude h

/-- What a step returns: its result, and a rest that is shorter than the text
    the step was given. -/
abbrev Scan (α : Type) (text : List Char) :=
  Except Trouble (α × { rest : List Char // rest.length < text.length })

mutual

/-- Read the value that the text begins with. -/
def scanValue (text : List Char) : Scan Json text :=
  match text with
  | '"' :: rest =>
    match h : scanString ('"' :: rest) rest with
    | .error t => .error t
    | .ok (units, after) =>
      .ok (.str (.ofUnits units), ⟨after, by
        have := length_lt_of_scanString h
        simp only [List.length_cons]
        omega⟩)
  | '[' :: rest =>
    match h : skipBlank rest with
    | ']' :: after =>
      .ok (.arr [], ⟨after, by
        have := length_skipBlank_le rest
        simp only [h, List.length_cons] at this ⊢
        omega⟩)
    | items =>
      match scanItems items with
      | .error t => .error t
      | .ok (values, after) =>
        .ok (.arr values, ⟨after.1, by
          have := length_skipBlank_le rest
          have := after.2
          simp only [h, List.length_cons] at *
          omega⟩)
  | '\x7b' :: rest =>
    match h : skipBlank rest with
    | '\x7d' :: after =>
      .ok (.obj [], ⟨after, by
        have := length_skipBlank_le rest
        simp only [h, List.length_cons] at this ⊢
        omega⟩)
    | entries =>
      match scanEntries entries with
      | .error t => .error t
      | .ok (values, after) =>
        .ok (ofEntries values, ⟨after.1, by
          have := length_skipBlank_le rest
          have := after.2
          simp only [h, List.length_cons] at *
          omega⟩)
  | 'n' :: 'u' :: 'l' :: 'l' :: rest =>
    .ok (.null, ⟨rest, by simp only [List.length_cons]; omega⟩)
  | 't' :: 'r' :: 'u' :: 'e' :: rest =>
    .ok (.bool true, ⟨rest, by simp only [List.length_cons]; omega⟩)
  | 'f' :: 'a' :: 'l' :: 's' :: 'e' :: rest =>
    .ok (.bool false, ⟨rest, by simp only [List.length_cons]; omega⟩)
  | text =>
    match h : scanNumber text with
    | .error t => .error t
    | .ok (number, after) => .ok (number, ⟨after, length_lt_of_scanNumber h⟩)
  termination_by 2 * text.length
  decreasing_by
    all_goals
      have := length_skipBlank_le rest
      simp only [h, List.length_cons] at *
      omega

/-- Read the items of an array up to its closing bracket. -/
def scanItems (text : List Char) : Scan (List Json) text :=
  match scanValue text with
  | .error t => .error t
  | .ok (value, rest) =>
    match h : skipBlank rest.1 with
    | ']' :: after =>
      .ok ([value], ⟨after, by
        have := length_skipBlank_le rest.1
        have := rest.2
        simp only [h, List.length_cons] at *
        omega⟩)
    | ',' :: more =>
      match scanItems (skipBlank more) with
      | .error t => .error t
      | .ok (values, after) =>
        .ok (value :: values, ⟨after.1, by
          have := length_skipBlank_le rest.1
          have := length_skipBlank_le more
          have := rest.2
          have := after.2
          simp only [h, List.length_cons] at *
          omega⟩)
    | other => failAt .comma other
  termination_by 2 * text.length + 1
  decreasing_by
    · omega
    · have := length_skipBlank_le rest.1
      have := length_skipBlank_le more
      have := rest.2
      simp only [h, List.length_cons] at *
      omega

/-- Read the entries of an object up to its closing brace. -/
def scanEntries (text : List Char) : Scan (List (Str × Json)) text :=
  match text with
  | '"' :: name =>
    match hs : scanString ('"' :: name) name with
    | .error t => .error t
    | .ok (units, afterName) =>
      match hc : skipBlank afterName with
      | ':' :: afterColon =>
        match scanValue (skipBlank afterColon) with
        | .error t => .error t
        | .ok (value, rest) =>
          let entry := (Str.ofUnits units, value)
          match h : skipBlank rest.1 with
          | '\x7d' :: after =>
            .ok ([entry], ⟨after, by
              have := length_lt_of_scanString hs
              have := length_skipBlank_le afterName
              have := length_skipBlank_le afterColon
              have := length_skipBlank_le rest.1
              have := rest.2
              simp only [hc, h, List.length_cons] at *
              omega⟩)
          | ',' :: more =>
            match scanEntries (skipBlank more) with
            | .error t => .error t
            | .ok (entries, after) =>
              .ok (entry :: entries, ⟨after.1, by
                have := length_lt_of_scanString hs
                have := length_skipBlank_le afterName
                have := length_skipBlank_le afterColon
                have := length_skipBlank_le rest.1
                have := length_skipBlank_le more
                have := rest.2
                have := after.2
                simp only [hc, h, List.length_cons] at *
                omega⟩)
          | other => failAt .comma other
      | other => failAt .colon other
  | other => failAt .name other
  termination_by 2 * text.length + 1
  decreasing_by
    · have := length_lt_of_scanString hs
      have := length_skipBlank_le afterName
      have := length_skipBlank_le afterColon
      simp only [hc, List.length_cons] at *
      omega
    · have := length_lt_of_scanString hs
      have := length_skipBlank_le afterName
      have := length_skipBlank_le afterColon
      have := length_skipBlank_le rest.1
      have := length_skipBlank_le more
      have := rest.2
      simp only [hc, h, List.length_cons] at *
      omega

end

/-- Read a text that holds one value, with blanks around it. -/
def scanText (text : List Char) : Except Trouble Json :=
  match text with
  | '\uFEFF' :: _ => failAt .noMark text
  | _ =>
    match scanValue (skipBlank text) with
    | .error t => .error t
    | .ok (value, rest) =>
      match skipBlank rest.1 with
      | [] => .ok value
      | other => failAt .ending other

/-- A fault with the offset at which it was found. -/
def Trouble.fault (length : Nat) : Trouble → Fault
  | .malformed expected left => .malformed expected (length - left)
  | .tooManyDigits count => .tooManyDigits count

/-- The value of a text. -/
def read (text : List Char) : Except Fault Json :=
  (scanText text).mapError (Trouble.fault text.length)

/-- The wording of an expectation. -/
def Expectation.message : Expectation → String
  | .value => "Expecting value"
  | .name => "Expecting property name enclosed in double quotes"
  | .colon => "Expecting ':' delimiter"
  | .comma => "Expecting ',' delimiter"
  | .closingQuote => "Unterminated string starting at"
  | .escapedControl => "Invalid control character at"
  | .escapeLetter => "Invalid \\escape"
  | .fourDigits => "Invalid \\uXXXX escape"
  | .ending => "Extra data"
  | .noMark => "Unexpected UTF-8 BOM (decode using utf-8-sig)"

/-- The line of an offset in a text, counted from one. -/
def lineAt (text : List Char) (offset : Nat) : Nat :=
  (text.take offset).count '\n' + 1

/-- The column of an offset in a text, counted from one. -/
def columnAt (text : List Char) (offset : Nat) : Nat :=
  ((text.take offset).reverse.takeWhile (· != '\n')).length + 1

/-- The wording of a fault found in a text. -/
def Fault.message (text : List Char) : Fault → String
  | .malformed expected offset =>
    expected.message ++ ": line " ++ toString (lineAt text offset) ++ " column " ++
      toString (columnAt text offset) ++ " (char " ++ toString offset ++ ")"
  | .tooManyDigits count =>
    "Exceeds the limit (4300 digits) for integer string conversion: value has " ++
      toString count ++ " digits; use sys.set_int_max_str_digits() to increase the limit"

end Json

end ClientPlan
