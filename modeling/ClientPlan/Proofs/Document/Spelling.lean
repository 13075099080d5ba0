import Mathlib.Data.List.TakeWhile
import ClientPlan.Document.Version

/-!
# Spellings of Integers

Which texts spell an integer.

A version may be written more loosely than JSON writes an integer: with blanks
around it, a plus sign, zeros in front, underscores between the digits and a
fraction that says nothing. `Spells` describes these texts from the inside out: the
digits, how they may be grouped, what may stand in front of them and around them.
Two liberties are larger than one would expect. Underscores among the leading
zeros need not stand alone, and a minus sign may stand behind those zeros instead
of in front of them.

Reading goes the other way, from the outside in, and takes away one liberty after
the other until a plain spelling is left. Each of these steps has two lemmas here:
what it has taken away, and that it takes away what the description allows. Put
together, the first ones say that a text that is loosened to digits is a magnitude.

## Main definitions

* `Grouped`: Digits with single underscores between them.
* `Zeros`: Leading zeros, with any underscores.
* `Magnitude`, `Signed`: Digits behind leading zeros, and a sign.
* `Spells`: The texts that spell an integer.
* `Plain`, `plainText`: The plain spelling and its digits.

## Theorems

* `plainInteger_eq_ok_iff`: The plain spelling.
* `exists_trimBlank`, `exists_withoutZeroFraction`, `grouped_of_withoutUnderscores`,
  `withoutLeadingZeros_eq_some`: What each step has taken away.
* `trimBlank_append`, `withoutZeroFraction_append`, `withoutUnderscores_of_loose`,
  `withoutLeadingZeros_append`: What each step takes away.
* `magnitude_of_loosenedMagnitude`, `late_of_loosenedMagnitude`: What the steps have
  taken away together.
-/

namespace ClientPlan

namespace Document

/-- Digits with single underscores between them, and the digits alone. -/
inductive Grouped : List Char → List Char → Prop
  | single {c : Char} (digit : c.isDigit = true) : Grouped [c] [c]
  | next {c : Char} {text digits : List Char} (digit : c.isDigit = true)
      (rest : Grouped text digits) : Grouped (c :: text) (c :: digits)
  | underscore {c : Char} {text digits : List Char} (digit : c.isDigit = true)
      (rest : Grouped text digits) : Grouped (c :: '_' :: text) (c :: digits)

/-- Leading zeros: a zero, and then zeros and underscores in any order. -/
def Zeros (text : List Char) : Prop :=
  ∃ more, text = '0' :: more ∧ ∀ c ∈ more, c = '0' ∨ c = '_'

/-- A magnitude, and its digits without the leading zeros. -/
inductive Magnitude : List Char → List Char → Prop
  | zero {text : List Char} (zeros : Zeros text) (last : text.getLast? = some '0') :
      Magnitude text ['0']
  | number {zeros text digits : List Char} (leading : zeros = [] ∨ Zeros zeros)
      (group : Grouped text digits) (first : digits.head? ≠ some '0') :
      Magnitude (zeros ++ text) digits

/-- A magnitude with a sign or without one: whether it is negative, and its
    digits. -/
inductive Signed : List Char → Bool → List Char → Prop
  | bare {text digits : List Char} (magnitude : Magnitude text digits) :
      Signed text false digits
  | plus {text digits : List Char} (magnitude : Magnitude text digits) :
      Signed ('+' :: text) false digits
  | minus {text digits : List Char} (magnitude : Magnitude text digits) :
      Signed ('-' :: text) true digits
  /-- The minus sign stands behind leading zeros. An underscore may follow it. -/
  | late {sign zeros underscore text digits : List Char} (plus : sign = [] ∨ sign = ['+'])
      (leading : Zeros zeros) (loose : underscore = [] ∨ underscore = ['_'])
      (group : Grouped text digits) (first : digits = ['0'] ∨ digits.head? ≠ some '0') :
      Signed (sign ++ (zeros ++ '-' :: (underscore ++ text))) true digits

/-- No fraction, or one of nothing but zeros. -/
def ZeroFraction (text : List Char) : Prop :=
  text = [] ∨ ∃ zeros, text = '.' :: '0' :: zeros ∧ ∀ c ∈ zeros, c = '0'

/-- The integer of a sign and some digits. -/
def signedValue (negative : Bool) (digits : List Char) : Int :=
  if negative then -(Digits.value digits : Int) else Digits.value digits

/-- The texts that spell an integer: its digits, not too many of them, with a
    sign, a fraction and blanks around them. -/
def Spells (limits : Limits) (text : List Char) (n : Int) : Prop :=
  ∃ before core fraction after negative digits,
    text = before ++ (core ++ fraction) ++ after ∧
      (∀ c ∈ before, Text.isBlank c = true) ∧ (∀ c ∈ after, Text.isBlank c = true) ∧
      ZeroFraction fraction ∧ Signed core negative digits ∧
      limits.length negative digits ≤ maxTextDigits ∧ n = signedValue negative digits

/-- Digits without a leading zero, unless that is the only one. -/
structure Plain (digits : List Char) : Prop where
  digit : ∀ c ∈ digits, c.isDigit = true
  nonempty : digits ≠ []
  first : digits = ['0'] ∨ digits.head? ≠ some '0'

/-- The plain spelling of a sign and some digits. -/
def plainText : Bool → List Char → List Char
  | true, digits => '-' :: digits
  | false, digits => digits

theorem whole?_eq_some_nil_iff (text digits : List Char) :
    Digits.whole? text = some (digits, []) ↔ text = digits ∧ Plain digits := by
  constructor
  · intro h
    cases text with
    | nil => cases h
    | cons c rest =>
        simp only [Digits.whole?] at h
        split at h
        · rename_i hc
          simp only [Option.some.injEq, Prod.mk.injEq] at h
          rcases h with ⟨rfl, rfl⟩
          subst hc
          exact ⟨rfl, List.forall_mem_singleton.2 (by decide), List.cons_ne_nil _ _, Or.inl rfl⟩
        split at h
        · rename_i hzero hc
          simp only [Digits.span, Option.some.injEq, Prod.mk.injEq] at h
          -- Nothing is left behind the digits, so there is nothing but digits.
          have hall := List.dropWhile_eq_nil_iff.1 h.2
          have htake : (c :: rest).takeWhile Char.isDigit = c :: rest :=
            List.takeWhile_eq_self_iff.2 hall
          rw [htake] at h
          refine ⟨h.1, ?_⟩
          rw [← h.1]
          exact ⟨hall, List.cons_ne_nil _ _, Or.inr fun hhead => hzero (Option.some.inj hhead)⟩
        · cases h
  · rintro ⟨rfl, hdigit, hne, hfirst⟩
    cases text with
    | nil => exact absurd rfl hne
    | cons c rest =>
        rcases hfirst with hzero | hfirst
        · rw [hzero]
          rfl
        · have hc : c ≠ '0' := fun hc => hfirst (by rw [hc, List.head?_cons])
          simp only [Digits.whole?, if_neg hc, hdigit c List.mem_cons_self, if_true, Digits.span,
            List.takeWhile_eq_self_iff.2 hdigit, List.dropWhile_eq_nil_iff.2 hdigit]

theorem signedInteger_eq_ok_iff (limits : Limits) (negative : Bool) (text : List Char)
    (n : Int) :
    signedInteger limits negative text = .ok n ↔
      Plain text ∧ limits.length negative text ≤ maxTextDigits ∧
        n = signedValue negative text := by
  unfold signedInteger
  constructor
  · intro h
    split at h
    · cases h
    · rename_i digits rest hwhole
      split at h
      · cases h
      split at h
      · cases h
      · -- Nothing is left behind the digits, so they are the whole text.
        rename_i hlength hrest
        rw [ne_eq, Classical.not_not] at hrest
        subst hrest
        rcases (whole?_eq_some_nil_iff text digits).1 hwhole with ⟨rfl, hplain⟩
        rw [Except.ok.injEq] at h
        exact ⟨hplain, Nat.le_of_not_lt hlength, h.symm⟩
  · rintro ⟨hplain, hlength, rfl⟩
    rw [(whole?_eq_some_nil_iff text text).2 ⟨rfl, hplain⟩]
    simp only [if_neg (Nat.not_lt_of_le hlength), ne_eq, not_true_eq_false, if_false, signedValue]

/-- The plain spelling: a minus sign or none, and digits. -/
theorem plainInteger_eq_ok_iff (limits : Limits) (text : List Char) (n : Int) :
    plainInteger limits text = .ok n ↔
      ∃ negative digits, text = plainText negative digits ∧ Plain digits ∧
        limits.length negative digits ≤ maxTextDigits ∧ n = signedValue negative digits := by
  have hminus : ∀ rest, ¬ Plain ('-' :: rest) := by
    intro rest h
    have hdigit := h.digit '-' List.mem_cons_self
    exact absurd hdigit (by decide)
  -- Only the first character can be a sign.
  unfold plainInteger
  split
  · rename_i magnitude
    rw [signedInteger_eq_ok_iff]
    constructor
    · intro h
      exact ⟨true, magnitude, rfl, h⟩
    · rintro ⟨_ | _, digits, htext, h⟩
      · simp only [plainText] at htext
        rw [← htext] at h
        exact absurd h.1 (hminus magnitude)
      · simp only [plainText, List.cons.injEq, true_and] at htext
        rwa [htext]
  · rename_i hother
    rw [signedInteger_eq_ok_iff]
    constructor
    · intro h
      exact ⟨false, text, rfl, h⟩
    · rintro ⟨_ | _, digits, htext, h⟩
      · simp only [plainText] at htext
        rwa [htext]
      · simp only [plainText] at htext
        exact absurd htext (hother digits)

theorem mem_blank_takeWhile (text : List Char) :
    ∀ c ∈ text.takeWhile Text.isBlank, Text.isBlank c = true :=
  fun _ hc => List.mem_takeWhile_imp hc

/-- Trimming takes blanks away, and nothing else. -/
theorem exists_trimBlank (text : List Char) :
    ∃ before after, text = before ++ Text.trimBlank text ++ after ∧
      (∀ c ∈ before, Text.isBlank c = true) ∧ ∀ c ∈ after, Text.isBlank c = true := by
  refine ⟨text.takeWhile Text.isBlank,
    ((text.dropWhile Text.isBlank).reverse.takeWhile Text.isBlank).reverse, ?_,
    mem_blank_takeWhile text, fun c hc => mem_blank_takeWhile _ c (List.mem_reverse.1 hc)⟩
  -- What is cut off at the end comes first in the reversed text.
  rw [Text.trimBlank, List.append_assoc, ← List.reverse_append, List.takeWhile_append_dropWhile,
    List.reverse_reverse, List.takeWhile_append_dropWhile]

/-- Trimming stops at characters that are not blank. -/
theorem trimBlank_append (before core after : List Char)
    (hbefore : ∀ c ∈ before, Text.isBlank c = true) (hafter : ∀ c ∈ after, Text.isBlank c = true)
    (hfirst : ∃ c, core.head? = some c ∧ Text.isBlank c = false)
    (hlast : ∃ c, core.getLast? = some c ∧ Text.isBlank c = false) :
    Text.trimBlank (before ++ core ++ after) = core := by
  rcases hfirst with ⟨c, hc, hcb⟩
  rcases hlast with ⟨d, hd, hdb⟩
  rcases List.head?_eq_some_iff.1 hc with ⟨rest, rfl⟩
  rcases List.getLast?_eq_some_iff.1 hd with ⟨start, hstart⟩
  have hafter' : ∀ c ∈ after.reverse, Text.isBlank c = true :=
    fun c hc => hafter c (List.mem_reverse.1 hc)
  -- Dropping stops at the first character of the core, and from behind at its last one.
  rw [Text.trimBlank, List.append_assoc, List.dropWhile_append_of_pos hbefore, List.cons_append,
    List.dropWhile_cons_of_neg (by rw [hcb]; exact Bool.false_ne_true), ← List.cons_append,
    List.reverse_append, List.dropWhile_append_of_pos hafter', hstart, List.reverse_concat,
    List.dropWhile_cons_of_neg (by rw [hdb]; exact Bool.false_ne_true), List.reverse_cons,
    List.reverse_reverse]

/-- A fraction of zeros is what is taken from the end. -/
theorem exists_withoutZeroFraction (text : List Char) :
    ∃ fraction, text = withoutZeroFraction text ++ fraction ∧ ZeroFraction fraction := by
  unfold withoutZeroFraction
  simp only
  split
  · rename_i zeros hdrop
    split
    · -- All behind the first dot are zeros, and the text is cut in front of it.
      rename_i hall
      refine ⟨'.' :: '0' :: zeros, ?_, Or.inr ⟨zeros, rfl, ?_⟩⟩
      · rw [← hdrop, List.takeWhile_append_dropWhile]
      · intro c hc
        exact beq_iff_eq.1 (List.all_eq_true.1 hall c hc)
    · exact ⟨[], (List.append_nil _).symm, Or.inl rfl⟩
  · exact ⟨[], (List.append_nil _).symm, Or.inl rfl⟩

theorem withoutZeroFraction_append (text fraction : List Char) (hdot : '.' ∉ text)
    (hfraction : ZeroFraction fraction) : withoutZeroFraction (text ++ fraction) = text := by
  have hpos : ∀ c ∈ text, (c != '.') = true := by
    intro c hc
    rw [bne_iff_ne]
    rintro rfl
    exact hdot hc
  -- There is no dot in front of the fraction, so its dot is the first one.
  unfold withoutZeroFraction
  rw [List.takeWhile_append_of_pos hpos, List.dropWhile_append_of_pos hpos]
  rcases hfraction with rfl | ⟨zeros, rfl, hzeros⟩
  · simp only [List.dropWhile_nil, List.append_nil]
  · have hall : zeros.all (· == '0') = true :=
      List.all_eq_true.2 fun c hc => beq_iff_eq.2 (hzeros c hc)
    have hdrop : ('.' :: '0' :: zeros).dropWhile (· != '.') = '.' :: '0' :: zeros := rfl
    have htake : ('.' :: '0' :: zeros).takeWhile (· != '.') = [] := rfl
    simp only [hdrop, htake, hall, if_true, List.append_nil]

theorem ne_underscore_of_digit (c : Char) (h : c.isDigit = true) : c ≠ '_' := by
  rintro rfl
  exact absurd h (by decide)

theorem filter_cons_of_ne (c : Char) (text : List Char) (h : c ≠ '_') :
    (c :: text).filter (· != '_') = c :: text.filter (· != '_') :=
  List.filter_cons_of_pos (bne_iff_ne.2 h)

theorem filter_cons_underscore (text : List Char) :
    ('_' :: text).filter (· != '_') = text.filter (· != '_') :=
  List.filter_cons_of_neg (by decide)

theorem hasDoubleUnderscore_cons (c : Char) (text : List Char) (h : c ≠ '_') :
    hasDoubleUnderscore (c :: text) = hasDoubleUnderscore text := by
  rw [hasDoubleUnderscore]
  intro _ hc
  exact absurd hc h

theorem hasDoubleUnderscore_cons_underscore (text : List Char) (h : text.head? ≠ some '_') :
    hasDoubleUnderscore ('_' :: text) = hasDoubleUnderscore text := by
  rw [hasDoubleUnderscore]
  intro rest _ htext
  rw [htext, List.head?_cons] at h
  exact absurd rfl h

/-- Whether underscores can be dropped from a text: each stands alone between two
    other characters. -/
structure Loose (text : List Char) : Prop where
  head : text.head? ≠ some '_'
  last : text.getLast? ≠ some '_'
  double : hasDoubleUnderscore text = false

theorem withoutUnderscores_cases (text : List Char) :
    withoutUnderscores text = text ∨
      (Loose text ∧ withoutUnderscores text = text.filter (· != '_')) := by
  unfold withoutUnderscores
  split
  · exact Or.inl rfl
  · rename_i h
    rw [not_or, not_or, Bool.not_eq_true] at h
    exact Or.inr ⟨⟨h.1, h.2.1, h.2.2⟩, rfl⟩

theorem withoutUnderscores_of_loose (text : List Char) (h : Loose text) :
    withoutUnderscores text = text.filter (· != '_') := by
  rw [withoutUnderscores, if_neg]
  rw [not_or, not_or, Bool.not_eq_true]
  exact ⟨h.head, h.last, h.double⟩

theorem Loose.tail {c d : Char} {text : List Char} (h : Loose (c :: d :: text)) (hd : d ≠ '_') :
    Loose (d :: text) := by
  have hc : c ≠ '_' := fun hc => h.head (by rw [hc, List.head?_cons])
  have hlast := h.last
  rw [List.getLast?_cons_cons] at hlast
  have hdouble := h.double
  rw [hasDoubleUnderscore_cons c _ hc] at hdouble
  exact ⟨fun h => hd (Option.some.inj h), hlast, hdouble⟩

/-- An underscore is followed by something, and not by another one. -/
theorem Loose.behind_underscore {c : Char} {text : List Char} (h : Loose (c :: '_' :: text)) :
    text ≠ [] ∧ Loose text := by
  have hc : c ≠ '_' := fun hc => h.head (by rw [hc, List.head?_cons])
  have hlast := h.last
  rw [List.getLast?_cons_cons] at hlast
  have hdouble := h.double
  rw [hasDoubleUnderscore_cons c _ hc] at hdouble
  -- Were it the last one, or followed by another, the text would not be loose.
  cases text with
  | nil => exact absurd rfl hlast
  | cons d text =>
      have hd : d ≠ '_' := by
        rintro rfl
        simp only [hasDoubleUnderscore, Bool.true_eq_false] at hdouble
      have hhead : (d :: text).head? ≠ some '_' := fun h => hd (Option.some.inj h)
      rw [List.getLast?_cons_cons] at hlast
      rw [hasDoubleUnderscore_cons_underscore _ hhead] at hdouble
      exact ⟨List.cons_ne_nil d text, hhead, hlast, hdouble⟩

theorem grouped_self (text : List Char) (hdigit : ∀ c ∈ text, c.isDigit = true)
    (hne : text ≠ []) : Grouped text text := by
  induction text with
  | nil => exact absurd rfl hne
  | cons c text ih =>
      rcases text with _ | ⟨d, text⟩
      · exact .single (hdigit c List.mem_cons_self)
      · exact .next (hdigit c List.mem_cons_self)
          (ih (fun e he => hdigit e (List.mem_cons_of_mem c he)) (List.cons_ne_nil d text))

/-- Digits that are left when single underscores are dropped were grouped by
    them. -/
theorem grouped_of_filter (text : List Char) (hne : text ≠ []) (hloose : Loose text)
    (hdigit : ∀ c ∈ text.filter (· != '_'), c.isDigit = true) :
    Grouped text (text.filter (· != '_')) := by
  match text with
  | [] => exact absurd rfl hne
  | c :: rest =>
    have hc : c ≠ '_' := fun hc => hloose.head (by rw [hc, List.head?_cons])
    rw [filter_cons_of_ne c rest hc] at hdigit ⊢
    have hcd := hdigit c List.mem_cons_self
    have hrest := fun x hx => hdigit x (List.mem_cons_of_mem c hx)
    match rest with
    | [] => exact .single hcd
    | d :: more =>
      -- A digit is followed by another one, or by an underscore and what stands behind it.
      by_cases hd : d = '_'
      · subst hd
        rcases hloose.behind_underscore with ⟨hmore, hloose'⟩
        rw [filter_cons_underscore] at hrest ⊢
        exact .underscore hcd (grouped_of_filter more hmore hloose' hrest)
      · exact .next hcd (grouped_of_filter (d :: more) (List.cons_ne_nil d more) (hloose.tail hd)
          hrest)

theorem grouped_of_withoutUnderscores (text : List Char) (h : Plain (withoutUnderscores text)) :
    Grouped text (withoutUnderscores text) := by
  rcases withoutUnderscores_cases text with hsame | ⟨hloose, hfilter⟩
  · rw [hsame] at h ⊢
    exact grouped_self text h.digit h.nonempty
  · rw [hfilter] at h ⊢
    refine grouped_of_filter text ?_ hloose h.digit
    rintro rfl
    exact h.nonempty rfl

/-- The same behind a minus sign, which an underscore may follow. -/
theorem grouped_of_withoutUnderscores_minus (text digits : List Char) (hdigits : Plain digits)
    (h : withoutUnderscores text = '-' :: digits) :
    ∃ underscore rest, text = '-' :: (underscore ++ rest) ∧
      (underscore = [] ∨ underscore = ['_']) ∧ Grouped rest digits := by
  rcases withoutUnderscores_cases text with hsame | ⟨hloose, hfilter⟩
  · rw [hsame] at h
    exact ⟨[], digits, h, Or.inl rfl, grouped_self digits hdigits.digit hdigits.nonempty⟩
  · rw [hfilter] at h
    cases text with
    | nil => cases h
    | cons c rest =>
        have hc : c ≠ '_' := fun hc => hloose.head (by rw [hc, List.head?_cons])
        rw [filter_cons_of_ne c rest hc, List.cons.injEq] at h
        rcases h with ⟨rfl, rfl⟩
        rcases rest with _ | ⟨d, rest⟩
        · exact absurd rfl hdigits.nonempty
        -- The sign counts as a character in front of an underscore.
        by_cases hd : d = '_'
        · subst hd
          rcases hloose.behind_underscore with ⟨hrest, hloose'⟩
          rw [filter_cons_underscore] at hdigits ⊢
          exact ⟨['_'], rest, rfl, Or.inr rfl, grouped_of_filter rest hrest hloose' hdigits.digit⟩
        · exact ⟨[], d :: rest, rfl, Or.inl rfl, grouped_of_filter (d :: rest)
            (List.cons_ne_nil d rest) (hloose.tail hd) hdigits.digit⟩

namespace Grouped

variable {text digits : List Char}

/-- The text and its digits start with the same digit. -/
theorem head (h : Grouped text digits) :
    ∃ c rest more, text = c :: rest ∧ digits = c :: more ∧ c.isDigit = true := by
  cases h with
  | single digit => exact ⟨_, _, _, rfl, rfl, digit⟩
  | next digit rest => exact ⟨_, _, _, rfl, rfl, digit⟩
  | underscore digit rest => exact ⟨_, _, _, rfl, rfl, digit⟩

theorem last (h : Grouped text digits) : ∃ c, text.getLast? = some c ∧ c.isDigit = true := by
  induction h with
  | single digit => exact ⟨_, rfl, digit⟩
  | next digit rest ih =>
      rcases rest.head with ⟨d, _, _, rfl, -, -⟩
      rwa [List.getLast?_cons_cons]
  | underscore digit rest ih =>
      rcases rest.head with ⟨d, _, _, rfl, -, -⟩
      rwa [List.getLast?_cons_cons, List.getLast?_cons_cons]

theorem digit (h : Grouped text digits) : ∀ c ∈ digits, c.isDigit = true := by
  induction h with
  | single digit => exact List.forall_mem_singleton.2 digit
  | next digit rest ih => exact List.forall_mem_cons.2 ⟨digit, ih⟩
  | underscore digit rest ih => exact List.forall_mem_cons.2 ⟨digit, ih⟩

theorem filter (h : Grouped text digits) : text.filter (· != '_') = digits := by
  induction h with
  | single digit => rw [filter_cons_of_ne _ _ (ne_underscore_of_digit _ digit), List.filter_nil]
  | next digit rest ih => rw [filter_cons_of_ne _ _ (ne_underscore_of_digit _ digit), ih]
  | underscore digit rest ih =>
      rw [filter_cons_of_ne _ _ (ne_underscore_of_digit _ digit), filter_cons_underscore, ih]

theorem double (h : Grouped text digits) : hasDoubleUnderscore text = false := by
  induction h with
  | single digit => rw [hasDoubleUnderscore_cons _ _ (ne_underscore_of_digit _ digit)]; rfl
  | next digit rest ih => rw [hasDoubleUnderscore_cons _ _ (ne_underscore_of_digit _ digit), ih]
  | underscore digit rest ih =>
      rcases rest.head with ⟨d, _, _, rfl, -, hd⟩
      rw [hasDoubleUnderscore_cons _ _ (ne_underscore_of_digit _ digit),
        hasDoubleUnderscore_cons_underscore, ih]
      exact fun h => ne_underscore_of_digit d hd (Option.some.inj h)

theorem loose (h : Grouped text digits) : Loose text := by
  rcases h.head with ⟨c, rest, _, htext, -, hc⟩
  rcases h.last with ⟨d, hlast, hd⟩
  refine ⟨?_, ?_, h.double⟩
  · rw [htext, List.head?_cons]
    exact fun h => ne_underscore_of_digit c hc (Option.some.inj h)
  · rw [hlast]
    exact fun h => ne_underscore_of_digit d hd (Option.some.inj h)

theorem dot_notMem (h : Grouped text digits) : '.' ∉ text := by
  induction h with
  | single digit =>
      rw [List.mem_singleton]
      rintro rfl
      exact absurd digit (by decide)
  | next digit rest ih =>
      rw [List.mem_cons, not_or]
      refine ⟨?_, ih⟩
      rintro rfl
      exact absurd digit (by decide)
  | underscore digit rest ih =>
      rw [List.mem_cons, List.mem_cons, not_or, not_or]
      refine ⟨?_, by decide, ih⟩
      rintro rfl
      exact absurd digit (by decide)

end Grouped

/-- The last one of some dropped characters, if the given one came before
    them. -/
theorem afterZeros_eq_some (last : Char) (text rest : List Char)
    (h : afterZeros last text = some rest) :
    ∃ zeros, (∀ c ∈ zeros, c = '0' ∨ c = '_') ∧
      ((∃ more, text = zeros ++ more ∧ rest = zeros.getLastD last :: more ∧
          (more = [] ∨ more.head? = some '.')) ∨
        ∃ c more, text = zeros ++ c :: more ∧ rest = c :: more ∧
          (c = '-' ∨ (c.isDigit = true ∧ c ≠ '0'))) := by
  -- By induction on the text: the character that was dropped last is kept in mind.
  induction text generalizing last with
  | nil =>
      simp only [afterZeros, Option.some.injEq] at h
      exact ⟨[], by simp only [List.not_mem_nil, false_implies, implies_true],
        Or.inl ⟨[], rfl, h.symm, Or.inl rfl⟩⟩
  | cons c text ih =>
      simp only [afterZeros] at h
      have hnone : ∀ d ∈ ([] : List Char), d = '0' ∨ d = '_' := by
        simp only [List.not_mem_nil, false_implies, implies_true]
      split at h
      · rename_i hc
        -- A zero or an underscore is dropped, and is the last one now.
        rcases ih c h with ⟨zeros, hzeros, hrest⟩
        refine ⟨c :: zeros, List.forall_mem_cons.2 ⟨hc, hzeros⟩, ?_⟩
        rcases hrest with ⟨more, rfl, rfl, hmore⟩ | ⟨d, more, rfl, rfl, hd⟩
        · exact Or.inl ⟨more, rfl, by rw [List.getLastD_cons], hmore⟩
        · exact Or.inr ⟨d, more, rfl, rfl, hd⟩
      split at h
      · rename_i hzero hc
        rw [not_or] at hzero
        exact ⟨[], hnone, Or.inr ⟨c, text, rfl, (Option.some.inj h).symm,
          hc.imp_right fun hdigit => ⟨hdigit, hzero.1⟩⟩⟩
      split at h
      · rename_i hc
        exact ⟨[], hnone, Or.inl ⟨c :: text, rfl, (Option.some.inj h).symm,
          Or.inr (by rw [hc, List.head?_cons])⟩⟩
      · cases h

theorem afterZeros_append (last : Char) (zeros text : List Char)
    (hzeros : ∀ c ∈ zeros, c = '0' ∨ c = '_') :
    afterZeros last (zeros ++ text) = afterZeros (zeros.getLastD last) text := by
  induction zeros generalizing last with
  | nil => rfl
  | cons c zeros ih =>
      rw [List.forall_mem_cons] at hzeros
      rw [List.cons_append, afterZeros, if_pos hzeros.1, ih c hzeros.2, List.getLastD_cons]

theorem getLast?_zeros (more : List Char) :
    ('0' :: more).getLast? = some (more.getLastD '0') := by
  rw [List.getLast?_cons, List.getLastD_eq_getLast?]

theorem Zeros.last_cases {zeros : List Char} {c : Char} (h : Zeros zeros)
    (hlast : zeros.getLast? = some c) : c = '0' ∨ c = '_' := by
  rcases h with ⟨more, rfl, hmore⟩
  rcases List.mem_cons.1 (List.mem_of_getLast? hlast) with hc | hc
  · exact Or.inl hc
  · exact hmore c hc

/-- Of leading zeros the last character is known when they end. -/
theorem withoutLeadingZeros_append (zeros text : List Char) (hzeros : Zeros zeros) :
    ∃ last, zeros.getLast? = some last ∧
      withoutLeadingZeros (zeros ++ text) = afterZeros last text := by
  rcases hzeros with ⟨more, rfl, hmore⟩
  refine ⟨more.getLastD '0', getLast?_zeros more, ?_⟩
  rw [List.cons_append, withoutLeadingZeros, if_pos rfl, afterZeros_append '0' more text hmore]

/-- Leading zeros are taken away up to a fraction, up to another digit or up to a
    minus sign behind them. Of zeros alone the last one is left. -/
theorem withoutLeadingZeros_eq_some (text rest : List Char)
    (h : withoutLeadingZeros text = some rest) :
    (∃ zeros last more, Zeros zeros ∧ zeros.getLast? = some last ∧ text = zeros ++ more ∧
        rest = last :: more ∧ (more = [] ∨ more.head? = some '.')) ∨
      (∃ zeros c more, (zeros = [] ∨ Zeros zeros) ∧ text = zeros ++ c :: more ∧
        rest = c :: more ∧ c.isDigit = true ∧ c ≠ '0') ∨
      ∃ zeros more, Zeros zeros ∧ text = zeros ++ '-' :: more ∧ rest = '-' :: more := by
  cases text with
  | nil => cases h
  | cons c text =>
      -- Only a zero can be a leading one, and only a digit can stand in its place.
      rw [withoutLeadingZeros] at h
      split at h
      · rename_i hc
        subst hc
        rcases afterZeros_eq_some '0' text rest h with ⟨zeros, hzeros, hrest⟩
        have hleading : Zeros ('0' :: zeros) := ⟨zeros, rfl, hzeros⟩
        rcases hrest with ⟨more, rfl, rfl, hmore⟩ | ⟨d, more, rfl, rfl, rfl | hd⟩
        · exact Or.inl ⟨_, _, more, hleading, getLast?_zeros zeros, rfl, rfl, hmore⟩
        · exact Or.inr (Or.inr ⟨_, more, hleading, rfl, rfl⟩)
        · exact Or.inr (Or.inl ⟨_, d, more, Or.inr hleading, rfl, rfl, hd⟩)
      split at h
      · rename_i hzero hc
        exact Or.inr (Or.inl ⟨[], c, text, Or.inl rfl, rfl, (Option.some.inj h).symm, hc, hzero⟩)
      · cases h

/-- A fraction is what is cut off behind a first character that is no dot. -/
theorem exists_withoutZeroFraction_cons (c : Char) (text : List Char) (hc : c ≠ '.') :
    ∃ more fraction, withoutZeroFraction (c :: text) = c :: more ∧ text = more ++ fraction ∧
      ZeroFraction fraction := by
  rcases exists_withoutZeroFraction (c :: text) with ⟨fraction, htext, hfraction⟩
  rcases hwithout : withoutZeroFraction (c :: text) with _ | ⟨d, more⟩
  · rw [hwithout, List.nil_append] at htext
    rcases hfraction with rfl | ⟨zeros, rfl, -⟩
    · cases htext
    · exact absurd (List.cons.inj htext).1 hc
  · rw [hwithout, List.cons_append, List.cons.injEq] at htext
    exact ⟨more, fraction, by rw [htext.1], htext.2, hfraction⟩

/-- What is loosened to digits is a magnitude, perhaps with a fraction. -/
theorem magnitude_of_loosenedMagnitude (text digits : List Char)
    (h : loosenedMagnitude text = some digits) (hdigits : Plain digits) :
    ∃ core fraction, text = core ++ fraction ∧ ZeroFraction fraction ∧ Magnitude core digits := by
  rw [loosenedMagnitude, Option.map_eq_some_iff] at h
  rcases h with ⟨rest, hrest, rfl⟩
  have hgroup := grouped_of_withoutUnderscores _ hdigits
  rcases withoutLeadingZeros_eq_some text rest hrest with
    ⟨zeros, last, more, hzeros, hlast, rfl, rfl, hmore⟩ |
      ⟨zeros, c, more, hzeros, rfl, rfl, hc, hc0⟩ | ⟨zeros, more, hzeros, rfl, rfl⟩
  · -- Only the last zero is left, and behind it there can be nothing but a fraction.
    have hcases := hzeros.last_cases hlast
    have hdot : last ≠ '.' := by
      rintro rfl
      exact absurd hcases (by decide)
    rcases exists_withoutZeroFraction_cons last more hdot with
      ⟨behind, fraction, hbehind, rfl, hfraction⟩
    rw [hbehind] at hgroup ⊢
    have hnil : behind = [] := by
      cases behind with
      | nil => rfl
      | cons d behind =>
          rw [List.cons_append, List.head?_cons, Option.some.injEq] at hmore
          rcases hmore with hmore | rfl
          · cases hmore
          · exact absurd (List.mem_cons_of_mem _ List.mem_cons_self) hgroup.dot_notMem
    subst hnil
    have hzero : last = '0' := by
      rcases hgroup.head with ⟨d, _, _, htext, -, hd⟩
      rw [← (List.cons.inj htext).1] at hd
      exact hcases.resolve_right (ne_underscore_of_digit last hd)
    subst hzero
    have hdigits' : withoutUnderscores ['0'] = ['0'] := rfl
    rw [hdigits']
    exact ⟨zeros, fraction, rfl, hfraction, .zero hzeros hlast⟩
  · have hdot : c ≠ '.' := by
      rintro rfl
      exact absurd hc (by decide)
    rcases exists_withoutZeroFraction_cons c more hdot with
      ⟨group, fraction, hgroup', rfl, hfraction⟩
    rw [hgroup'] at hgroup ⊢
    refine ⟨zeros ++ c :: group, fraction, by simp only [List.append_assoc, List.cons_append],
      hfraction, .number hzeros hgroup ?_⟩
    rcases hgroup.head with ⟨d, _, _, htext, hdigits', -⟩
    rw [hdigits', List.head?_cons, ← (List.cons.inj htext).1]
    exact fun h => hc0 (Option.some.inj h)
  · -- A minus sign is no digit.
    rcases exists_withoutZeroFraction_cons '-' more (by decide) with
      ⟨group, fraction, hgroup', -, -⟩
    rw [hgroup'] at hgroup
    rcases hgroup.head with ⟨d, _, _, htext, -, hd⟩
    rw [← (List.cons.inj htext).1] at hd
    exact absurd hd (by decide)

/-- What is loosened to a minus sign and digits has that sign behind leading
    zeros. -/
theorem late_of_loosenedMagnitude (text digits : List Char)
    (h : loosenedMagnitude text = some ('-' :: digits)) (hdigits : Plain digits) :
    ∃ zeros underscore group fraction,
      text = zeros ++ '-' :: (underscore ++ group) ++ fraction ∧ ZeroFraction fraction ∧
        Zeros zeros ∧ (underscore = [] ∨ underscore = ['_']) ∧ Grouped group digits := by
  rw [loosenedMagnitude, Option.map_eq_some_iff] at h
  rcases h with ⟨rest, hrest, hminus⟩
  rcases grouped_of_withoutUnderscores_minus _ digits hdigits hminus with
    ⟨underscore, group, hwithout, hunderscore, hgroup⟩
  -- The text starts with the sign once the zeros are gone, so it does not start with a digit.
  rcases exists_withoutZeroFraction rest with ⟨fraction, hfraction, hzero⟩
  rw [hwithout, List.cons_append] at hfraction
  rcases withoutLeadingZeros_eq_some text rest hrest with
    ⟨zeros, last, more, hzeros, hlast, -, rfl, -⟩ | ⟨_, c, more, -, -, rfl, hc, -⟩ |
      ⟨zeros, more, hzeros, rfl, rfl⟩
  · rw [(List.cons.inj hfraction).1] at hlast
    exact absurd (hzeros.last_cases hlast) (by decide)
  · rw [(List.cons.inj hfraction).1] at hc
    exact absurd hc (by decide)
  · refine ⟨zeros, underscore, group, fraction, ?_, hzero, hzeros, hunderscore, hgroup⟩
    rw [(List.cons.inj hfraction).2, List.append_assoc zeros, List.cons_append]

end Document

end ClientPlan
