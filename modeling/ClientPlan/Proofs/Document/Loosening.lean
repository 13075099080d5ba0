import ClientPlan.Proofs.Document.Spelling

/-!
# Reading Integers

Reading a text and describing it agree.

A text that is described is loosened to its digits, since each step takes away what
the description allows there. The plain spelling is tried first, though, and it is
the only one whose digits are counted: it remains that no text that is described is
refused for its length before it is loosened, and that a plain spelling means the
same loosened.

## Theorems

* `Signed.loosened`: A description is loosened to its digits.
* `spells_of_loosened`: What is loosened to a plain spelling is described.
* `unreadable_of_spells`: No text that is described is refused for its length.
* `integerOfText_eq_ok_iff`: Reading and describing agree.
-/

namespace ClientPlan

namespace Document

theorem isBlank_of_digit (c : Char) (h : c.isDigit = true) : Text.isBlank c = false := by
  simp only [Char.isDigit, Bool.and_eq_true, decide_eq_true_eq, ge_iff_le,
    UInt32.le_iff_toNat_le] at h
  have hrange : 48 ≤ c.toNat ∧ c.toNat ≤ 57 := h
  simp only [Text.isBlank, Bool.or_eq_false_iff, Bool.and_eq_false_iff, decide_eq_false_iff_not,
    beq_eq_false_iff_ne]
  omega

theorem afterZeros_fraction (last : Char) (fraction : List Char) (h : ZeroFraction fraction) :
    afterZeros last fraction = some (last :: fraction) := by
  rcases h with rfl | ⟨zeros, rfl, -⟩
  · rfl
  · rfl

theorem afterZeros_digit (last c : Char) (text : List Char) (hc : c.isDigit = true)
    (hzero : c ≠ '0') : afterZeros last (c :: text) = some (c :: text) := by
  have hskip : ¬ (c = '0' ∨ c = '_') := not_or.2 ⟨hzero, ne_underscore_of_digit c hc⟩
  rw [afterZeros, if_neg hskip, if_pos (Or.inr hc)]

namespace Magnitude

variable {core digits fraction : List Char}

theorem head (h : Magnitude core digits) : ∃ c rest, core = c :: rest ∧ c.isDigit = true := by
  cases h with
  | zero zeros last =>
      rcases zeros with ⟨more, rfl, -⟩
      exact ⟨'0', more, rfl, by decide⟩
  | number leading group first =>
      rcases leading with rfl | ⟨more, rfl, -⟩
      · rcases group.head with ⟨c, rest, _, rfl, -, hc⟩
        exact ⟨c, rest, rfl, hc⟩
      · exact ⟨'0', _, rfl, by decide⟩

theorem last (h : Magnitude core digits) : ∃ c, core.getLast? = some c ∧ c.isDigit = true := by
  cases h with
  | zero zeros last => exact ⟨'0', last, by decide⟩
  | number leading group first =>
      rcases group.last with ⟨c, hlast, hc⟩
      exact ⟨c, by rw [List.getLast?_append, hlast, Option.some_or], hc⟩

theorem plain (h : Magnitude core digits) : Plain digits := by
  cases h with
  | zero zeros last =>
      exact ⟨List.forall_mem_singleton.2 (by decide), List.cons_ne_nil _ _, Or.inl rfl⟩
  | number leading group first =>
      rcases group.head with ⟨_, _, _, -, hdigits, -⟩
      exact ⟨group.digit, by rw [hdigits]; exact List.cons_ne_nil _ _, Or.inr first⟩

/-- A magnitude is loosened to its digits. -/
theorem loosened (h : Magnitude core digits) (hfraction : ZeroFraction fraction) :
    loosenedMagnitude (core ++ fraction) = some digits := by
  cases h with
  | zero zeros last =>
      -- The last zero is kept, since no digit follows it.
      rcases withoutLeadingZeros_append core fraction zeros with ⟨c, hc, hwithout⟩
      rw [last, Option.some.injEq] at hc
      subst hc
      have hcut := withoutZeroFraction_append ['0'] fraction (by decide) hfraction
      rw [loosenedMagnitude, hwithout, afterZeros_fraction '0' fraction hfraction, Option.map_some,
        ← List.singleton_append, hcut]
      rfl
  | number leading group first =>
      rename_i zeros text
      -- Whatever zeros there are, they end at the first digit of the group.
      have hwithout : withoutLeadingZeros (zeros ++ (text ++ fraction)) =
          some (text ++ fraction) := by
        rcases group.head with ⟨c, rest, more, htext, hdigits, hc⟩
        have hzero : c ≠ '0' := by
          rintro rfl
          exact first (by rw [hdigits, List.head?_cons])
        rw [htext, List.cons_append]
        rcases leading with rfl | hzeros
        · rw [List.nil_append, withoutLeadingZeros, if_neg hzero, if_pos hc]
        · rcases withoutLeadingZeros_append zeros (c :: (rest ++ fraction)) hzeros with
            ⟨last, -, hlast⟩
          rw [hlast, afterZeros_digit last c _ hc hzero]
      rw [loosenedMagnitude, List.append_assoc, hwithout, Option.map_some,
        withoutZeroFraction_append text fraction group.dot_notMem hfraction,
        withoutUnderscores_of_loose text group.loose, group.filter]

end Magnitude

/-- A minus sign keeps an underscore behind it from being the first character. -/
theorem withoutUnderscores_minus (underscore group digits : List Char)
    (hunderscore : underscore = [] ∨ underscore = ['_']) (hgroup : Grouped group digits) :
    withoutUnderscores ('-' :: (underscore ++ group)) = '-' :: digits := by
  have hminus : ('-' : Char) ≠ '_' := by decide
  rcases hgroup.last with ⟨d, hlast, hd⟩
  have hlast' : ('-' :: (underscore ++ group)).getLast? = some d := by
    rw [← List.cons_append, List.getLast?_append, hlast, Option.some_or]
  -- Behind the minus sign a single underscore may stand, as between two digits.
  have hloose : Loose ('-' :: (underscore ++ group)) := by
    refine ⟨fun h => hminus (Option.some.inj h), ?_, ?_⟩
    · rw [hlast']
      exact fun h => ne_underscore_of_digit d hd (Option.some.inj h)
    · rw [hasDoubleUnderscore_cons _ _ hminus]
      rcases hunderscore with rfl | rfl
      · exact hgroup.double
      · rw [List.singleton_append, hasDoubleUnderscore_cons_underscore, hgroup.double]
        exact hgroup.loose.head
  rw [withoutUnderscores_of_loose _ hloose, filter_cons_of_ne _ _ hminus]
  rcases hunderscore with rfl | rfl
  · rw [List.nil_append, hgroup.filter]
  · rw [List.singleton_append, filter_cons_underscore, hgroup.filter]

/-- A minus sign behind leading zeros comes to stand in front of the digits. -/
theorem loosenedMagnitude_late (zeros underscore group digits fraction : List Char)
    (hzeros : Zeros zeros) (hunderscore : underscore = [] ∨ underscore = ['_'])
    (hgroup : Grouped group digits) (hfraction : ZeroFraction fraction) :
    loosenedMagnitude (zeros ++ '-' :: (underscore ++ group) ++ fraction) =
      some ('-' :: digits) := by
  have hdot : '.' ∉ '-' :: (underscore ++ group) := by
    rw [List.mem_cons, List.mem_append, not_or, not_or]
    refine ⟨by decide, ?_, hgroup.dot_notMem⟩
    rcases hunderscore with rfl | rfl
    · decide
    · decide
  rcases withoutLeadingZeros_append zeros ('-' :: (underscore ++ group) ++ fraction) hzeros with
    ⟨last, -, hwithout⟩
  -- The zeros end at the sign, which is kept.
  have hafter : afterZeros last ('-' :: (underscore ++ group) ++ fraction) =
      some ('-' :: (underscore ++ group) ++ fraction) := rfl
  rw [loosenedMagnitude, List.append_assoc, hwithout, hafter, Option.map_some,
    withoutZeroFraction_append _ fraction hdot hfraction,
    withoutUnderscores_minus underscore group digits hunderscore hgroup]

/-- Without a sign there is nothing to take away in front of the magnitude. -/
theorem loosened_of_digit (text : List Char) (c : Char) (rest : List Char)
    (htrim : Text.trimBlank text = c :: rest) (hc : c.isDigit = true) :
    loosened text = loosenedMagnitude (c :: rest) := by
  rw [loosened, htrim]
  split
  · rename_i hcons
    rw [(List.cons.inj hcons).1] at hc
    exact absurd hc (by decide)
  · rename_i hcons
    rw [(List.cons.inj hcons).1] at hc
    exact absurd hc (by decide)
  · rfl

/-- The last character of a fraction of zeros. -/
theorem last_of_zeros (zeros : List Char) (h : ∀ c ∈ zeros, c = '0') :
    ('.' :: '0' :: zeros).getLast? = some '0' := by
  rw [List.getLast?_cons_cons, List.getLast?_cons]
  rcases hlast : zeros.getLast? with _ | c
  · rfl
  · rw [h c (List.mem_of_getLast? hlast), Option.getD_some]

namespace Signed

variable {core digits fraction : List Char} {negative : Bool}

theorem plain (h : Signed core negative digits) : Plain digits := by
  cases h with
  | bare magnitude => exact magnitude.plain
  | plus magnitude => exact magnitude.plain
  | minus magnitude => exact magnitude.plain
  | late plus leading loose group first =>
      rcases group.head with ⟨_, _, _, -, hdigits, -⟩
      exact ⟨group.digit, by rw [hdigits]; exact List.cons_ne_nil _ _, first⟩

theorem head (h : Signed core negative digits) :
    ∃ c rest, core = c :: rest ∧ Text.isBlank c = false := by
  cases h with
  | bare magnitude =>
      rcases magnitude.head with ⟨c, rest, rfl, hc⟩
      exact ⟨c, rest, rfl, isBlank_of_digit c hc⟩
  | plus magnitude => exact ⟨'+', _, rfl, by decide⟩
  | minus magnitude => exact ⟨'-', _, rfl, by decide⟩
  | late plus leading loose group first =>
      rcases leading with ⟨more, rfl, -⟩
      rcases plus with rfl | rfl
      · exact ⟨'0', _, rfl, by decide⟩
      · exact ⟨'+', _, rfl, by decide⟩

theorem last (h : Signed core negative digits) :
    ∃ c, core.getLast? = some c ∧ c.isDigit = true := by
  -- The last character is a digit whatever stands in front of the digits.
  cases h with
  | bare magnitude => exact magnitude.last
  | plus magnitude =>
      rcases magnitude.last with ⟨c, hlast, hc⟩
      exact ⟨c, by rw [← List.singleton_append, List.getLast?_append, hlast, Option.some_or], hc⟩
  | minus magnitude =>
      rcases magnitude.last with ⟨c, hlast, hc⟩
      exact ⟨c, by rw [← List.singleton_append, List.getLast?_append, hlast, Option.some_or], hc⟩
  | late plus leading loose group first =>
      rename_i sign zeros underscore text
      rcases group.last with ⟨c, hlast, hc⟩
      refine ⟨c, ?_, hc⟩
      have hcore : sign ++ (zeros ++ '-' :: (underscore ++ text)) =
          (sign ++ (zeros ++ '-' :: underscore)) ++ text := by
        simp only [List.append_assoc, List.cons_append]
      rw [hcore, List.getLast?_append, hlast, Option.some_or]

/-- The text of an integer is trimmed to the integer with its fraction. -/
theorem trimBlank (h : Signed core negative digits) (hfraction : ZeroFraction fraction)
    (before after : List Char) (hbefore : ∀ c ∈ before, Text.isBlank c = true)
    (hafter : ∀ c ∈ after, Text.isBlank c = true) :
    Text.trimBlank (before ++ (core ++ fraction) ++ after) = core ++ fraction := by
  refine trimBlank_append before (core ++ fraction) after hbefore hafter ?_ ?_
  · rcases h.head with ⟨c, rest, rfl, hc⟩
    exact ⟨c, rfl, hc⟩
  · -- The last character is a digit of the core, or a zero of the fraction.
    rcases hfraction with rfl | ⟨zeros, rfl, hzeros⟩
    · rcases h.last with ⟨c, hlast, hc⟩
      exact ⟨c, by rw [List.append_nil, hlast], isBlank_of_digit c hc⟩
    · refine ⟨'0', ?_, by decide⟩
      rw [List.getLast?_append, last_of_zeros zeros hzeros, Option.some_or]

/-- A description is loosened to its digits, behind a minus sign if it is
    negative. -/
theorem loosened (h : Signed core negative digits) (hfraction : ZeroFraction fraction)
    (before after : List Char) (hbefore : ∀ c ∈ before, Text.isBlank c = true)
    (hafter : ∀ c ∈ after, Text.isBlank c = true) :
    Document.loosened (before ++ (core ++ fraction) ++ after) =
      some (plainText negative digits) := by
  have htrim := h.trimBlank hfraction before after hbefore hafter
  -- A plus sign is taken away first, a minus sign is put back in the end.
  cases h with
  | bare magnitude =>
      have hcore := magnitude.loosened hfraction
      rcases magnitude.head with ⟨c, rest, rfl, hc⟩
      rw [loosened_of_digit _ c _ htrim hc]
      exact hcore
  | plus magnitude =>
      rw [Document.loosened, htrim]
      exact magnitude.loosened hfraction
  | minus magnitude =>
      rw [Document.loosened, htrim]
      simp only [List.cons_append, magnitude.loosened hfraction, Option.map_some, plainText]
  | late plus leading loose group first =>
      have hcore := loosenedMagnitude_late _ _ _ _ fraction leading loose group hfraction
      rw [Document.loosened, htrim]
      rcases plus with rfl | rfl
      · rcases leading with ⟨more, rfl, -⟩
        exact hcore
      · exact hcore

end Signed

section Limited

variable (limits : Limits)

theorem plainInteger_plainText (negative : Bool) (digits : List Char) (h : Plain digits)
    (hlength : limits.length negative digits ≤ maxTextDigits) :
    plainInteger limits (plainText negative digits) = .ok (signedValue negative digits) :=
  (plainInteger_eq_ok_iff limits _ _).2 ⟨negative, digits, rfl, h, hlength, rfl⟩

/-- What is loosened to a plain spelling is described by it. -/
theorem spells_of_loosened (text rest : List Char) (n : Int) (h : loosened text = some rest)
    (hplain : plainInteger limits rest = .ok n) : Spells limits text n := by
  rcases (plainInteger_eq_ok_iff limits rest n).1 hplain with
    ⟨negative, digits, rfl, hdigits, hlength, rfl⟩
  rcases exists_trimBlank text with ⟨before, after, htext, hbefore, hafter⟩
  -- A core and a fraction of the trimmed text are those of the text.
  have hspells : ∀ core fraction, Text.trimBlank text = core ++ fraction →
      ZeroFraction fraction → Signed core negative digits →
      Spells limits text (signedValue negative digits) := by
    intro core fraction htrim hfraction hcore
    rw [htrim] at htext
    exact ⟨before, core, fraction, after, negative, digits, htext, hbefore, hafter, hfraction,
      hcore, hlength, rfl⟩
  -- Behind a plus sign, or without a sign, the magnitude may hold a sign of its own.
  have hunsigned : ∀ magnitude sign, (sign = [] ∨ sign = ['+']) →
      Text.trimBlank text = sign ++ magnitude →
      loosenedMagnitude magnitude = some (plainText negative digits) →
      Spells limits text (signedValue negative digits) := by
    intro magnitude sign hsign htrim hmagnitude
    cases negative with
    | false =>
        rcases magnitude_of_loosenedMagnitude magnitude digits hmagnitude hdigits with
          ⟨core, fraction, rfl, hfraction, hcore⟩
        refine hspells (sign ++ core) fraction (by rw [htrim, List.append_assoc]) hfraction ?_
        rcases hsign with rfl | rfl
        · exact .bare hcore
        · exact .plus hcore
    | true =>
        rcases late_of_loosenedMagnitude magnitude digits hmagnitude hdigits with
          ⟨zeros, underscore, group, fraction, rfl, hfraction, hzeros, hunderscore, hgroup⟩
        refine hspells (sign ++ (zeros ++ '-' :: (underscore ++ group))) fraction
          (by rw [htrim]; simp only [List.append_assoc, List.cons_append]) hfraction ?_
        exact .late hsign hzeros hunderscore hgroup hdigits.first
  unfold loosened at h
  split at h
  · rename_i magnitude htrim
    rcases Option.map_eq_some_iff.1 h with ⟨rest, hrest, hcons⟩
    cases negative with
    | false =>
        -- A plain spelling without a sign does not start with one.
        simp only [plainText] at hcons
        rw [← hcons] at hdigits
        exact absurd (hdigits.digit '-' List.mem_cons_self) (by decide)
    | true =>
        simp only [plainText, List.cons.injEq, true_and] at hcons
        subst hcons
        rcases magnitude_of_loosenedMagnitude magnitude rest hrest hdigits with
          ⟨core, fraction, rfl, hfraction, hcore⟩
        exact hspells ('-' :: core) fraction htrim hfraction (.minus hcore)
  · rename_i magnitude htrim
    exact hunsigned magnitude ['+'] (Or.inr rfl) htrim h
  · exact hunsigned (Text.trimBlank text) [] (Or.inl rfl) rfl h

/-- A digit is not part of what follows the integer. -/
theorem takeWhile_behind (fraction after : List Char) (hfraction : ZeroFraction fraction)
    (hafter : ∀ c ∈ after, Text.isBlank c = true) :
    (fraction ++ after).takeWhile Char.isDigit = [] := by
  -- A fraction starts with a dot, and what is behind it with a blank.
  rcases hfraction with rfl | ⟨zeros, rfl, -⟩
  · cases after with
    | nil => rfl
    | cons c after =>
        refine List.takeWhile_cons_of_neg ?_
        intro hc
        have hblank := hafter c List.mem_cons_self
        rw [isBlank_of_digit c hc] at hblank
        exact Bool.false_ne_true hblank
  · rfl

/-- The digits in front of a group are no more than all of its digits. -/
theorem Grouped.length_takeWhile_le {text digits : List Char} (h : Grouped text digits)
    (behind : List Char) (hbehind : behind.takeWhile Char.isDigit = []) :
    ((text ++ behind).takeWhile Char.isDigit).length ≤ digits.length := by
  -- By induction on the group; the first underscore ends what is taken.
  induction h with
  | single digit =>
      rw [List.singleton_append, List.takeWhile_cons_of_pos digit, hbehind]
  | next digit rest ih =>
      rw [List.cons_append, List.takeWhile_cons_of_pos digit, List.length_cons, List.length_cons]
      exact Nat.succ_le_succ ih
  | underscore digit rest ih =>
      have hstop : ¬ (('_' : Char).isDigit = true) := by decide
      rw [List.cons_append, List.takeWhile_cons_of_pos digit, List.cons_append,
        List.takeWhile_cons_of_neg hstop, List.length_cons, List.length_cons, List.length_nil]
      omega

/-- What stands at the beginning of a magnitude that is described has no more
    digits than it. -/
theorem Magnitude.length_whole?_le {core digits behind first rest : List Char}
    (h : Magnitude core digits) (hbehind : behind.takeWhile Char.isDigit = [])
    (hwhole : Digits.whole? (core ++ behind) = some (first, rest)) :
    first.length ≤ digits.length := by
  -- What is behind the magnitude is no digit, so it ends the digits.
  cases h with
  | zero zeros last =>
      rcases zeros with ⟨more, rfl, -⟩
      cases hwhole
      exact Nat.le_refl _
  | number leading group first' =>
      rcases leading with rfl | ⟨more, rfl, -⟩
      · rcases group.head with ⟨c, rest, more, rfl, rfl, hc⟩
        have hzero : c ≠ '0' := by
          rintro rfl
          exact first' rfl
        rw [List.nil_append, List.cons_append, Digits.whole?, if_neg hzero, if_pos hc,
          Option.some.injEq, Digits.span, Prod.mk.injEq] at hwhole
        rw [← hwhole.1]
        exact group.length_takeWhile_le behind hbehind
      · -- A leading zero stands alone.
        cases hwhole
        rcases group.head with ⟨_, _, _, -, rfl, -⟩
        simp only [List.length_cons, List.length_nil]
        omega

theorem signedInteger_cases (negative : Bool) (text : List Char) (e : Violation)
    (h : signedInteger limits negative text = .error e) :
    e = .unreadableInteger ∨
      ∃ digits rest, Digits.whole? text = some (digits, rest) ∧
        maxTextDigits < limits.length negative digits := by
  -- There are no digits, too many of them, or something behind them.
  unfold signedInteger at h
  split at h
  · exact Or.inl (Except.error.inj h).symm
  · rename_i digits rest hwhole
    split at h
    · rename_i hlength
      exact Or.inr ⟨digits, rest, hwhole, hlength⟩
    split at h
    · exact Or.inl (Except.error.inj h).symm
    · cases h

theorem plainInteger_of_digit (c : Char) (text : List Char) (hc : c.isDigit = true) :
    plainInteger limits (c :: text) = signedInteger limits false (c :: text) := by
  rw [plainInteger]
  intro _ hcons
  rw [(List.cons.inj hcons).1] at hc
  exact absurd hc (by decide)

theorem plainInteger_of_not_digit (c : Char) (text : List Char) (hc : ¬ c.isDigit = true)
    (hminus : c ≠ '-') : plainInteger limits (c :: text) = .error .unreadableInteger := by
  have hzero : c ≠ '0' := by
    rintro rfl
    exact hc (by decide)
  rw [plainInteger, signedInteger, Digits.whole?, if_neg hzero, if_neg hc]
  intro _ hcons
  exact absurd (List.cons.inj hcons).1 hminus

/-- No text that is described is refused for the number of its digits. -/
theorem unreadable_of_spells (text : List Char) (n : Int) (e : Violation)
    (h : Spells limits text n) (herror : plainInteger limits text = .error e) :
    e = .unreadableInteger := by
  rcases h with
    ⟨before, core, fraction, after, negative, digits, rfl, hbefore, hafter, hfraction, hcore,
      hlength, -⟩
  have hother : ∀ c text, ¬ c.isDigit = true → c ≠ '-' →
      plainInteger limits (c :: text) = .error e → e = .unreadableInteger := by
    intro c text hc hminus hplain
    rw [plainInteger_of_not_digit limits c text hc hminus, Except.error.injEq] at hplain
    exact hplain.symm
  cases before with
  | cons c before =>
      -- A blank is neither a digit nor a sign.
      have hblank := hbefore c List.mem_cons_self
      refine hother c _ ?_ ?_ herror
      · intro hc
        rw [isBlank_of_digit c hc] at hblank
        exact Bool.false_ne_true hblank
      · rintro rfl
        exact absurd hblank (by decide)
  | nil =>
      rw [List.nil_append, List.append_assoc] at herror
      have hbehind := takeWhile_behind fraction after hfraction hafter
      -- The digits that count are those of the core.
      have hshort : ∀ text, Magnitude text digits →
          signedInteger limits negative (text ++ (fraction ++ after)) = .error e →
          e = .unreadableInteger := by
        intro text hmagnitude hsigned
        rcases signedInteger_cases limits negative _ e hsigned with
          hunreadable | ⟨first, rest, hwhole, hlong⟩
        · exact hunreadable
        · have hle := hmagnitude.length_whole?_le hbehind hwhole
          unfold Limits.length at hlength hlong
          omega
      cases hcore with
      | bare magnitude =>
          refine hshort core magnitude ?_
          rcases magnitude.head with ⟨c, rest, rfl, hc⟩
          rwa [List.cons_append, plainInteger_of_digit limits c _ hc] at herror
      | plus magnitude => exact hother '+' _ (by decide) (by decide) herror
      | minus magnitude => exact hshort _ magnitude herror
      | late plus leading loose group first =>
          rcases plus with rfl | rfl
          · -- Of leading zeros only the first one is looked at.
            rcases leading with ⟨more, rfl, -⟩
            rw [List.nil_append, List.cons_append, List.cons_append,
              plainInteger_of_digit limits '0' _ (by decide)] at herror
            rcases signedInteger_cases limits false _ e herror with
              hunreadable | ⟨first, rest, hwhole, hlong⟩
            · exact hunreadable
            · cases hwhole
              rw [Limits.length, Bool.false_and] at hlong
              exact absurd hlong (by decide)
          · exact hother '+' _ (by decide) (by decide) herror

theorem magnitude_of_plain (digits : List Char) (h : Plain digits) : Magnitude digits digits := by
  rcases h.first with rfl | hfirst
  · exact .zero ⟨[], rfl, by simp only [List.not_mem_nil, false_implies, implies_true]⟩ rfl
  · have hnumber := Magnitude.number (Or.inl rfl) (grouped_self digits h.digit h.nonempty) hfirst
    rwa [List.nil_append] at hnumber

/-- A plain spelling is one of those described. -/
theorem spells_of_plain (text : List Char) (n : Int) (h : plainInteger limits text = .ok n) :
    Spells limits text n := by
  rcases (plainInteger_eq_ok_iff limits text n).1 h with ⟨negative, digits, rfl, hdigits, hlength, rfl⟩
  have hmagnitude := magnitude_of_plain digits hdigits
  have hnil : ∀ c ∈ ([] : List Char), Text.isBlank c = true := by
    simp only [List.not_mem_nil, false_implies, implies_true]
  refine ⟨[], plainText negative digits, [], [], negative, digits, ?_, hnil, hnil, Or.inl rfl, ?_,
    hlength, rfl⟩
  · rw [List.nil_append, List.append_nil, List.append_nil]
  · cases negative with
    | false => exact .bare hmagnitude
    | true => exact .minus hmagnitude

theorem loosened_of_spells (text : List Char) (n : Int) (h : Spells limits text n) :
    ∃ rest, loosened text = some rest ∧ plainInteger limits rest = .ok n := by
  rcases h with
    ⟨before, core, fraction, after, negative, digits, rfl, hbefore, hafter, hfraction, hcore,
      hlength, rfl⟩
  exact ⟨_, hcore.loosened hfraction before after hbefore hafter,
    plainInteger_plainText limits negative digits hcore.plain hlength⟩

/-- Reading a text gives an integer exactly if the text is described as a spelling
    of that integer. -/
theorem integerOfText_eq_ok_iff (text : List Char) (n : Int) :
    integerOfText limits text = .ok n ↔ Spells limits text n := by
  constructor
  · intro h
    -- A text is loosened if it is not the plain spelling of an integer.
    unfold integerOfText at h
    split at h
    · split at h
      · rename_i m hloosened
        rcases Option.map_eq_some_iff.1 hloosened with ⟨rest, hrest, hplain⟩
        rw [Except.ok.injEq] at h
        exact h ▸ spells_of_loosened limits text rest m hrest hplain
      · cases h
    · exact spells_of_plain limits text n h
  · intro h
    rcases loosened_of_spells limits text n h with ⟨rest, hrest, hplain⟩
    unfold integerOfText
    rcases htext : plainInteger limits text with e | m
    · rw [unreadable_of_spells limits text n e h htext]
      simp only [hrest, Option.map_some, hplain]
    · -- A plain spelling is loosened too, and to the same integer.
      rcases loosened_of_spells limits text m (spells_of_plain limits text m htext) with ⟨rest', hrest', hplain'⟩
      rw [hrest, Option.some.injEq] at hrest'
      rw [← hrest', hplain, Except.ok.injEq] at hplain'
      rw [hplain']

end Limited

end Document

end ClientPlan
