import ClientPlan.Json.Reader
import ClientPlan.Text.Newline

/-!
# Integers That Are Too Long

A text is refused for an integer with too many digits only if these digits stand in it.

The reader goes through a text once, so whatever it has left at some step is an end of
the text, and the digits of a number stand at the beginning of what is left. `Sound`
states this of a step: what it leaves is an end of its text, and if it ends with too
many digits, they are in its text. It holds of each step if it holds of the shorter
ones, and so of all of them by induction on the length of the text.

## Main definitions

* `LongRun`: Digits in a text, more of them than an integer may have.
* `Explained`: A trouble that the text is a reason for.
* `Leaves`, `Sound`: What is left is an end of the text, or the trouble is explained.

## Theorems

* `leaves_scanString`, `leaves_scanNumber`: A string and a number.
* `sound_scanValue`, `sound_scanItems`, `sound_scanEntries`: One step.
* `sound_scan`: All steps.
* `longRun_of_read`: The digits that a text is refused for.
* `longRun_of_unifyNewlines`: They stand in the text as it was.
-/

namespace ClientPlan

namespace Json

/-- As many digits stand next to each other in a text, and they are too many for an
    integer. -/
def LongRun (text : List Char) (n : Nat) : Prop :=
  maxDigits < n ∧ ∃ digits, digits <:+: text ∧ (∀ c ∈ digits, c.isDigit = true) ∧
    digits.length = n

theorem LongRun.of_suffix {rest text : List Char} {n : Nat} (h : LongRun rest n)
    (hrest : rest <:+ text) : LongRun text n := by
  rcases h with ⟨hlong, digits, hinfix, hdigits, hlength⟩
  exact ⟨hlong, digits, hinfix.trans hrest.isInfix, hdigits, hlength⟩

/-- Too many digits are only found where they are. -/
def Explained (text : List Char) : Trouble → Prop
  | .malformed _ _ => True
  | .tooManyDigits n => LongRun text n

theorem Explained.of_suffix {rest text : List Char} {t : Trouble} (h : Explained rest t)
    (hrest : rest <:+ text) : Explained text t := by
  cases t with
  | malformed expected left => trivial
  | tooManyDigits n => exact LongRun.of_suffix h hrest

/-- What is left is an end of the text, or the trouble is explained by the text. -/
def Leaves {α : Type} (text : List Char) : Except Trouble (α × List Char) → Prop
  | .ok (_, rest) => rest <:+ text
  | .error t => Explained text t

/-- The same of a step, which says besides that what is left is shorter. -/
def Sound {α : Type} {text : List Char} : Scan α text → Prop
  | .ok (_, rest) => rest.1 <:+ text
  | .error t => Explained text t

theorem Leaves.suffix {α : Type} {text rest : List Char} {x : α}
    {scanned : Except Trouble (α × List Char)} (h : Leaves text scanned)
    (hok : scanned = .ok (x, rest)) : rest <:+ text := by
  rw [hok] at h
  exact h

theorem Leaves.explained {α : Type} {text : List Char} {t : Trouble}
    {scanned : Except Trouble (α × List Char)} (h : Leaves text scanned)
    (herror : scanned = .error t) : Explained text t := by
  rw [herror] at h
  exact h

/-! ### Strings and numbers -/

theorem skipBlank_suffix (text : List Char) : skipBlank text <:+ text :=
  List.dropWhile_suffix isBlank

/-- What stands behind the first character that is no blank. -/
theorem suffix_of_skipBlank {text rest : List Char} {c : Char} (h : skipBlank text = c :: rest) :
    rest <:+ text :=
  (List.suffix_cons c rest).trans (h ▸ skipBlank_suffix text)

/-- A string leaves an end of the text, and nothing is wrong with it for the digits in it. -/
theorem leaves_scanString (start text : List Char) : Leaves text (scanString start text) := by
  -- Only three cases read on: an escaped unit, a short escape and a plain character.
  fun_induction scanString start text with
  | case1 => exact trivial
  | case2 rest => exact List.suffix_cons '"' rest
  | case3 a b c d e rest n hn ih =>
      have hrest : e :: rest <:+ '\\' :: 'u' :: a :: b :: c :: d :: e :: rest :=
        List.suffix_append ['\\', 'u', a, b, c, d] (e :: rest)
      rcases hscan : scanString start (e :: rest) with t | ⟨units, after⟩
      · exact (ih.explained hscan).of_suffix hrest
      · exact (ih.suffix hscan).trans hrest
  | case4 => exact trivial
  | case5 => exact trivial
  | case6 => exact trivial
  | case7 c rest _ _ x hx ih =>
      have hrest : rest <:+ '\\' :: c :: rest := List.suffix_append ['\\', c] rest
      rcases hscan : scanString start rest with t | ⟨units, after⟩
      · exact (ih.explained hscan).of_suffix hrest
      · exact (ih.suffix hscan).trans hrest
  | case8 => exact trivial
  | case9 => exact trivial
  | case10 c rest _ _ _ _ _ hc ih =>
      have hrest : rest <:+ c :: rest := List.suffix_cons c rest
      rcases hscan : scanString start rest with t | ⟨units, after⟩
      · exact (ih.explained hscan).of_suffix hrest
      · exact (ih.suffix hscan).trans hrest

/-- A whole number is digits, and what follows them. -/
theorem append_of_whole? {text digits rest : List Char}
    (h : Digits.whole? text = some (digits, rest)) :
    digits ++ rest = text ∧ ∀ c ∈ digits, c.isDigit = true := by
  cases text with
  | nil => cases h
  | cons c text =>
      simp only [Digits.whole?] at h
      split at h
      · -- A zero stands alone.
        rename_i hzero
        cases h
        refine ⟨by rw [hzero, List.singleton_append], ?_⟩
        exact List.forall_mem_singleton.2 rfl
      · split at h
        · cases h
          exact ⟨Digits.append_span (c :: text), List.all_eq_true.1 List.all_takeWhile⟩
        · cases h

theorem suffix_scanFraction (text : List Char) : (scanFraction text).2 <:+ text := by
  unfold scanFraction
  split
  · rename_i rest
    split
    · exact List.suffix_rfl
    · rename_i digits after _ hspan
      have hafter : after = rest.dropWhile Char.isDigit := (congrArg Prod.snd hspan).symm
      rw [hafter]
      exact (List.dropWhile_suffix _).trans (List.suffix_cons '.' rest)
  · exact List.suffix_rfl

theorem suffix_scanSign (text : List Char) : (scanSign text).2 <:+ text := by
  unfold scanSign
  split
  · exact List.suffix_cons _ _
  · exact List.suffix_cons _ _
  · exact List.suffix_rfl

theorem suffix_scanExponent (text : List Char) : (scanExponent text).2 <:+ text := by
  unfold scanExponent
  split
  · exact List.suffix_rfl
  · rename_i c rest
    split
    · -- Without digits behind the sign there is no exponent, and nothing has been read.
      have hsign := suffix_scanSign rest
      rcases hs : scanSign rest with ⟨negative, digits⟩
      rw [hs] at hsign
      simp only
      split
      · exact List.suffix_rfl
      · rename_i run after _ hspan
        have hafter : after = digits.dropWhile Char.isDigit := (congrArg Prod.snd hspan).symm
        rw [hafter]
        exact (List.dropWhile_suffix _).trans (hsign.trans (List.suffix_cons c rest))
    · exact List.suffix_rfl

/-- A number leaves an end of the text, or it has too many digits at the beginning. -/
theorem leaves_scanMagnitude (negative : Bool) (start text : List Char) :
    Leaves text (scanMagnitude negative start text) := by
  unfold scanMagnitude
  rcases hwhole : Digits.whole? text with _ | ⟨whole, rest⟩
  · exact trivial
  rcases append_of_whole? hwhole with ⟨happend, hdigits⟩
  have hrest : rest <:+ text := ⟨whole, happend⟩
  have hfraction := suffix_scanFraction rest
  have hexponent := suffix_scanExponent (scanFraction rest).2
  simp only
  split
  · split
    · -- The digits are counted only here, and they stand where the number begins.
      rename_i hlong
      refine ⟨hlong, whole, ?_, hdigits, rfl⟩
      rw [← happend]
      exact (List.prefix_append whole rest).isInfix
    · exact hexponent.trans (hfraction.trans hrest)
  · exact hexponent.trans (hfraction.trans hrest)

theorem leaves_scanNumber (text : List Char) : Leaves text (scanNumber text) := by
  unfold scanNumber
  split
  · exact List.suffix_append "-Infinity".toList _
  · exact List.suffix_append "Infinity".toList _
  · exact List.suffix_append "NaN".toList _
  · -- The text of a negative number starts at its sign.
    rename_i rest _
    have hleaves := leaves_scanMagnitude true ('-' :: rest) rest
    have hcons : rest <:+ '-' :: rest := List.suffix_cons '-' rest
    rcases hscan : scanMagnitude true ('-' :: rest) rest with t | ⟨number, after⟩
    · exact (hleaves.explained hscan).of_suffix hcons
    · exact (hleaves.suffix hscan).trans hcons
  · exact leaves_scanMagnitude false _ _

/-! ### Values -/

theorem length_lt_of_suffix_cons {c : Char} {rest text : List Char} (h : c :: rest <:+ text) :
    rest.length < text.length :=
  Nat.lt_of_lt_of_le (Nat.lt_add_one _) h.length_le

/-- A value, if the items and the entries of shorter texts are read soundly. -/
theorem sound_scanValue (text : List Char)
    (hitems : ∀ rest : List Char, rest.length < text.length → Sound (scanItems rest))
    (hentries : ∀ rest : List Char, rest.length < text.length → Sound (scanEntries rest)) :
    Sound (scanValue text) := by
  rw [scanValue.eq_def]
  -- The first character decides; arrays and objects are read on behind their blanks.
  split
  · rename_i rest
    have hcons : rest <:+ '"' :: rest := List.suffix_cons '"' rest
    split
    · rename_i h
      exact ((leaves_scanString _ rest).explained h).of_suffix hcons
    · rename_i h
      exact ((leaves_scanString _ rest).suffix h).trans hcons
  · rename_i rest
    have hskip : skipBlank rest <:+ '[' :: rest :=
      (skipBlank_suffix rest).trans (List.suffix_cons '[' rest)
    have hlt : (skipBlank rest).length < ('[' :: rest).length :=
      Nat.lt_succ_of_le (length_skipBlank_le rest)
    split
    · rename_i h
      exact (suffix_of_skipBlank h).trans (List.suffix_cons '[' rest)
    · have hsound := hitems (skipBlank rest) hlt
      rcases hscan : scanItems (skipBlank rest) with t | ⟨values, after⟩
      · rw [hscan] at hsound
        exact Explained.of_suffix hsound hskip
      · rw [hscan] at hsound
        exact List.IsSuffix.trans hsound hskip
  · rename_i rest
    have hskip : skipBlank rest <:+ '\x7b' :: rest :=
      (skipBlank_suffix rest).trans (List.suffix_cons '\x7b' rest)
    have hlt : (skipBlank rest).length < ('\x7b' :: rest).length :=
      Nat.lt_succ_of_le (length_skipBlank_le rest)
    split
    · rename_i h
      exact (suffix_of_skipBlank h).trans (List.suffix_cons '\x7b' rest)
    · have hsound := hentries (skipBlank rest) hlt
      rcases hscan : scanEntries (skipBlank rest) with t | ⟨values, after⟩
      · rw [hscan] at hsound
        exact Explained.of_suffix hsound hskip
      · rw [hscan] at hsound
        exact List.IsSuffix.trans hsound hskip
  · exact List.suffix_append ['n', 'u', 'l', 'l'] _
  · exact List.suffix_append ['t', 'r', 'u', 'e'] _
  · exact List.suffix_append ['f', 'a', 'l', 's', 'e'] _
  · split
    · rename_i h
      exact (leaves_scanNumber _).explained h
    · rename_i h
      exact (leaves_scanNumber _).suffix h

/-- Items, if their first value and those of shorter texts are read soundly. -/
theorem sound_scanItems (text : List Char) (hvalue : Sound (scanValue text))
    (hitems : ∀ rest : List Char, rest.length < text.length → Sound (scanItems rest)) :
    Sound (scanItems text) := by
  rw [scanItems]
  rcases hscan : scanValue text with t | ⟨value, rest⟩
  · rw [hscan] at hvalue
    exact hvalue
  rw [hscan] at hvalue
  simp only
  split
  · rename_i h
    exact (suffix_of_skipBlank h).trans hvalue
  · -- Behind a comma the text is shorter.
    rename_i more h
    have hmore : skipBlank more <:+ text :=
      (skipBlank_suffix more).trans ((suffix_of_skipBlank h).trans hvalue)
    have hlt : (skipBlank more).length < text.length := by
      have hcomma : ',' :: more <:+ text := h ▸ (skipBlank_suffix rest.1).trans hvalue
      exact Nat.lt_of_le_of_lt (length_skipBlank_le more) (length_lt_of_suffix_cons hcomma)
    have hsound := hitems (skipBlank more) hlt
    rcases hscan' : scanItems (skipBlank more) with t | ⟨values, after⟩
    · rw [hscan'] at hsound
      exact Explained.of_suffix hsound hmore
    · rw [hscan'] at hsound
      exact List.IsSuffix.trans hsound hmore
  · exact trivial

/-- Entries, if the values and the entries of shorter texts are read soundly. -/
theorem sound_scanEntries (text : List Char)
    (hvalue : ∀ rest : List Char, rest.length < text.length → Sound (scanValue rest))
    (hentries : ∀ rest : List Char, rest.length < text.length → Sound (scanEntries rest)) :
    Sound (scanEntries text) := by
  rw [scanEntries.eq_def]
  split
  · rename_i name
    have hname : name <:+ '"' :: name := List.suffix_cons '"' name
    split
    · rename_i h
      exact ((leaves_scanString _ name).explained h).of_suffix hname
    rename_i units afterName h
    have hafterName : afterName <:+ name := (leaves_scanString _ name).suffix h
    split
    · rename_i afterColon hcolon
      have hskip : skipBlank afterColon <:+ name :=
        (skipBlank_suffix afterColon).trans ((suffix_of_skipBlank hcolon).trans hafterName)
      -- The value begins behind the name, so its text is shorter, and so is all behind it.
      have hsound := hvalue (skipBlank afterColon) (Nat.lt_succ_of_le hskip.length_le)
      rcases hscan : scanValue (skipBlank afterColon) with t | ⟨value, rest⟩
      · rw [hscan] at hsound
        exact Explained.of_suffix hsound (hskip.trans hname)
      rw [hscan] at hsound
      have hrest : rest.1 <:+ name := List.IsSuffix.trans hsound hskip
      simp only
      split
      · rename_i h
        exact (suffix_of_skipBlank h).trans (hrest.trans hname)
      · rename_i more h
        have hmore : skipBlank more <:+ name :=
          (skipBlank_suffix more).trans ((suffix_of_skipBlank h).trans hrest)
        have hsound' := hentries (skipBlank more) (Nat.lt_succ_of_le hmore.length_le)
        rcases hscan' : scanEntries (skipBlank more) with t | ⟨entries, after⟩
        · rw [hscan'] at hsound'
          exact Explained.of_suffix hsound' (hmore.trans hname)
        · rw [hscan'] at hsound'
          exact List.IsSuffix.trans hsound' (hmore.trans hname)
      · exact trivial
    · exact trivial
  · exact trivial

theorem sound_scan (text : List Char) :
    Sound (scanValue text) ∧ Sound (scanItems text) ∧ Sound (scanEntries text) := by
  induction text using (measure List.length).wf.induction with
  | _ text ih =>
      have hitems : ∀ rest : List Char, rest.length < text.length → Sound (scanItems rest) :=
        fun rest hlt => (ih rest hlt).2.1
      have hentries : ∀ rest : List Char, rest.length < text.length → Sound (scanEntries rest) :=
        fun rest hlt => (ih rest hlt).2.2
      -- The items of a text begin with its value, so the value comes first.
      have hvalue : Sound (scanValue text) := sound_scanValue text hitems hentries
      exact ⟨hvalue, sound_scanItems text hvalue hitems,
        sound_scanEntries text (fun rest hlt => (ih rest hlt).1) hentries⟩

theorem explained_of_scanText (text : List Char) (t : Trouble) (h : scanText text = .error t) :
    Explained text t := by
  unfold scanText at h
  split at h
  · cases h
    trivial
  · -- Only the value itself can have too many digits.
    have hsound := (sound_scan (skipBlank text)).1
    split at h
    · rename_i hscan
      rw [hscan] at hsound
      cases h
      exact Explained.of_suffix hsound (skipBlank_suffix text)
    · split at h
      · cases h
      · cases h
        trivial

/-- A text that is refused for too many digits holds them. -/
theorem longRun_of_read (text : List Char) (n : Nat)
    (h : read text = .error (.tooManyDigits n)) : LongRun text n := by
  rw [read] at h
  rcases hscan : scanText text with t | value
  · have hexplained := explained_of_scanText text t hscan
    rw [hscan] at h
    cases t with
    | malformed expected left => cases h
    | tooManyDigits count =>
        cases h
        exact hexplained
  · rw [hscan] at h
    cases h

theorem eq_nil_of_prefix_cons (run rest : List Char) (c : Char) (hc : c ∉ run)
    (h : run <+: c :: rest) : run = [] := by
  cases run with
  | nil => rfl
  | cons d run =>
      rw [List.cons_prefix_cons] at h
      exact absurd (h.1 ▸ List.mem_cons_self) hc

/-- What stands at the beginning of a text with unified line ends, and holds no line end,
    has stood there before. -/
theorem prefix_of_unifyNewlines (run text : List Char) (hrun : '\n' ∉ run)
    (h : run <+: Text.unifyNewlines text) : run <+: text := by
  -- Up to the first line end both texts are the same.
  fun_induction Text.unifyNewlines text generalizing run with
  | case1 => exact h
  | case2 text ih =>
      rw [eq_nil_of_prefix_cons run _ '\n' hrun h]
      exact List.nil_prefix
  | case3 text _ ih =>
      rw [eq_nil_of_prefix_cons run _ '\n' hrun h]
      exact List.nil_prefix
  | case4 c text _ _ ih =>
      cases run with
      | nil => exact List.nil_prefix
      | cons d run =>
          rw [List.cons_prefix_cons] at h ⊢
          exact ⟨h.1, ih run (fun hmem => hrun (List.mem_cons_of_mem d hmem)) h.2⟩

/-- The same of what stands anywhere in the text. -/
theorem infix_of_unifyNewlines (run text : List Char) (hrun : '\n' ∉ run)
    (h : run <:+: Text.unifyNewlines text) : run <:+: text := by
  fun_induction Text.unifyNewlines text with
  | case1 => exact h
  | case2 text ih =>
      -- It stands at the beginning, or further on.
      rcases List.infix_cons_iff.1 h with hstart | hinfix
      · rw [eq_nil_of_prefix_cons run _ '\n' hrun hstart]
        exact List.nil_infix
      · exact (ih hinfix).trans (List.suffix_append ['\r', '\n'] text).isInfix
  | case3 text _ ih =>
      rcases List.infix_cons_iff.1 h with hstart | hinfix
      · rw [eq_nil_of_prefix_cons run _ '\n' hrun hstart]
        exact List.nil_infix
      · exact (ih hinfix).trans (List.suffix_cons '\r' text).isInfix
  | case4 c text _ _ ih =>
      rcases List.infix_cons_iff.1 h with hstart | hinfix
      · cases run with
        | nil => exact List.nil_infix
        | cons d run =>
            rw [List.cons_prefix_cons] at hstart
            have hrest := prefix_of_unifyNewlines run text
              (fun hmem => hrun (List.mem_cons_of_mem d hmem)) hstart.2
            exact (List.cons_prefix_cons.2 ⟨hstart.1, hrest⟩).isInfix
      · exact (ih hinfix).trans (List.suffix_cons c text).isInfix

/-- Unifying line ends brings no digits together. -/
theorem longRun_of_unifyNewlines (text : List Char) (n : Nat)
    (h : LongRun (Text.unifyNewlines text) n) : LongRun text n := by
  rcases h with ⟨hlong, digits, hinfix, hdigits, hlength⟩
  have hline : '\n' ∉ digits := fun hmem => absurd (hdigits _ hmem) (by decide)
  exact ⟨hlong, digits, infix_of_unifyNewlines digits text hline hinfix, hdigits, hlength⟩

end Json

end ClientPlan
