import ClientPlan.Glob.Pattern

/-!
# Plain Endings of Patterns

A pattern that ends in characters which are none of the wildcards stands only for names
that end in the same characters.

The parts of a pattern are read from its beginning, so the ending could still be taken
for a part of something that was opened in front of it. Only a bracket opens anything,
and it is closed by another one, which the ending does not hold. So the last parts of
the pattern are the characters of the ending, one by one.

## Main definitions

* `IsPlain`: A character that stands for itself, wherever it is.

## Theorems

* `upToBracket_append`, `closed?_append`: Brackets are closed in front of the ending.
* `piecesWithin_append`: The parts of a pattern with a plain ending.
* `suffix_of_consistsOf`: What ends in exact characters.
* `suffix_of_fits`: Names that a pattern with a plain ending stands for.
-/

namespace ClientPlan

namespace Glob

/-- Whether a character of a pattern always stands for itself. -/
def IsPlain (c : Char) : Prop :=
  c ≠ '*' ∧ c ≠ '?' ∧ c ≠ '[' ∧ c ≠ ']'

instance (c : Char) : Decidable (IsPlain c) :=
  inferInstanceAs (Decidable (c ≠ '*' ∧ c ≠ '?' ∧ c ≠ '[' ∧ c ≠ ']'))

theorem upToBracket_of_notMem (text : List Char) (h : ']' ∉ text) : upToBracket text = none := by
  induction text with
  | nil => rfl
  | cons c text ih =>
      rw [List.mem_cons, not_or] at h
      rw [upToBracket, ih h.2, Option.map_none]
      rintro rfl
      exact h.1 rfl

theorem upToBracket_append (text ending inner after : List Char) (hending : ']' ∉ ending)
    (h : upToBracket (text ++ ending) = some (inner, after)) :
    ∃ rest, after = rest ++ ending ∧ rest.length ≤ text.length := by
  -- By induction on the text: the bracket is found in front of the ending, or nowhere.
  induction text generalizing inner with
  | nil =>
      rw [List.nil_append, upToBracket_of_notMem ending hending] at h
      cases h
  | cons c text ih =>
      rw [List.cons_append] at h
      by_cases hc : c = ']'
      · rw [hc, upToBracket, Option.some.injEq, Prod.mk.injEq] at h
        exact ⟨text, h.2.symm, Nat.le_succ _⟩
      · rw [upToBracket, Option.map_eq_some_iff] at h
        · rcases h with ⟨⟨inner', after'⟩, hsome, heq⟩
          rw [Prod.mk.injEq] at heq
          rcases ih inner' (by rw [hsome, heq.2]) with ⟨rest, hrest, hlength⟩
          exact ⟨rest, hrest, Nat.le_succ_of_le hlength⟩
        · exact hc

theorem closed?_cons (c : Char) (text : List Char) (hc : c ≠ '!') :
    closed? (c :: text) = (upToBracket text).map fun (inner, after) => (c :: inner, after) := by
  rw [closed?, if_neg hc]
  intro d rest heq
  exact absurd heq hc

theorem closed?_of_notMem (text : List Char) (h : ']' ∉ text) : closed? text = none := by
  cases text with
  | nil => rfl
  | cons c text =>
      rw [List.mem_cons, not_or] at h
      -- An exclamation mark in front is skipped, and then a bracket is looked for.
      by_cases hc : c = '!'
      · cases text with
        | nil =>
            rw [hc]
            rfl
        | cons d text =>
            rw [hc, closed?, upToBracket_of_notMem text fun hmem =>
              h.2 (List.mem_cons_of_mem d hmem), Option.map_none]
      · rw [closed?_cons c text hc, upToBracket_of_notMem text h.2, Option.map_none]

/-- A bracket that is opened in front of the ending is closed in front of it. -/
theorem closed?_append (text ending inner after : List Char) (hending : ']' ∉ ending)
    (h : closed? (text ++ ending) = some (inner, after)) :
    ∃ rest, after = rest ++ ending ∧ rest.length ≤ text.length := by
  -- Whatever stands in the first places, the rest is searched for a bracket.
  have hsearch : ∀ (text : List Char) (f : List Char → List Char),
      ((upToBracket (text ++ ending)).map fun (inner, after) => (f inner, after)) =
        some (inner, after) → ∃ rest, after = rest ++ ending ∧ rest.length ≤ text.length := by
    intro text f hmap
    rw [Option.map_eq_some_iff] at hmap
    rcases hmap with ⟨⟨inner', after'⟩, hsome, heq⟩
    rw [Prod.mk.injEq] at heq
    exact upToBracket_append text ending inner' after hending (by rw [hsome, heq.2])
  cases text with
  | nil =>
      rw [List.nil_append, closed?_of_notMem ending hending] at h
      cases h
  | cons c text =>
      by_cases hc : c = '!'
      · cases text with
        | nil =>
            have hnone : ']' ∉ [c] ++ ending := by
              rw [hc, List.singleton_append, List.mem_cons, not_or]
              exact ⟨by decide, hending⟩
            rw [closed?_of_notMem _ hnone] at h
            cases h
        | cons d text =>
            rw [hc, List.cons_append, List.cons_append, closed?] at h
            rcases hsearch text (fun inner => '!' :: d :: inner) h with ⟨rest, hrest, hlength⟩
            exact ⟨rest, hrest, Nat.le_trans hlength (Nat.le_add_right _ 2)⟩
      · rw [List.cons_append, closed?_cons c _ hc] at h
        rcases hsearch text (fun inner => c :: inner) h with ⟨rest, hrest, hlength⟩
        exact ⟨rest, hrest, Nat.le_succ_of_le hlength⟩

/-- The characters of a plain text are the parts of the pattern that it is. -/
theorem piecesWithin_of_plain (fuel : Nat) (text : List Char) (hfuel : text.length ≤ fuel)
    (h : ∀ c ∈ text, IsPlain c) : piecesWithin fuel text = text.map Piece.exactly := by
  induction text generalizing fuel with
  | nil => cases fuel <;> rfl
  | cons c text ih =>
      rw [List.forall_mem_cons] at h
      cases fuel with
      | zero => exact absurd hfuel (Nat.not_succ_le_zero _)
      | succ fuel =>
          rcases h with ⟨⟨hstar, hquestion, hbracket, -⟩, hrest⟩
          rw [piecesWithin, if_neg hstar, if_neg hquestion, if_neg hbracket,
            ih fuel (Nat.le_of_succ_le_succ hfuel) hrest, List.map_cons]

/-- The last parts of a pattern are the characters of its plain ending. -/
theorem piecesWithin_append (fuel : Nat) (text ending : List Char)
    (hfuel : (text ++ ending).length ≤ fuel) (h : ∀ c ∈ ending, IsPlain c) :
    ∃ front, piecesWithin fuel (text ++ ending) = front ++ ending.map Piece.exactly := by
  have hending : ']' ∉ ending := fun hmem => (h _ hmem).2.2.2 rfl
  induction fuel generalizing text with
  | zero =>
      rw [Nat.le_zero, List.length_eq_zero_iff, List.append_eq_nil_iff] at hfuel
      rw [hfuel.1, hfuel.2]
      exact ⟨[], rfl⟩
  | succ fuel ih =>
      cases text with
      | nil => exact ⟨[], piecesWithin_of_plain _ ending hfuel h⟩
      | cons c text =>
          rw [List.cons_append, List.length_cons, Nat.add_le_add_iff_right] at hfuel
          rcases ih text hfuel with ⟨front, hfront⟩
          -- Most characters are a part of their own.
          have hone : ∀ piece, ∃ parts,
              piece :: piecesWithin fuel (text ++ ending) =
                parts ++ ending.map Piece.exactly := fun piece =>
            ⟨piece :: front, by rw [hfront, List.cons_append]⟩
          rw [List.cons_append, piecesWithin]
          split
          · exact hone _
          split
          · exact hone _
          split
          · rcases hclosed : closed? (text ++ ending) with _ | ⟨inner, after⟩
            · exact hone _
            · rcases closed?_append text ending inner after hending hclosed with
                ⟨rest, rfl, hlength⟩
              rw [List.length_append] at hfuel
              rcases ih rest (by rw [List.length_append]; omega) with ⟨parts, hparts⟩
              exact ⟨bracket inner :: parts, by simp only [hparts, List.cons_append]⟩
          · exact hone _

theorem exists_of_someEnd (test : List Char → Bool) (text : List Char)
    (h : someEnd test text = true) : ∃ rest, rest <:+ text ∧ test rest = true := by
  induction text with
  | nil => exact ⟨[], List.suffix_rfl, h⟩
  | cons c text ih =>
      rw [someEnd, Bool.or_eq_true] at h
      rcases h with hwhole | hlater
      · exact ⟨c :: text, List.suffix_rfl, hwhole⟩
      · rcases ih hlater with ⟨rest, hrest, htest⟩
        exact ⟨rest, hrest.trans (List.suffix_cons c text), htest⟩

theorem consistsOf_exactly_cons (c d : Char) (pieces : List Piece) (text : List Char) :
    consistsOf (.exactly c :: pieces) (d :: text) =
      ((Piece.exactly c).holds d && consistsOf pieces text) :=
  rfl

theorem eq_of_consistsOf (ending text : List Char)
    (h : consistsOf (ending.map Piece.exactly) text = true) : text = ending := by
  induction ending generalizing text with
  | nil => exact List.isEmpty_iff.1 h
  | cons c ending ih =>
      cases text with
      | nil => cases h
      | cons d text =>
          rw [List.map_cons, consistsOf_exactly_cons, Bool.and_eq_true, Piece.holds,
            beq_iff_eq] at h
          rw [h.1, ih text h.2]

/-- What ends in exact characters stands for texts that end in them. -/
theorem suffix_of_consistsOf (pieces : List Piece) (ending text : List Char)
    (h : consistsOf (pieces ++ ending.map Piece.exactly) text = true) : ending <:+ text := by
  induction pieces generalizing text with
  | nil =>
      have htext := eq_of_consistsOf ending text h
      subst htext
      exact List.suffix_rfl
  | cons piece pieces ih =>
      rw [List.cons_append] at h
      by_cases hmany : piece = .many
      · rw [hmany, consistsOf] at h
        -- A star leaves some end of the text for the other pieces.
        rcases exists_of_someEnd _ text h with ⟨rest, hrest, htest⟩
        exact (ih rest htest).trans hrest
      · cases text with
        | nil =>
            rw [consistsOf] at h
            · cases h
            · exact hmany
        | cons c text =>
            rw [consistsOf, Bool.and_eq_true] at h
            · exact (ih text h.2).trans (List.suffix_cons c text)
            · exact hmany

/-- A name that a pattern with a plain ending stands for has the ending. -/
theorem suffix_of_fits (pattern ending name : List Char) (hplain : ∀ c ∈ ending, IsPlain c)
    (h : fits (pattern ++ ending) name = true) : ending <:+ name := by
  rw [fits_eq_consistsOf, pieces] at h
  rcases piecesWithin_append _ pattern ending (Nat.le_refl _) hplain with ⟨front, hfront⟩
  rw [hfront] at h
  exact suffix_of_consistsOf front ending name h

end Glob

end ClientPlan
