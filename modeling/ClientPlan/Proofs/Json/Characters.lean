import ClientPlan.Proofs.Json.Values
import ClientPlan.Proofs.Text.Ascii

/-!
# The Characters of a JSON Text

A plain value is written with printable ASCII characters and line feeds.

Only a string could bring another character into the text, and there it is escaped. So
the lemmas follow the writer from the digits of an escape up to the lines of a value.

## Theorems

* `ascii_escapeUnit`: The escape of a number.
* `ascii_escapeChar`: A character of a string, whether it is escaped or not.
* `ascii_renderAt`: A value.
-/

namespace ClientPlan

namespace Json

open Text (IsAscii)

theorem ascii_append {a b : List Char} (ha : ∀ c ∈ a, IsAscii c) (hb : ∀ c ∈ b, IsAscii c) :
    ∀ c ∈ a ++ b, IsAscii c :=
  List.forall_mem_append.2 ⟨ha, hb⟩

theorem ascii_cons {c : Char} {text : List Char} (hc : IsAscii c) (h : ∀ c ∈ text, IsAscii c) :
    ∀ d ∈ c :: text, IsAscii d :=
  List.forall_mem_cons.2 ⟨hc, h⟩

theorem ascii_nil : ∀ c ∈ ([] : List Char), IsAscii c :=
  fun _ h => absurd h List.not_mem_nil

theorem ascii_word (text : List Char) (h : text.all (fun c => decide (IsAscii c)) = true) :
    ∀ c ∈ text, IsAscii c :=
  fun c hc => of_decide_eq_true (List.all_eq_true.1 h c hc)

theorem isAscii_hexDigit : ∀ n < 16, IsAscii (Text.hexDigit n) := by
  decide

theorem ascii_hexDigits (width : Nat) : ∀ n, ∀ c ∈ Text.hexDigits width n, IsAscii c := by
  induction width with
  | zero => exact fun _ => ascii_nil
  | succ width ih =>
      intro n
      rw [Text.hexDigits]
      refine ascii_append (ih (n / 16)) (ascii_cons ?_ ascii_nil)
      exact isAscii_hexDigit (n % 16) (Nat.mod_lt n (by omega))

theorem ascii_escapeUnit (n : Nat) : ∀ c ∈ escapeUnit n, IsAscii c :=
  ascii_cons (by decide) (ascii_cons (by decide) (ascii_hexDigits 4 n))

/-- Whatever is no printable ASCII character is escaped. -/
theorem ascii_escapeChar (c : Char) : ∀ d ∈ escapeChar c, IsAscii d := by
  unfold escapeChar
  -- Seven short escapes, a printable character, or one or two units.
  split
  · exact ascii_word _ (by decide)
  split
  · exact ascii_word _ (by decide)
  split
  · exact ascii_word _ (by decide)
  split
  · exact ascii_word _ (by decide)
  split
  · exact ascii_word _ (by decide)
  split
  · exact ascii_word _ (by decide)
  split
  · exact ascii_word _ (by decide)
  split
  · rename_i hprintable
    exact ascii_cons (Or.inr hprintable) ascii_nil
  split
  · exact ascii_escapeUnit c.toNat
  · exact ascii_append (ascii_escapeUnit _) (ascii_escapeUnit _)

theorem ascii_quote (s : String) : ∀ c ∈ quote (.text s), IsAscii c := by
  refine ascii_cons (by decide) (ascii_append ?_ (ascii_cons (by decide) ascii_nil))
  -- Between the quotes stand the characters as they are escaped.
  intro d hd
  rcases List.mem_flatMap.1 hd with ⟨c, -, hc⟩
  exact ascii_escapeChar c d hc

theorem ascii_newline (depth : Nat) : ∀ c ∈ newline depth, IsAscii c := by
  refine ascii_cons (by decide) ?_
  intro c hc
  rw [List.eq_of_mem_replicate hc]
  decide

theorem ascii_renderItems (depth : Nat) (items : List Json)
    (h : ∀ item ∈ items, ∀ c ∈ renderAt depth item, IsAscii c) :
    ∀ c ∈ renderItems depth items, IsAscii c := by
  induction items with
  | nil =>
      rw [renderItems]
      exact ascii_nil
  | cons item items ih =>
      rw [List.forall_mem_cons] at h
      rw [renderItems]
      exact ascii_cons (by decide) (ascii_append (ascii_append (ascii_newline depth) h.1) (ih h.2))

theorem ascii_renderEntry (depth : Nat) (name : String) (value : Json)
    (h : ∀ c ∈ renderAt depth value, IsAscii c) :
    ∀ c ∈ renderEntry depth (.text name, value), IsAscii c := by
  rw [renderEntry]
  exact ascii_append (ascii_quote name) (ascii_cons (by decide) (ascii_cons (by decide) h))

theorem ascii_renderEntries (depth : Nat) (entries : List (String × Json))
    (h : ∀ e ∈ entries, ∀ c ∈ renderAt depth e.2, IsAscii c) :
    ∀ c ∈ renderEntries depth (entries.map fun e => (.text e.1, e.2)), IsAscii c := by
  induction entries with
  | nil =>
      rw [List.map_nil, renderEntries]
      exact ascii_nil
  | cons entry entries ih =>
      rw [List.forall_mem_cons] at h
      rw [List.map_cons, renderEntries]
      exact ascii_cons (by decide) (ascii_append (ascii_append (ascii_newline depth)
        (ascii_renderEntry depth entry.1 entry.2 h.1)) (ih h.2))

/-- A plain value is written in ASCII. -/
theorem ascii_renderAt (value : Json) (h : Plain value) :
    ∀ depth, ∀ c ∈ renderAt depth value, IsAscii c := by
  -- By induction on the value, at any depth.
  induction h with
  | null =>
      intro depth
      rw [renderAt_null]
      exact ascii_word _ (by decide)
  | bool b =>
      intro depth
      cases b with
      | false =>
          rw [renderAt_false]
          exact ascii_word _ (by decide)
      | true =>
          rw [renderAt_true]
          exact ascii_word _ (by decide)
  | text s =>
      intro depth
      rw [renderAt]
      exact ascii_quote s
  | arr items hitems ih =>
      intro depth
      -- The brackets of an empty array stand side by side.
      cases items with
      | nil =>
          rw [renderAt]
          exact ascii_word _ (by decide)
      | cons item items =>
          rw [List.forall_mem_cons] at ih
          have hitem := ih.1 (depth + 1)
          have hrest := ascii_renderItems (depth + 1) items fun e he => ih.2 e he (depth + 1)
          rw [renderAt]
          exact ascii_cons (by decide) (ascii_append (ascii_append (ascii_append (ascii_append
            (ascii_newline _) hitem) hrest) (ascii_newline _)) (ascii_word _ (by decide)))
  | obj entries hnames hvalues ih =>
      intro depth
      cases entries with
      | nil =>
          rw [List.map_nil, renderAt]
          exact ascii_word _ (by decide)
      | cons entry entries =>
          rw [List.forall_mem_cons] at ih
          have hentry := ascii_renderEntry (depth + 1) entry.1 entry.2 (ih.1 (depth + 1))
          have hrest := ascii_renderEntries (depth + 1) entries fun e he => ih.2 e he (depth + 1)
          rw [List.map_cons, renderAt]
          exact ascii_cons (by decide) (ascii_append (ascii_append (ascii_append (ascii_append
            (ascii_newline _) hentry) hrest) (ascii_newline _)) (ascii_word _ (by decide)))

end Json

end ClientPlan
