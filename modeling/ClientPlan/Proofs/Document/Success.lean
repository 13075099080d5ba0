import ClientPlan.Document.Checked

/-!
# Successful Checks

When the pieces of a check succeed, and with what.

A check is put together from a few pieces, and each of them has one statement
here that says what a success of it comes from. Whoever needs to know what a
check accepts cites these and leaves the pieces closed. The value of a field is
handed over together with the proof that it is smaller than the object, so the
statements about fields quantify over that proof.

## Theorems

* `Checked.map_eq_ok_iff`: A success behind a function comes from one before it.
* `required_eq_ok_iff`, `defaulted_eq_ok_iff`: The value of a field.
* `object_eq_ok_iff`: The entries of an object.
* `tagged_eq_ok_iff`: The tag of an object, and its entries for that choice.
* `nullable_eq_ok_iff`: A value or null.
* `itemsFrom_eq_ok_iff`, `listOf_eq_ok_iff`: The items of an array.
-/

namespace ClientPlan

namespace Document

theorem Checked.map_eq_ok_iff {α β : Type} (f : α → β) (c : Checked α) (y : β) :
    c.map f = .ok y ↔ ∃ x, c = .ok x ∧ f x = y := by
  rcases c with p | x
  · simp only [Except.map, reduceCtorEq, false_and, exists_false]
  · simp only [Except.map, Except.ok.injEq, exists_eq_left']

/-- A field stands for the value under the spelling that is found, or for what it
    stands for where it is absent. -/
theorem field_eq_ok_iff {α : Type} (f : Field) (absent : Checked α)
    (entries : List (Json.Str × Json))
    (check : (value : Json) → sizeOf value < sizeOf entries → Checked α) (x : α) :
    field f absent entries check = .ok x ↔
      (f.find? entries = none ∧ absent = .ok x) ∨
        ∃ name value, f.find? entries = some (name, value) ∧
          ∀ hlt, check value hlt = .ok x := by
  unfold field
  split
  · rename_i hnone
    simp only [hnone, true_and, reduceCtorEq, false_and, exists_false, or_false]
  · rename_i name value hsome
    rw [Checked.under_eq_ok_iff]
    simp only [hsome, reduceCtorEq, false_and, false_or, Option.some.injEq, Prod.mk.injEq]
    -- A success for one proof of the bound is a success for every proof.
    constructor
    · intro h
      exact ⟨name, value, ⟨rfl, rfl⟩, fun _ => h⟩
    · rintro ⟨_, _, ⟨rfl, rfl⟩, h⟩
      exact h _

theorem required_eq_ok_iff {α : Type} (f : Field) (entries : List (Json.Str × Json))
    (check : (value : Json) → sizeOf value < sizeOf entries → Checked α) (x : α) :
    required f entries check = .ok x ↔
      ∃ name value, f.find? entries = some (name, value) ∧ ∀ hlt, check value hlt = .ok x := by
  -- Where the field is absent there is no success.
  have habsent : ¬ (Checked.refuse .missing : Checked α).under (.entry f.name) = .ok x := by
    rw [Checked.under_eq_ok_iff]
    simp only [Checked.refuse, reduceCtorEq, not_false_eq_true]
  rw [required, field_eq_ok_iff]
  simp only [habsent, and_false, false_or]

theorem defaulted_eq_ok_iff {α : Type} (f : Field) (default : α)
    (entries : List (Json.Str × Json))
    (check : (value : Json) → sizeOf value < sizeOf entries → Checked α) (x : α) :
    defaulted f default entries check = .ok x ↔
      (f.find? entries = none ∧ default = x) ∨
        ∃ name value, f.find? entries = some (name, value) ∧
          ∀ hlt, check value hlt = .ok x := by
  rw [defaulted, field_eq_ok_iff]
  simp only [Except.ok.injEq]

theorem object_eq_ok_iff {α : Type} (part : Part) (value : Json)
    (check : (entries : List (Json.Str × Json)) → sizeOf entries < sizeOf value → Checked α)
    (x : α) :
    object part value check = .ok x ↔
      ∃ entries, value = .obj entries ∧ ∀ hlt, check entries hlt = .ok x := by
  cases value with
  | obj entries =>
      simp only [object, Json.obj.injEq, exists_eq_left']
      constructor
      · intro h _
        exact h
      · intro h
        exact h _
  | _ => simp only [object, Checked.refuse, reduceCtorEq, false_and, exists_false]

/-- A tagged object succeeds by its tag, and by its entries for that choice. -/
theorem tagged_eq_ok_iff {τ α : Type} (choices : List τ) (word : τ → String) (value : Json)
    (check : (entries : List (Json.Str × Json)) → sizeOf entries < sizeOf value → τ → Checked α)
    (x : α) :
    tagged choices word value check = .ok x ↔
      ∃ entries tag choice, value = .obj entries ∧ Json.lookup tagEntry entries = some tag ∧
        choice? choices word tag = some choice ∧ ∀ hlt, check entries hlt choice = .ok x := by
  cases value with
  | obj entries =>
      simp only [tagged, Json.obj.injEq, exists_and_left, exists_eq_left']
      rcases htag : Json.lookup tagEntry entries with _ | tag
      · simp only [Checked.refuse, reduceCtorEq, false_and, exists_false]
      · rcases hchoice : choice? choices word tag with _ | choice
        · simp only [Checked.refuse, reduceCtorEq, Option.some.injEq, exists_eq_left', hchoice,
            false_and, exists_false]
        · simp only [Checked.under_eq_ok_iff, Option.some.injEq, exists_eq_left', hchoice]
          constructor
          · intro h _
            exact h
          · intro h
            exact h _
  | _ => simp only [tagged, Checked.refuse, reduceCtorEq, false_and, exists_false]

theorem nullable_of_ne_null {α : Type} (value : Json) (check : Json → Checked α)
    (h : value ≠ .null) : nullable value check = (check value).map some := by
  unfold nullable
  split
  · exact absurd rfl h
  · rfl

theorem nullable_eq_ok_iff {α : Type} (value : Json) (check : Json → Checked α) (x : Option α) :
    nullable value check = .ok x ↔
      (value = .null ∧ x = none) ∨ (value ≠ .null ∧ ∃ y, check value = .ok y ∧ x = some y) := by
  by_cases hnull : value = .null
  · subst hnull
    simp only [nullable, Except.ok.injEq, true_and, ne_eq, not_true_eq_false, false_and, or_false,
      eq_comm]
  · rw [nullable_of_ne_null value check hnull, Checked.map_eq_ok_iff]
    simp only [hnull, false_and, ne_eq, not_false_eq_true, true_and, false_or, eq_comm]

/-- The items of an array are checked one by one, wherever they stand. -/
theorem itemsFrom_eq_ok_iff {α : Type} (check : Json → Checked α) (position : Nat)
    (values : List Json) (results : List α) :
    itemsFrom check position values = .ok results ↔
      values.map check = results.map Except.ok := by
  induction values generalizing position results with
  | nil =>
      simp only [itemsFrom, Except.ok.injEq, List.map_nil, List.nil_eq, List.map_eq_nil_iff]
  | cons value values ih =>
      simp only [itemsFrom, Checked.map_eq_ok_iff, Prod.exists, Checked.both_eq_ok_iff,
        Checked.under_eq_ok_iff, ih, List.map_cons]
      -- The position is part of the reports alone.
      constructor
      · rintro ⟨x, xs, ⟨hx, hxs⟩, rfl⟩
        rw [hx, hxs, List.map_cons]
      · intro h
        cases results with
        | nil => simp only [List.map_nil, reduceCtorEq] at h
        | cons x xs =>
            simp only [List.map_cons, List.cons.injEq] at h
            exact ⟨x, xs, h, rfl⟩

theorem listOf_eq_ok_iff {α : Type} (check : Json → Checked α) (value : Json)
    (results : List α) :
    listOf check value = .ok results ↔
      ∃ items, value = .arr items ∧ items.map check = results.map Except.ok := by
  cases value with
  | arr items => simp only [listOf, itemsFrom_eq_ok_iff, Json.arr.injEq, exists_eq_left']
  | _ => simp only [listOf, Checked.refuse, reduceCtorEq, false_and, exists_false]

end Document

end ClientPlan
