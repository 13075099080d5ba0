import ClientPlan.Document.Limits
import ClientPlan.Document.Problem

/-!
# Checks

The pieces from which the check of a document is put together.

A check takes a value to what it stands for, or to everything that is wrong
with it: `both` runs two checks whatever the first one says, so no problem
hides another. A field of an object may have two spellings, and the first one
is preferred where both are present. The checks of fields and items are handed
the proof that what they look at is smaller than what it was found in, which is
what a recursive check needs to descend. How far it descends is limited all the
same: some parts take a level, and one for which there is no room is refused
before anything is looked at in it.

## Main definitions

* `Checked`: A result, or all problems.
* `Field`: The spellings of an entry's name.
* `required`, `defaulted`: The value of a field.
* `object`, `tagged`, `listOf`, `nullable`: Checks of values by their shape.
* `checkString`, `checkWord`: Checks of strings.
* `within`: The check of a part that takes a level for itself.

## Theorems

* `Checked.both_eq_ok_iff`: Two checks succeed together if each of them does.
* `Checked.under_eq_ok_iff`: A location does not change a success.
-/

namespace ClientPlan

namespace Document

/-- The result of a check, or all problems it found. -/
abbrev Checked (α : Type) := Except (List Problem) α

namespace Checked

/-- A value with one thing wrong with it as a whole. -/
def refuse {α : Type} (violation : Violation) : Checked α :=
  .error [⟨[], violation⟩]

/-- A check as it is seen from one step further out. -/
def under {α : Type} (step : Step) (c : Checked α) : Checked α :=
  c.mapError (·.map (Problem.under step))

/-- Two results, or the problems of both. -/
def both {α β : Type} (a : Checked α) (b : Checked β) : Checked (α × β) :=
  match a, b with
  | .ok x, .ok y => .ok (x, y)
  | .ok _, .error q => .error q
  | .error p, .ok _ => .error p
  | .error p, .error q => .error (p ++ q)

end Checked

namespace Checked

theorem both_eq_ok_iff {α β : Type} (a : Checked α) (b : Checked β) (x : α) (y : β) :
    a.both b = .ok (x, y) ↔ a = .ok x ∧ b = .ok y := by
  rcases a with p | u
  · rcases b with q | v
    · simp only [both, reduceCtorEq, false_and]
    · simp only [both, reduceCtorEq, false_and]
  · rcases b with q | v
    · simp only [both, reduceCtorEq, and_false]
    · simp only [both, Except.ok.injEq, Prod.mk.injEq]

theorem under_eq_ok_iff {α : Type} (step : Step) (c : Checked α) (x : α) :
    c.under step = .ok x ↔ c = .ok x := by
  rcases c with p | u
  · constructor
    · intro h
      cases h
    · intro h
      cases h
  · exact Iff.rfl

end Checked

/-- The spellings of an entry's name. -/
structure Field where
  /-- The preferred spelling, which also names the entry where it is missing. -/
  name : String
  /-- The spelling that is accepted in its place. -/
  alternative : String
  deriving DecidableEq, Repr

/-- A field with one spelling. -/
def Field.plain (name : String) : Field := ⟨name, name⟩

/-- The spelling under which a field is present in some entries, with its
    value. -/
def Field.find? (f : Field) (entries : List (Json.Str × Json)) : Option (String × Json) :=
  match Json.lookup f.name entries with
  | some value => some (f.name, value)
  | none =>
    match Json.lookup f.alternative entries with
    | some value => some (f.alternative, value)
    | none => none

theorem Field.sizeOf_lt_of_find {f : Field} {entries : List (Json.Str × Json)} {name : String}
    {value : Json} (h : f.find? entries = some (name, value)) :
    sizeOf value < sizeOf entries := by
  unfold Field.find? at h
  split at h
  · rename_i hv
    cases h
    exact Json.sizeOf_lt_of_lookup hv
  · split at h
    · rename_i hv
      cases h
      exact Json.sizeOf_lt_of_lookup hv
    · cases h

/-- The value of a field, or what the field stands for where it is absent. -/
def field {α : Type} (f : Field) (absent : Checked α) (entries : List (Json.Str × Json))
    (check : (value : Json) → sizeOf value < sizeOf entries → Checked α) : Checked α :=
  match h : f.find? entries with
  | none => absent
  | some (name, value) => (check value (Field.sizeOf_lt_of_find h)).under (.entry name)

/-- The value of a field that has to be present. -/
def required {α : Type} (f : Field) (entries : List (Json.Str × Json))
    (check : (value : Json) → sizeOf value < sizeOf entries → Checked α) : Checked α :=
  field f (Checked.under (.entry f.name) (.refuse .missing)) entries check

/-- The value of a field that may be absent. -/
def defaulted {α : Type} (f : Field) (default : α) (entries : List (Json.Str × Json))
    (check : (value : Json) → sizeOf value < sizeOf entries → Checked α) : Checked α :=
  field f (.ok default) entries check

/-- An object, checked by its entries. -/
def object {α : Type} (part : Part) (value : Json)
    (check : (entries : List (Json.Str × Json)) → sizeOf entries < sizeOf value → Checked α) :
    Checked α :=
  match value with
  | .obj entries => check entries (by simp only [Json.obj.sizeOf_spec]; omega)
  | _ => .refuse (.noObject part)

/-- The name of the entry that holds the tag of an object. -/
def tagEntry : String := "type"

/-- The choice that a tag stands for. -/
def choice? {τ : Type} (choices : List τ) (word : τ → String) : Json → Option τ
  | .str (.text value) => choices.find? fun choice => word choice = value
  | _ => none

/-- An object that says by a tag which of some choices it is, checked by its
    entries for that choice. -/
def tagged {τ α : Type} (choices : List τ) (word : τ → String) (value : Json)
    (check : (entries : List (Json.Str × Json)) → sizeOf entries < sizeOf value → τ →
      Checked α) : Checked α :=
  match value with
  | .obj entries =>
    match Json.lookup tagEntry entries with
    | none => .refuse .tagMissing
    | some tag =>
      match choice? choices word tag with
      | none => .refuse (.tagUnknown tag.display (choices.map word))
      | some choice =>
        (check entries (by simp only [Json.obj.sizeOf_spec]; omega) choice).under
          (.tag (word choice))
  | _ => .refuse .noTagged

/-- A value or null. -/
def nullable {α : Type} (value : Json) (check : Json → Checked α) : Checked (Option α) :=
  match value with
  | .null => .ok none
  | value => (check value).map some

/-- Items checked one by one, from a given position on. -/
def itemsFrom {α : Type} (check : Json → Checked α) : Nat → List Json → Checked (List α)
  | _, [] => .ok []
  | position, value :: values =>
    (((check value).under (.item position)).both (itemsFrom check (position + 1) values)).map
      fun (x, xs) => x :: xs

/-- An array, checked item by item. -/
def listOf {α : Type} (check : Json → Checked α) : Json → Checked (List α)
  | .arr items => itemsFrom check 0 items
  | _ => .refuse .noList

/-- The check of a part that takes a level for itself. What is inside the part has the
    room that is left. -/
def within {α : Type} (room : Room) (check : Room → Checked α) : Checked α :=
  match room.take? with
  | none => .refuse .tooDeep
  | some left => check left

/-- A string. One that is no text is taken for what is shown in its place, because names
    are text from here on. -/
def checkString : Json → Checked String
  | .str s => .ok s.shown
  | _ => .refuse .noString

/-- What is wrong with a value that is none of some words. -/
def noWord (words : List String) : Json → Violation
  | .str (.broken _) => .noText
  | _ => .noMember words

/-- One of some words. -/
def checkWord {τ : Type} (choices : List τ) (word : τ → String) (value : Json) : Checked τ :=
  match choice? choices word value with
  | some choice => .ok choice
  | none => .refuse (noWord (choices.map word) value)

end Document

end ClientPlan
