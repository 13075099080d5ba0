import ClientPlan.Json.Str
import ClientPlan.Number.Binary64

/-!
# JSON Values

The values of a JSON text.

Integers and numbers with a fraction or an exponent are kept apart, since `1`,
`1.0` and `true` are three different values to a reader of a document. An
object is the list of its entries in the order in which their names first
appear, and no name stands in it twice: `insert` replaces the value of a name
that is already there and leaves the entry in its place.

## Main definitions

* `Json`: The values.
* `Json.lookup`: The value of a name in a list of entries.
* `Json.insert`: A list of entries with one more value.
* `Json.ofEntries`: The object with some entries, the last one of a name
  counting.
* `Json.ofText`: The value of a text.
* `Json.ofOption`: The value of what may be absent.

## Theorems

* `Json.lookup_insert`: What stands under a name after a value was inserted.
* `Json.sizeOf_lt_of_lookup`: A value found under a name is smaller than the
  entries it was found in.
-/

namespace ClientPlan

/-- A JSON value. -/
inductive Json where
  | null
  | bool (value : Bool)
  | int (value : Int)
  | float (value : Binary64)
  | str (value : Json.Str)
  | arr (items : List Json)
  | obj (entries : List (Json.Str × Json))
  deriving Repr, Inhabited

namespace Json

mutual

/-- Equality of values is decided along their structure. -/
def decEq : (a b : Json) → Decidable (a = b)
  | .null, .null => isTrue rfl
  | .bool a, .bool b => decidable_of_iff (a = b) (by simp only [bool.injEq])
  | .int a, .int b => decidable_of_iff (a = b) (by simp only [int.injEq])
  | .float a, .float b => decidable_of_iff (a = b) (by simp only [float.injEq])
  | .str a, .str b => decidable_of_iff (a = b) (by simp only [str.injEq])
  | .arr a, .arr b =>
    match decEqItems a b with
    | isTrue h => isTrue (by rw [h])
    | isFalse h => isFalse (by simpa only [arr.injEq] using h)
  | .obj a, .obj b =>
    match decEqEntries a b with
    | isTrue h => isTrue (by rw [h])
    | isFalse h => isFalse (by simpa only [obj.injEq] using h)
  | .null, .bool _ | .null, .int _ | .null, .float _ | .null, .str _ | .null, .arr _
  | .null, .obj _ | .bool _, .null | .bool _, .int _ | .bool _, .float _ | .bool _, .str _
  | .bool _, .arr _ | .bool _, .obj _ | .int _, .null | .int _, .bool _ | .int _, .float _
  | .int _, .str _ | .int _, .arr _ | .int _, .obj _ | .float _, .null | .float _, .bool _
  | .float _, .int _ | .float _, .str _ | .float _, .arr _ | .float _, .obj _ | .str _, .null
  | .str _, .bool _ | .str _, .int _ | .str _, .float _ | .str _, .arr _ | .str _, .obj _
  | .arr _, .null | .arr _, .bool _ | .arr _, .int _ | .arr _, .float _ | .arr _, .str _
  | .arr _, .obj _ | .obj _, .null | .obj _, .bool _ | .obj _, .int _ | .obj _, .float _
  | .obj _, .str _ | .obj _, .arr _ => isFalse (by simp only [reduceCtorEq, not_false_eq_true])

/-- Equality of the items of two arrays. -/
def decEqItems : (a b : List Json) → Decidable (a = b)
  | [], [] => isTrue rfl
  | [], _ :: _ | _ :: _, [] => isFalse (by simp only [reduceCtorEq, not_false_eq_true])
  | x :: xs, y :: ys =>
    match decEq x y, decEqItems xs ys with
    | isTrue h, isTrue t => isTrue (by rw [h, t])
    | isFalse h, _ => isFalse fun e => h (List.cons.inj e).1
    | _, isFalse t => isFalse fun e => t (List.cons.inj e).2

/-- Equality of the entries of two objects. -/
def decEqEntries : (a b : List (Str × Json)) → Decidable (a = b)
  | [], [] => isTrue rfl
  | [], _ :: _ | _ :: _, [] => isFalse (by simp only [reduceCtorEq, not_false_eq_true])
  | x :: xs, y :: ys =>
    match decEqEntry x y, decEqEntries xs ys with
    | isTrue h, isTrue t => isTrue (by rw [h, t])
    | isFalse h, _ => isFalse fun e => h (List.cons.inj e).1
    | _, isFalse t => isFalse fun e => t (List.cons.inj e).2

/-- Equality of two entries. -/
def decEqEntry : (a b : Str × Json) → Decidable (a = b)
  | (k, x), (l, y) =>
    match decEq x y with
    | isTrue h => decidable_of_iff (k = l) (by simp only [h, Prod.mk.injEq, and_true])
    | isFalse h => isFalse fun e => h (Prod.mk.inj e).2

end

instance : DecidableEq Json := decEq

/-- The value of a name in a list of entries. -/
def lookup (name : Str) : List (Str × Json) → Option Json
  | [] => none
  | (k, v) :: entries => if k = name then some v else lookup name entries

/-- A list of entries with one more value. An entry of the same name keeps its
    place and takes the new value. -/
def insert (name : Str) (value : Json) : List (Str × Json) → List (Str × Json)
  | [] => [(name, value)]
  | (k, v) :: entries =>
    if k = name then (k, value) :: entries else (k, v) :: insert name value entries

/-- The object with some entries. The last value of a name counts. -/
def ofEntries (entries : List (Str × Json)) : Json :=
  .obj (entries.foldl (fun fields entry => insert entry.1 entry.2 fields) [])

/-- The value of a text. -/
def ofText (text : String) : Json :=
  .str (.text text)

/-- The value of what may be absent: null if it is. -/
def ofOption {α : Type} (f : α → Json) : Option α → Json
  | none => .null
  | some x => f x

theorem lookup_insert (k name : Str) (value : Json) (entries : List (Str × Json)) :
    lookup name (insert k value entries) =
      if k = name then some value else lookup name entries := by
  induction entries with
  | nil => simp only [insert, lookup]
  | cons entry entries ih =>
      rcases entry with ⟨l, w⟩
      by_cases hl : l = k
      · -- The entry takes the new value, and no later one can be meant.
        subst hl
        simp only [insert, lookup, if_true]
        split <;> rfl
      · simp only [insert, lookup, if_neg hl]
        rw [ih]
        by_cases hn : l = name
        · subst hn
          rw [if_pos rfl, if_neg (fun h => hl h.symm), if_pos rfl]
        · rw [if_neg hn, if_neg hn]

/-- A value found under a name is smaller than the entries it was found in, so
    a recursion may descend to it. -/
theorem sizeOf_lt_of_lookup {name : Str} {entries : List (Str × Json)} {v : Json}
    (h : lookup name entries = some v) : sizeOf v < sizeOf entries := by
  induction entries with
  | nil => simp only [lookup, reduceCtorEq] at h
  | cons entry entries ih =>
      rcases entry with ⟨k, w⟩
      simp only [lookup] at h
      split at h
      · cases h
        simp only [List.cons.sizeOf_spec, Prod.mk.sizeOf_spec]
        omega
      · have := ih h
        simp only [List.cons.sizeOf_spec]
        omega

end Json

end ClientPlan
