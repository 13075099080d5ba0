import ClientPlan.Document.OfJson
import ClientPlan.Proofs.Document.Success

/-!
# The Grammar of Documents

Which values stand for a document.

The grammar says of each part of a document what it looks like, without saying how
it is read: which fields an object needs, which ones may be absent, where null is
allowed, and which words a tag can be. A field has one or two spellings, and the
preferred one hides the other. Types are the only part that contains itself, so
theirs is the only inductive definition, with one production for each kind of
type. What is inside a type has less room than the type, so the grammar goes along
with the room that is left (`Within`).

A check reads a value if it says so with some result (`Checked.Reads`), and each
piece of a check reads what the corresponding piece of the grammar describes. The
two are therefore compared piece by piece, in the order of the definitions, and
only types need an induction, on the size of the value.

## Main definitions

* `Field.Holds`: A field has a value in some entries.
* `Has`, `MayHave`: A field that is needed, and one that may be absent.
* `Within`: A value that takes a level.
* `IsTypeName`, `IsType`, `IsLocation`, `IsArgument`, `IsAuth`, `IsEndpoint`,
  `IsService`: The parts of a document.
* `Content`, `LocationContent`: What stands behind a tag.
* `Checked.Reads`: A check succeeds.

## Theorems

* `reads_required_iff`, `reads_defaulted_iff`, `reads_object_iff`,
  `reads_nullable_iff`, `reads_listOf_iff`, `reads_checkWord_iff`: What the pieces
  of a check read.
* `isType_iff`, `isLocation_iff`: The productions, ordered by their tags.
* `reads_checkType_iff`: What the check of a type reads.
* `reads_checkEndpoint_iff`, `reads_checkService_iff`: The parts around types.
-/

namespace ClientPlan

namespace Document

/-- A field has a value in some entries: under its name, or under its other
    spelling if there is no entry of its name. -/
def Field.Holds (f : Field) (entries : List (Json.Str × Json)) (value : Json) : Prop :=
  Json.lookup f.name entries = some value ∨
    (Json.lookup f.name entries = none ∧ Json.lookup f.alternative entries = some value)

/-- A field that is needed has a value of the given kind. -/
def Has (f : Field) (kind : Json → Prop) (entries : List (Json.Str × Json)) : Prop :=
  ∃ value, f.Holds entries value ∧ kind value

/-- A field is absent or has a value of the given kind. -/
def MayHave (f : Field) (kind : Json → Prop) (entries : List (Json.Str × Json)) : Prop :=
  ∀ value, f.Holds entries value → kind value

/-- An object whose entries are as described. -/
def IsObject (fields : List (Json.Str × Json) → Prop) (value : Json) : Prop :=
  ∃ entries, value = .obj entries ∧ fields entries

/-- An array of values of the given kind. -/
def IsListOf (kind : Json → Prop) (value : Json) : Prop :=
  ∃ items, value = .arr items ∧ ∀ item ∈ items, kind item

/-- Null or a value of the given kind. -/
def OrNull (kind : Json → Prop) (value : Json) : Prop :=
  value = .null ∨ kind value

/-- A string, whatever it says. -/
def IsString (value : Json) : Prop :=
  ∃ s, value = .str s

/-- One of some words, letter by letter. -/
def IsWord (words : List String) (value : Json) : Prop :=
  ∃ word ∈ words, value = .str word

/-- Entries among which a word says what the object is. -/
def Tagged (word : String) (entries : List (Json.Str × Json)) : Prop :=
  Json.lookup tagEntry entries = some (.str word)

/-- A part that takes a level: there is room for it, and it is of the given kind with the
    room that is left. -/
def Within (kind : Room → Json → Prop) (room : Room) (value : Json) : Prop :=
  ∃ left, room.take? = some left ∧ kind left value

/-- A name, with a package that may be absent or null. It takes a level. -/
def IsTypeName : Room → Json → Prop :=
  Within fun _ => IsObject fun entries =>
    Has (.plain "name") IsString entries ∧ MayHave (.plain "package") (OrNull IsString) entries

/-- A type: an object that says by its tag which kind of type it is, and holds
    under a field of that name what such a type consists of. It takes a level, and
    the object around its items takes another one. -/
inductive IsType : Room → Json → Prop
  | primitive {room left : Room} {entries : List (Json.Str × Json)}
      (level : room.take? = some left) (tag : Tagged "primitive" entries)
      (content : Has (.plain "primitive") (IsWord (Primitive.all.map Primitive.wireName)) entries) :
      IsType room (.obj entries)
  | items {room outside left : Room} {entries inner : List (Json.Str × Json)}
      {category : Category} {item : Json} (level : room.take? = some outside)
      (wrapping : category ∈ [.optional, .list, .set]) (tag : Tagged category.word entries)
      (content : (Field.plain category.word).Holds entries (.obj inner))
      (itemLevel : outside.take? = some left)
      (holds : (Field.mk "itemType" "item_type").Holds inner item) (type : IsType left item) :
      IsType room (.obj entries)
  | map {room left : Room} {entries inner : List (Json.Str × Json)} {key value : Json}
      (level : room.take? = some left) (tag : Tagged "map" entries)
      (content : (Field.plain "map").Holds entries (.obj inner))
      (holdsKey : (Field.mk "keyType" "key_type").Holds inner key) (keyType : IsType left key)
      (holdsValue : (Field.mk "valueType" "value_type").Holds inner value)
      (valueType : IsType left value) :
      IsType room (.obj entries)
  | reference {room left : Room} {entries : List (Json.Str × Json)}
      (level : room.take? = some left) (tag : Tagged "reference" entries)
      (content : Has (.plain "reference") (IsTypeName left) entries) :
      IsType room (.obj entries)
  /-- A type that comes from elsewhere and has no fallback, or null in its place. -/
  | external {room left : Room} {entries inner : List (Json.Str × Json)}
      (level : room.take? = some left) (tag : Tagged "external" entries)
      (content : (Field.plain "external").Holds entries (.obj inner))
      (target : Has ⟨"externalReference", "external_reference"⟩ (IsTypeName left) inner)
      (absent : MayHave (.plain "fallback") (· = .null) inner) :
      IsType room (.obj entries)
  | externalOr {room left : Room} {entries inner : List (Json.Str × Json)} {fallback : Json}
      (level : room.take? = some left) (tag : Tagged "external" entries)
      (content : (Field.plain "external").Holds entries (.obj inner))
      (target : Has ⟨"externalReference", "external_reference"⟩ (IsTypeName left) inner)
      (holds : (Field.plain "fallback").Holds inner fallback) (type : IsType left fallback) :
      IsType room (.obj entries)

/-- The object that names a header or a query entry. -/
def IsParameter : Json → Prop :=
  IsObject (Has ⟨"paramId", "param_id"⟩ IsString)

/-- A location: an object that says by its tag which part of a request is meant.
    A header and a query entry are named; for the others there is nothing to say,
    but what is said has to be an object. -/
def IsLocation : Json → Prop :=
  IsObject fun entries =>
    (Tagged "body" entries ∧ MayHave (.plain "body") (IsObject fun _ => True) entries) ∨
      (Tagged "header" entries ∧ Has (.plain "header") IsParameter entries) ∨
      (Tagged "path" entries ∧ MayHave (.plain "path") (IsObject fun _ => True) entries) ∨
      (Tagged "query" entries ∧ Has (.plain "query") IsParameter entries)

/-- An argument: a name, a type and a location. -/
def IsArgument (room : Room) : Json → Prop :=
  IsObject fun entries =>
    Has ⟨"argName", "arg_name"⟩ IsString entries ∧ Has (.plain "type") (IsType room) entries ∧
      Has ⟨"paramType", "param_type"⟩ IsLocation entries

/-- A way of authentication. -/
def IsAuth : Json → Prop :=
  IsObject (Has (.plain "type") (IsWord ["header", "cookie"]))

/-- An endpoint. Only its name is needed; null is allowed where an endpoint can
    do without, and nowhere else. -/
def IsEndpoint (room : Room) : Json → Prop :=
  IsObject fun entries =>
    Has ⟨"endpointName", "endpoint_name"⟩ IsString entries ∧
      MayHave ⟨"httpMethod", "http_method"⟩ IsString entries ∧
      MayHave ⟨"httpPath", "http_path"⟩ IsString entries ∧
      MayHave (.plain "auth") (OrNull IsAuth) entries ∧
      MayHave (.plain "args") (IsListOf (IsArgument room)) entries ∧
      MayHave (.plain "returns") (OrNull (IsType room)) entries

/-- A service: a name, and endpoints if there are any. -/
def IsService (room : Room) : Json → Prop :=
  IsObject fun entries =>
    Has ⟨"serviceName", "service_name"⟩ (IsTypeName room) entries ∧
      MayHave (.plain "endpoints") (IsListOf (IsEndpoint room)) entries

/-- A check succeeds with some result. -/
def Checked.Reads {α : Type} (c : Checked α) : Prop :=
  ∃ x, c = .ok x

theorem Checked.reads_map_iff {α β : Type} (f : α → β) (c : Checked α) :
    Checked.Reads (c.map f) ↔ c.Reads := by
  simp only [Checked.Reads, Checked.map_eq_ok_iff]
  constructor
  · rintro ⟨_, x, hx, -⟩
    exact ⟨x, hx⟩
  · rintro ⟨x, hx⟩
    exact ⟨f x, x, hx, rfl⟩

theorem Checked.reads_both_iff {α β : Type} (a : Checked α) (b : Checked β) :
    (a.both b).Reads ↔ a.Reads ∧ b.Reads := by
  simp only [Checked.Reads, Prod.exists, Checked.both_eq_ok_iff, exists_and_left, exists_and_right]

/-- What is found of a field is the value that it has. -/
theorem find?_eq_some_iff_holds (f : Field) (entries : List (Json.Str × Json)) (value : Json) :
    (∃ name, f.find? entries = some (name, value)) ↔ f.Holds entries value := by
  unfold Field.find? Field.Holds
  rcases hname : Json.lookup f.name entries with _ | first
  · rcases hother : Json.lookup f.alternative entries with _ | second
    · simp only [reduceCtorEq, exists_false, and_false, or_self]
    · simp only [Option.some.injEq, Prod.mk.injEq, exists_and_right, exists_eq', true_and,
        reduceCtorEq, false_or]
  · simp only [Option.some.injEq, Prod.mk.injEq, exists_and_right, exists_eq', true_and,
      reduceCtorEq, false_and, or_false]

theorem find?_eq_none_iff_holds (f : Field) (entries : List (Json.Str × Json)) :
    f.find? entries = none ↔ ∀ value, ¬ f.Holds entries value := by
  simp only [← find?_eq_some_iff_holds]
  rcases f.find? entries with _ | ⟨name, value⟩
  · simp only [reduceCtorEq, exists_false, not_false_eq_true, implies_true]
  · simp only [reduceCtorEq, false_iff]
    exact fun h => h value ⟨name, rfl⟩

/-- A field has one value only. -/
theorem Field.Holds.unique {f : Field} {entries : List (Json.Str × Json)} {v w : Json}
    (hv : f.Holds entries v) (hw : f.Holds entries w) : v = w := by
  rcases (find?_eq_some_iff_holds f entries v).2 hv with ⟨name, hname⟩
  rcases (find?_eq_some_iff_holds f entries w).2 hw with ⟨name', hname'⟩
  rw [hname, Option.some.injEq, Prod.mk.injEq] at hname'
  exact hname'.2

theorem sizeOf_lt_of_holds {f : Field} {entries : List (Json.Str × Json)} {value : Json}
    (h : f.Holds entries value) : sizeOf value < sizeOf entries := by
  rcases (find?_eq_some_iff_holds f entries value).2 h with ⟨name, hname⟩
  exact Field.sizeOf_lt_of_find hname

theorem sizeOf_lt_obj (entries : List (Json.Str × Json)) :
    sizeOf entries < sizeOf (Json.obj entries) := by
  simp only [Json.obj.sizeOf_spec]
  omega

section Pieces

variable {α : Type} {kind : Json → Prop}

/-- The check of a needed field reads what the check of its value reads. -/
theorem reads_required_iff (f : Field) (entries : List (Json.Str × Json))
    (check : (value : Json) → sizeOf value < sizeOf entries → Checked α)
    (h : ∀ value hlt, (check value hlt).Reads ↔ kind value) :
    (required f entries check).Reads ↔ Has f kind entries := by
  simp only [Checked.Reads, required_eq_ok_iff]
  constructor
  · rintro ⟨x, name, value, hfind, hcheck⟩
    have hholds := (find?_eq_some_iff_holds f entries value).1 ⟨name, hfind⟩
    exact ⟨value, hholds, (h value (sizeOf_lt_of_holds hholds)).1 ⟨x, hcheck _⟩⟩
  · -- What the field holds is what is found.
    rintro ⟨value, hholds, hkind⟩
    rcases (find?_eq_some_iff_holds f entries value).2 hholds with ⟨name, hfind⟩
    rcases (h value (sizeOf_lt_of_holds hholds)).2 hkind with ⟨x, hx⟩
    exact ⟨x, name, value, hfind, fun _ => hx⟩

theorem reads_defaulted_iff (f : Field) (default : α) (entries : List (Json.Str × Json))
    (check : (value : Json) → sizeOf value < sizeOf entries → Checked α)
    (h : ∀ value hlt, (check value hlt).Reads ↔ kind value) :
    (defaulted f default entries check).Reads ↔ MayHave f kind entries := by
  simp only [Checked.Reads, defaulted_eq_ok_iff]
  constructor
  · rintro ⟨x, ⟨hnone, -⟩ | ⟨name, value, hfind, hcheck⟩⟩ v hv
    · exact absurd hv ((find?_eq_none_iff_holds f entries).1 hnone v)
    · -- The value that is found is the only one.
      rw [hv.unique ((find?_eq_some_iff_holds f entries value).1 ⟨name, hfind⟩)]
      exact (h value (Field.sizeOf_lt_of_find hfind)).1 ⟨x, hcheck _⟩
  · intro hmay
    -- A field that is not there is read as its default.
    rcases hfind : f.find? entries with _ | ⟨name, value⟩
    · exact ⟨default, Or.inl ⟨rfl, rfl⟩⟩
    · have hkind := hmay value ((find?_eq_some_iff_holds f entries value).1 ⟨name, hfind⟩)
      rcases (h value (Field.sizeOf_lt_of_find hfind)).2 hkind with ⟨x, hx⟩
      exact ⟨x, Or.inr ⟨name, value, rfl, fun _ => hx⟩⟩

theorem reads_object_iff {fields : List (Json.Str × Json) → Prop} (part : Part) (value : Json)
    (check : (entries : List (Json.Str × Json)) → sizeOf entries < sizeOf value → Checked α)
    (h : ∀ entries hlt, (check entries hlt).Reads ↔ fields entries) :
    (object part value check).Reads ↔ IsObject fields value := by
  simp only [Checked.Reads, object_eq_ok_iff, IsObject]
  constructor
  · rintro ⟨x, entries, rfl, hcheck⟩
    exact ⟨entries, rfl, (h entries (sizeOf_lt_obj entries)).1 ⟨x, hcheck _⟩⟩
  · rintro ⟨entries, rfl, hfields⟩
    rcases (h entries (sizeOf_lt_obj entries)).2 hfields with ⟨x, hx⟩
    exact ⟨x, entries, rfl, fun _ => hx⟩

/-- The check of a part that takes a level reads it where there is room for it. -/
theorem reads_within_iff {inside : Room → Prop} (room : Room) (check : Room → Checked α)
    (h : ∀ left, (check left).Reads ↔ inside left) :
    (within room check).Reads ↔ ∃ left, room.take? = some left ∧ inside left := by
  unfold within
  rcases room.take? with _ | left
  · simp only [Checked.Reads, Checked.refuse, reduceCtorEq, false_and, exists_false]
  · simp only [Option.some.injEq, exists_eq_left', h]

theorem reads_nullable_iff (value : Json) (check : Json → Checked α)
    (h : (check value).Reads ↔ kind value) : (nullable value check).Reads ↔ OrNull kind value := by
  rw [OrNull, ← h]
  simp only [Checked.Reads, nullable_eq_ok_iff]
  constructor
  · rintro ⟨x, ⟨hnull, -⟩ | ⟨-, y, hy, -⟩⟩
    · exact Or.inl hnull
    · exact Or.inr ⟨y, hy⟩
  · rintro (hnull | ⟨y, hy⟩)
    · exact ⟨none, Or.inl ⟨hnull, rfl⟩⟩
    · -- Null is taken for what is absent, even if the check would read it.
      by_cases hnull : value = .null
      · exact ⟨none, Or.inl ⟨hnull, rfl⟩⟩
      · exact ⟨some y, Or.inr ⟨hnull, y, hy, rfl⟩⟩

theorem reads_listOf_iff (value : Json) (check : Json → Checked α)
    (h : ∀ item, (check item).Reads ↔ kind item) :
    (listOf check value).Reads ↔ IsListOf kind value := by
  simp only [Checked.Reads, listOf_eq_ok_iff, IsListOf, ← h]
  constructor
  · rintro ⟨results, items, rfl, hmap⟩
    refine ⟨items, rfl, ?_⟩
    intro item hitem
    -- The result of each item stands among the results.
    have hmem : check item ∈ results.map Except.ok := by
      rw [← hmap]
      exact List.mem_map_of_mem hitem
    rcases List.mem_map.1 hmem with ⟨x, -, hx⟩
    exact ⟨x, hx.symm⟩
  · rintro ⟨items, rfl, hitems⟩
    induction items with
    | nil => exact ⟨[], [], rfl, rfl⟩
    | cons item items ih =>
        rcases hitems item List.mem_cons_self with ⟨x, hx⟩
        rcases ih fun i hi => hitems i (List.mem_cons_of_mem item hi) with
          ⟨results, _, hsame, hmap⟩
        rw [Json.arr.injEq] at hsame
        refine ⟨x :: results, item :: items, rfl, ?_⟩
        rw [List.map_cons, List.map_cons, hx, hsame, hmap]

end Pieces

theorem choice?_eq_some_iff {τ : Type} (choices : List τ) (word : τ → String)
    (hword : ∀ c ∈ choices, ∀ d ∈ choices, word c = word d → c = d) (tag : Json) (choice : τ) :
    choice? choices word tag = some choice ↔ choice ∈ choices ∧ tag = .str (word choice) := by
  unfold choice?
  split
  · rename_i value
    simp only [Json.str.injEq, Json.Str.text.injEq]
    constructor
    · intro h
      have hfound := List.find?_some h
      rw [decide_eq_true_eq] at hfound
      exact ⟨List.mem_of_find?_eq_some h, hfound.symm⟩
    · rintro ⟨hmem, rfl⟩
      rcases hfind : choices.find? (fun c => word c = word choice) with _ | other
      · have hnone := List.find?_eq_none.1 hfind choice hmem
        simp only [decide_true, not_true_eq_false] at hnone
      · -- No two choices share a word, so the one that is found is the one looked for.
        have hfound := List.find?_some hfind
        rw [decide_eq_true_eq] at hfound
        rw [hword other (List.mem_of_find?_eq_some hfind) choice hmem hfound]
  · rename_i hother
    simp only [reduceCtorEq, false_iff, not_and]
    rintro - rfl
    exact hother _ rfl

theorem reads_checkWord_iff {τ : Type} (choices : List τ) (word : τ → String) (value : Json)
    (hword : ∀ c ∈ choices, ∀ d ∈ choices, word c = word d → c = d) :
    (checkWord choices word value).Reads ↔ IsWord (choices.map word) value := by
  have hwords : IsWord (choices.map word) value ↔
      ∃ choice ∈ choices, value = .str (word choice) := by
    constructor
    · rintro ⟨_, hmem, hvalue⟩
      rcases List.mem_map.1 hmem with ⟨choice, hchoice, rfl⟩
      exact ⟨choice, hchoice, hvalue⟩
    · rintro ⟨choice, hchoice, hvalue⟩
      exact ⟨word choice, List.mem_map_of_mem hchoice, hvalue⟩
  -- A word is read exactly if there is a choice for it.
  simp only [hwords, ← choice?_eq_some_iff choices word hword]
  unfold checkWord
  rcases choice? choices word value with _ | choice
  · simp only [Checked.Reads, Checked.refuse, reduceCtorEq, exists_false]
  · simp only [Checked.Reads, Except.ok.injEq, Option.some.injEq, exists_eq']

/-- A tagged object is read if its entries are, for the choice that its tag stands
    for. -/
theorem reads_tagged_iff {τ α : Type} (fields : τ → List (Json.Str × Json) → Prop)
    (choices : List τ) (word : τ → String) (value : Json)
    (check : (entries : List (Json.Str × Json)) → sizeOf entries < sizeOf value → τ → Checked α)
    (hword : ∀ c ∈ choices, ∀ d ∈ choices, word c = word d → c = d)
    (h : ∀ entries hlt choice, (check entries hlt choice).Reads ↔ fields choice entries) :
    (tagged choices word value check).Reads ↔
      IsObject (fun entries => ∃ choice ∈ choices, Tagged (word choice) entries ∧
        fields choice entries) value := by
  simp only [Checked.Reads, tagged_eq_ok_iff, choice?_eq_some_iff choices word hword]
  constructor
  · rintro ⟨x, entries, tag, choice, rfl, htag, ⟨hmem, rfl⟩, hcheck⟩
    have hlt := sizeOf_lt_obj entries
    exact ⟨entries, rfl, choice, hmem, htag, (h entries hlt choice).1 ⟨x, hcheck hlt⟩⟩
  · rintro ⟨entries, rfl, choice, hmem, htag, hfields⟩
    rcases (h entries (sizeOf_lt_obj entries) choice).2 hfields with ⟨x, hx⟩
    exact ⟨x, entries, .str (word choice), choice, rfl, htag, ⟨hmem, rfl⟩, fun _ => hx⟩

theorem reads_checkString_iff (value : Json) : (checkString value).Reads ↔ IsString value := by
  cases value with
  | str s => exact ⟨fun _ => ⟨s, rfl⟩, fun _ => ⟨s.shown, rfl⟩⟩
  | _ => simp only [checkString, IsString, Checked.Reads, Checked.refuse, reduceCtorEq,
      exists_false]

theorem reads_checkTypeName_iff (room : Room) (value : Json) :
    (checkTypeName room value).Reads ↔ IsTypeName room value := by
  refine reads_within_iff room _ fun _ => ?_
  refine reads_object_iff .typeName value _ fun entries _ => ?_
  rw [Checked.reads_map_iff, Checked.reads_both_iff]
  refine and_congr ?_ ?_
  · exact reads_required_iff _ entries _ fun v _ => reads_checkString_iff v
  · exact reads_defaulted_iff _ _ entries _ fun v _ =>
      reads_nullable_iff v checkString (reads_checkString_iff v)

/-- An object around the type of some items. It takes a level. -/
def HasItem : Room → Json → Prop :=
  Within fun left => IsObject (Has itemField (IsType left))

/-- What stands behind the tag of a type, with the room that is left inside the type. -/
def Content (room : Room) : Category → List (Json.Str × Json) → Prop
  | .primitive => Has (.plain "primitive") (IsWord (Primitive.all.map Primitive.wireName))
  | .optional => Has (.plain "optional") (HasItem room)
  | .list => Has (.plain "list") (HasItem room)
  | .set => Has (.plain "set") (HasItem room)
  | .map =>
    Has (.plain "map")
      (IsObject fun inner => Has keyField (IsType room) inner ∧ Has valueField (IsType room) inner)
  | .reference => Has (.plain "reference") (IsTypeName room)
  | .external =>
    Has (.plain "external")
      (IsObject fun inner =>
        Has externalField (IsTypeName room) inner ∧
          MayHave (.plain "fallback") (OrNull (IsType room)) inner)

/-- The productions of types, ordered by their tags. -/
theorem isType_iff (room : Room) (value : Json) :
    IsType room value ↔
      IsObject (fun entries => ∃ category ∈ Category.all, Tagged category.word entries ∧
        ∃ left, room.take? = some left ∧ Content left category entries) value := by
  constructor
  · intro h
    cases h with
    | primitive level tag content => exact ⟨_, rfl, .primitive, by decide, tag, _, level, content⟩
    | items level wrapping tag content itemLevel holds type =>
        rename_i outside left entries inner category item
        have hitem : HasItem outside (.obj inner) :=
          ⟨left, itemLevel, inner, rfl, item, holds, type⟩
        refine ⟨entries, rfl, category, by cases category <;> decide, tag, outside, level, ?_⟩
        simp only [List.mem_cons, List.not_mem_nil, or_false] at wrapping
        rcases wrapping with rfl | rfl | rfl
        · exact ⟨_, content, hitem⟩
        · exact ⟨_, content, hitem⟩
        · exact ⟨_, content, hitem⟩
    | map level tag content holdsKey keyType holdsValue valueType =>
        exact ⟨_, rfl, .map, by decide, tag, _, level, _, content, _, rfl, ⟨_, holdsKey, keyType⟩,
          ⟨_, holdsValue, valueType⟩⟩
    | reference level tag content =>
        exact ⟨_, rfl, .reference, by decide, tag, _, level, content⟩
    | external level tag content target absent =>
        exact ⟨_, rfl, .external, by decide, tag, _, level, _, content, _, rfl, target,
          fun v hv => Or.inl (absent v hv)⟩
    | externalOr level tag content target holds type =>
        exact ⟨_, rfl, .external, by decide, tag, _, level, _, content, _, rfl, target,
          fun v hv => Or.inr (holds.unique hv ▸ type)⟩
  · rintro ⟨entries, rfl, category, -, tag, outside, level, h⟩
    cases category with
    | primitive => exact .primitive level tag h
    | optional =>
        rcases h with ⟨_, content, left, itemLevel, inner, rfl, item, holds, type⟩
        exact .items level (by decide) tag content itemLevel holds type
    | list =>
        rcases h with ⟨_, content, left, itemLevel, inner, rfl, item, holds, type⟩
        exact .items level (by decide) tag content itemLevel holds type
    | set =>
        rcases h with ⟨_, content, left, itemLevel, inner, rfl, item, holds, type⟩
        exact .items level (by decide) tag content itemLevel holds type
    | map =>
        rcases h with
          ⟨_, content, inner, rfl, ⟨key, holdsKey, keyType⟩, value, holdsValue, valueType⟩
        exact .map level tag content holdsKey keyType holdsValue valueType
    | reference => exact .reference level tag h
    | external =>
        rcases h with ⟨_, content, inner, rfl, target, hfallback⟩
        -- Either every fallback is null, or there is one that is a type.
        by_cases habsent : MayHave (.plain "fallback") (· = .null) inner
        · exact .external level tag content target habsent
        · simp only [MayHave, Classical.not_forall] at habsent
          rcases habsent with ⟨fallback, holds, hnull⟩
          exact .externalOr level tag content target holds
            ((hfallback fallback holds).resolve_left hnull)

/-- The check of a type reads the types for which there is room. -/
theorem reads_checkType_iff (room : Room) (value : Json) :
    (checkType room value).Reads ↔ IsType room value := by
  induction value using (measure (sizeOf : Json → Nat)).wf.induction generalizing room with
  | _ value ih =>
      have hsmaller : ∀ (left : Room) (t : Json), sizeOf t < sizeOf value →
          ((checkType left t).Reads ↔ IsType left t) :=
        fun left t ht => ih t ht left
      rw [isType_iff, checkType]
      refine reads_tagged_iff _ Category.all Category.word value _ (by decide) ?_
      intro entries hentries category
      refine reads_within_iff room _ fun left => ?_
      -- A type inside this one is smaller, by way of the objects around it.
      have hinner : ∀ (left : Room) (f : Field) (v : Json) (inner : List (Json.Str × Json)),
          sizeOf v < sizeOf entries → sizeOf inner < sizeOf v →
          ((required f inner fun t _ => checkType left t).Reads ↔ Has f (IsType left) inner) :=
        fun left f v inner hv hi =>
          reads_required_iff f inner _ fun t ht => hsmaller left t (by omega)
      have hitem : ∀ v, sizeOf v < sizeOf entries →
          ((within left fun left => object .item v fun inner _ =>
            required itemField inner fun t _ => checkType left t).Reads ↔ HasItem left v) :=
        fun v hv => reads_within_iff left _ fun left =>
          reads_object_iff .item v _ fun inner hi => hinner left itemField v inner hv hi
      cases category with
      | primitive =>
          rw [Checked.reads_map_iff]
          exact reads_required_iff _ entries _ fun v _ => reads_checkWord_iff _ _ v (by decide)
      | optional =>
          rw [Checked.reads_map_iff]
          exact reads_required_iff _ entries _ hitem
      | list =>
          rw [Checked.reads_map_iff]
          exact reads_required_iff _ entries _ hitem
      | set =>
          rw [Checked.reads_map_iff]
          exact reads_required_iff _ entries _ hitem
      | map =>
          rw [Checked.reads_map_iff]
          refine reads_required_iff _ entries _ fun v hv => ?_
          refine reads_object_iff .map v _ fun inner hi => ?_
          rw [Checked.reads_both_iff]
          exact and_congr (hinner left keyField v inner hv hi)
            (hinner left valueField v inner hv hi)
      | reference =>
          rw [Checked.reads_map_iff]
          exact reads_required_iff _ entries _ fun v _ => reads_checkTypeName_iff left v
      | external =>
          rw [Checked.reads_map_iff]
          refine reads_required_iff _ entries _ fun v hv => ?_
          refine reads_object_iff .external v _ fun inner hi => ?_
          rw [Checked.reads_both_iff]
          refine and_congr
            (reads_required_iff _ inner _ fun t _ => reads_checkTypeName_iff left t) ?_
          refine reads_defaulted_iff _ _ inner _ fun t ht => ?_
          refine Iff.trans ?_
            (reads_nullable_iff t (checkType left) (hsmaller left t (by omega)))
          cases t <;> exact Iff.rfl

theorem reads_checkParameter_iff (value : Json) :
    (checkParameter value).Reads ↔ IsParameter value := by
  refine reads_object_iff .parameter value _ fun entries _ => ?_
  exact reads_required_iff _ entries _ fun v _ => reads_checkString_iff v

theorem reads_checkEmpty_iff (value : Json) :
    (checkEmpty value).Reads ↔ IsObject (fun _ => True) value :=
  reads_object_iff .empty value _ fun _ _ => ⟨fun _ => trivial, fun _ => ⟨(), rfl⟩⟩

/-- What stands behind the tag of a location. -/
def LocationContent : Slot → List (Json.Str × Json) → Prop
  | .body => MayHave (.plain "body") (IsObject fun _ => True)
  | .header => Has (.plain "header") IsParameter
  | .path => MayHave (.plain "path") (IsObject fun _ => True)
  | .query => Has (.plain "query") IsParameter

/-- The productions of locations, ordered by their tags. -/
theorem isLocation_iff (value : Json) :
    IsLocation value ↔
      IsObject (fun entries => ∃ slot ∈ Slot.all, Tagged slot.word entries ∧
        LocationContent slot entries) value := by
  simp only [IsLocation, IsObject, Slot.all, List.mem_cons, List.not_mem_nil, or_false,
    exists_eq_or_imp, exists_eq_left, Slot.word, LocationContent]

theorem reads_checkLocation_iff (value : Json) :
    (checkLocation value).Reads ↔ IsLocation value := by
  rw [isLocation_iff]
  refine reads_tagged_iff LocationContent Slot.all Slot.word value _ (by decide) ?_
  intro entries _ slot
  -- The slots of parameters need their content, the others may have it.
  cases slot with
  | body =>
      rw [Checked.reads_map_iff]
      exact reads_defaulted_iff _ _ entries _ fun v _ => reads_checkEmpty_iff v
  | header =>
      rw [Checked.reads_map_iff]
      exact reads_required_iff _ entries _ fun v _ => reads_checkParameter_iff v
  | path =>
      rw [Checked.reads_map_iff]
      exact reads_defaulted_iff _ _ entries _ fun v _ => reads_checkEmpty_iff v
  | query =>
      rw [Checked.reads_map_iff]
      exact reads_required_iff _ entries _ fun v _ => reads_checkParameter_iff v

theorem reads_checkArgument_iff (limits : Limits) (value : Json) :
    (checkArgument limits value).Reads ↔ IsArgument limits.levels value := by
  refine reads_object_iff .argument value _ fun entries _ => ?_
  rw [Checked.reads_map_iff, Checked.reads_both_iff, Checked.reads_both_iff]
  refine and_congr ?_ (and_congr ?_ ?_)
  · exact reads_required_iff _ entries _ fun v _ => reads_checkString_iff v
  · exact reads_required_iff _ entries _ fun v _ => reads_checkType_iff limits.levels v
  · exact reads_required_iff _ entries _ fun v _ => reads_checkLocation_iff v

theorem reads_checkAuth_iff (value : Json) : (checkAuth value).Reads ↔ IsAuth value := by
  refine reads_object_iff .auth value _ fun entries _ => ?_
  exact reads_required_iff _ entries _ fun v _ =>
    reads_checkWord_iff [.header, .cookie] Auth.word v (by decide)

theorem reads_checkEndpoint_iff (limits : Limits) (value : Json) :
    (checkEndpoint limits value).Reads ↔ IsEndpoint limits.levels value := by
  refine reads_object_iff .endpoint value _ fun entries _ => ?_
  simp only [Checked.reads_map_iff, Checked.reads_both_iff]
  -- Field by field, in the order of the schema.
  refine and_congr ?_ (and_congr ?_ (and_congr ?_ (and_congr ?_ (and_congr ?_ ?_))))
  · exact reads_required_iff _ entries _ fun v _ => reads_checkString_iff v
  · exact reads_defaulted_iff _ _ entries _ fun v _ => reads_checkString_iff v
  · exact reads_defaulted_iff _ _ entries _ fun v _ => reads_checkString_iff v
  · exact reads_defaulted_iff _ _ entries _ fun v _ =>
      reads_nullable_iff v checkAuth (reads_checkAuth_iff v)
  · exact reads_defaulted_iff _ _ entries _ fun v _ =>
      reads_listOf_iff v (checkArgument limits) (reads_checkArgument_iff limits)
  · exact reads_defaulted_iff _ _ entries _ fun v _ =>
      reads_nullable_iff v (checkType limits.levels) (reads_checkType_iff limits.levels v)

theorem reads_checkService_iff (limits : Limits) (value : Json) :
    (checkService limits value).Reads ↔ IsService limits.levels value := by
  refine reads_object_iff .service value _ fun entries _ => ?_
  rw [Checked.reads_map_iff, Checked.reads_both_iff]
  refine and_congr ?_ ?_
  · exact reads_required_iff _ entries _ fun v _ => reads_checkTypeName_iff limits.levels v
  · exact reads_defaulted_iff _ _ entries _ fun v _ =>
      reads_listOf_iff v (checkEndpoint limits) (reads_checkEndpoint_iff limits)

end Document

end ClientPlan
