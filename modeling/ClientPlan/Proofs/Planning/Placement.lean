import ClientPlan.Plan.Instruction

/-!
# Placeable Arguments

Which arguments have a place in a request, and how they are written there.

The body takes a value of any type. Outside of it a value is written by one of few
rules, and `Writes` is the table of them: a primitive and a reference are one text
each, and where a name can have several entries, a list or a set of primitives is one
text for each item. There is no rule for any other type, however it is built, and none
for an optional: in a header or a query entry it is the item that is written, and only
one optional is taken off for that.

The definition finds the rule by a match whose cases overlap, and refuses what is left
in three different places. `placeAs_eq_ok_iff` compares it with the table once. After
that an argument has a place if the table has a row for it, and the row says how the
value is written.

## Main definitions

* `TypeExpr.IsSingle`, `TypeExpr.IsCollection`: Types that have a text.
* `Argument.valueType`: The type whose values are written.
* `Argument.IsPlaceable`: The arguments that have a place.
* `Argument.PlacedBy`: What a placement says of its argument.
* `Writes`: The rules outside of a body.

## Theorems

* `itemEncoding_eq_ok_iff`: The types with a flat rule.
* `placeAs_eq_ok_iff`: The definition follows the table.
* `place_eq_placeAs`: An optional is placed as its item.
* `isPlaceable_iff_writes`: The arguments that the table has a row for.
* `PlacedBy.unique`: What a placement says determines it.
* `place_decides_placeable`: The placeable arguments, and their placements.
-/

namespace ClientPlan

/-- A type whose values are one text: a primitive, or a reference, whose values provide
    their own. -/
def TypeExpr.IsSingle : TypeExpr → Prop
  | primitive _ | reference _ => True
  | _ => False

/-- A type whose values are a text for each item: a list or a set of primitives. -/
def TypeExpr.IsCollection : TypeExpr → Prop
  | list (primitive _) | set (primitive _) => True
  | _ => False

/-- A location whose name can have any number of entries, none included. -/
def Location.HasEntries : Location → Prop
  | .header _ | .query _ => True
  | .body | .path => False

instance (l : Location) : Decidable l.HasEntries :=
  match l with
  | .header _ | .query _ => isTrue trivial
  | .body | .path => isFalse not_false

/-- The rules by which a value is written outside of a body, and whether each item of it
    becomes an entry of its own. -/
inductive Writes (l : Location) : TypeExpr → Encoding → Bool → Prop where
  | primitive (kind : Primitive) (outside : l ≠ .body) :
      Writes l (.primitive kind) (.plain kind) false
  | reference (target : TypeName) (outside : l ≠ .body) :
      Writes l (.reference target) .stringConversion false
  | list (kind : Primitive) (entries : l.HasEntries) :
      Writes l (.list (.primitive kind)) (.repeated kind .list) true
  | set (kind : Primitive) (entries : l.HasEntries) :
      Writes l (.set (.primitive kind)) (.repeated kind .set) true

namespace Argument

/-- The type whose values are written: the item of an optional where there can be no
    entry, and the declared type elsewhere. -/
def valueType (a : Argument TypeExpr) : TypeExpr :=
  match a.location, a.type with
  | .header _, .optional item => item
  | .query _, .optional item => item
  | _, type => type

/-- An argument whose location takes its type. -/
def IsPlaceable (a : Argument TypeExpr) : Prop :=
  match a.location with
  | .body => True
  | .header _ | .query _ => a.valueType.IsSingle ∨ a.valueType.IsCollection
  | .path => a.type.IsSingle

/-- What the placement of an argument of the named endpoint says of it. -/
structure PlacedBy (a : Argument TypeExpr) (endpoint : String) (i : Instruction) : Prop where
  argument : i.argument = a
  slot : i.slot = a.location.slot
  /-- In a body the serializer of the endpoint writes the value of the declared type. -/
  body : a.location = .body →
    i.wireName = none ∧ i.encoding = .body endpoint a.type ∧
      i.encoding.name = endpoint ++ "Serializer" ∧ i.conditional = false ∧ i.multiValued = false
  header : ∀ id, a.location = .header id → i.wireName = some id
  query : ∀ id, a.location = .query id → i.wireName = some id
  path : a.location = .path → i.wireName = some a.name
  conditional : a.location ≠ .body → (i.conditional = true ↔ a.type.category = .optional)
  multiValued : a.location ≠ .body →
    (i.multiValued = true ↔ a.valueType.category = .list ∨ a.valueType.category = .set)
  repeated : i.multiValued = true ↔ i.encoding.family = "plain-repeated"
  reference : a.location ≠ .body → a.valueType.category = .reference →
    i.encoding = .stringConversion
  flat : a.location ≠ .body → a.valueType.category ≠ .reference →
    a.valueType.flatEncoding = .ok i.encoding

end Argument

theorem TypeExpr.itemEncoding_eq_ok_iff (type item : TypeExpr) (collection : Collection)
    (encoding : Encoding) :
    type.itemEncoding collection item = .ok encoding ↔
      ∃ kind, item = .primitive kind ∧ encoding = .repeated kind collection := by
  constructor
  · intro h
    cases item with
    | primitive kind =>
        cases h
        exact ⟨kind, rfl, rfl⟩
    | _ => cases h
  · rintro ⟨kind, rfl, rfl⟩
    rfl

theorem Location.hasEntries_or_path (l : Location) (houtside : l ≠ .body) :
    l.HasEntries ∨ l = .path := by
  cases l with
  | body => exact absurd rfl houtside
  | path => exact Or.inr rfl
  | header id => exact Or.inl trivial
  | query id => exact Or.inl trivial

namespace Argument

theorem placeFlat_eq_ok_iff (a : Argument TypeExpr) (endpoint : String) (type : TypeExpr)
    (many : Bool) (i : Instruction) :
    a.placeFlat endpoint type many = .ok i ↔
      ∃ encoding, type.flatEncoding = .ok encoding ∧ a.instruction encoding many = i := by
  unfold placeFlat
  rcases type.flatEncoding with u | encoding
  · simp only [reduceCtorEq, false_and, exists_false]
  · simp only [Except.ok.injEq, exists_eq_left']

/-- In a header or a query entry every type but an optional and a reference is left to
    the flat rules. -/
theorem placeAs_of_hasEntries (a : Argument TypeExpr) (endpoint : String) (type : TypeExpr)
    (h : a.location.HasEntries) :
    a.placeAs endpoint type =
      match type with
      | .optional _ => .error (a.refusal endpoint .nestedOptional none)
      | .reference _ => .ok (a.instruction .stringConversion false)
      | .list item => a.placeFlat endpoint (.list item) true
      | .set item => a.placeFlat endpoint (.set item) true
      | type => a.placeFlat endpoint type false := by
  rcases a with ⟨name, _ | id | _ | id, declared⟩
  · exact absurd h not_false
  · cases type <;> exact rfl
  · exact absurd h not_false
  · cases type <;> exact rfl

/-- In the path collections are refused before their items are looked at. -/
theorem placeAs_of_path (a : Argument TypeExpr) (endpoint : String) (type : TypeExpr)
    (h : a.location = .path) :
    a.placeAs endpoint type =
      match type with
      | .reference _ => .ok (a.instruction .stringConversion false)
      | .list _ => .error (a.refusal endpoint .manyValues none)
      | .set _ => .error (a.refusal endpoint .manyValues none)
      | type => a.placeFlat endpoint type false := by
  rcases a with ⟨name, location, declared⟩
  cases h
  cases type <;> exact rfl

/-- Outside of a body a value is placed by the rules of the table. -/
theorem placeAs_eq_ok_iff (a : Argument TypeExpr) (endpoint : String) (type : TypeExpr)
    (i : Instruction) (houtside : a.location ≠ .body) :
    a.placeAs endpoint type = .ok i ↔
      ∃ encoding many, Writes a.location type encoding many ∧ a.instruction encoding many = i := by
  rcases a.location.hasEntries_or_path houtside with hentries | hpath
  · rw [a.placeAs_of_hasEntries endpoint type hentries]
    constructor
    · intro h
      cases type with
      | primitive kind =>
          cases h
          exact ⟨_, _, .primitive kind houtside, rfl⟩
      | reference target =>
          cases h
          exact ⟨_, _, .reference target houtside, rfl⟩
      | list item =>
          rcases (a.placeFlat_eq_ok_iff endpoint _ true i).1 h with ⟨encoding, hflat, rfl⟩
          rcases (TypeExpr.itemEncoding_eq_ok_iff _ item .list encoding).1 hflat with
            ⟨kind, rfl, rfl⟩
          exact ⟨_, _, .list kind hentries, rfl⟩
      | set item =>
          rcases (a.placeFlat_eq_ok_iff endpoint _ true i).1 h with ⟨encoding, hflat, rfl⟩
          rcases (TypeExpr.itemEncoding_eq_ok_iff _ item .set encoding).1 hflat with
            ⟨kind, rfl, rfl⟩
          exact ⟨_, _, .set kind hentries, rfl⟩
      | _ => cases h
    · rintro ⟨encoding, many, hwrites, rfl⟩
      cases hwrites <;> rfl
  · rw [a.placeAs_of_path endpoint type hpath]
    constructor
    · intro h
      cases type with
      | primitive kind =>
          cases h
          exact ⟨_, _, .primitive kind houtside, rfl⟩
      | reference target =>
          cases h
          exact ⟨_, _, .reference target houtside, rfl⟩
      | _ => cases h
    · rintro ⟨encoding, many, hwrites, rfl⟩
      -- The rows for collections ask for entries.
      rw [hpath] at hwrites
      cases hwrites with
      | primitive kind => rfl
      | reference target => rfl
      | list kind hentries => exact absurd hentries not_false
      | set kind hentries => exact absurd hentries not_false

/-- An optional is placed as its item where there can be no entry, and as it is
    elsewhere. -/
theorem place_eq_placeAs (a : Argument TypeExpr) (endpoint : String) :
    a.place endpoint =
      if a.location.HasEntries ∧ a.type.category = .optional then
        (a.placeAs endpoint a.valueType).map fun i => { i with conditional := true }
      else a.placeAs endpoint a.valueType := by
  rcases a with ⟨name, location, declared⟩
  -- Only an optional in a header or a query is looked into.
  by_cases hoptional : declared.category = .optional
  · cases declared with
    | optional item =>
        cases location with
        | body => exact rfl
        | path => exact rfl
        | header id => exact (if_pos ⟨trivial, rfl⟩).symm
        | query id => exact (if_pos ⟨trivial, rfl⟩).symm
    | _ => exact absurd hoptional Category.noConfusion
  · rw [if_neg fun h => hoptional h.2]
    cases declared with
    | optional item => exact absurd rfl hoptional
    | _ => cases location <;> exact rfl

theorem valueType_of_path (a : Argument TypeExpr) (h : a.location = .path) :
    a.valueType = a.type := by
  unfold valueType
  rw [h]

/-- The placement by a rule of the table, on the condition that the value is present if
    the declared type is an optional. -/
def entry (a : Argument TypeExpr) (encoding : Encoding) (many : Bool) : Instruction :=
  { a.instruction encoding many with conditional := decide (a.type.category = .optional) }

/-- Outside of a body an argument is placed by the rules for the type of its values. -/
theorem place_eq_ok_iff (a : Argument TypeExpr) (endpoint : String) (i : Instruction)
    (houtside : a.location ≠ .body) :
    a.place endpoint = .ok i ↔
      ∃ encoding many, Writes a.location a.valueType encoding many ∧
        a.entry encoding many = i := by
  rw [place_eq_placeAs]
  by_cases h : a.location.HasEntries ∧ a.type.category = .optional
  · have hentry (encoding : Encoding) (many : Bool) :
        a.entry encoding many = { a.instruction encoding many with conditional := true } := by
      simp only [entry, h.2, decide_true]
    rw [if_pos h]
    constructor
    · intro hplace
      rcases hplaced : a.placeAs endpoint a.valueType with p | placed
      · rw [hplaced] at hplace
        cases hplace
      · rw [hplaced] at hplace
        cases hplace
        rcases (a.placeAs_eq_ok_iff endpoint _ placed houtside).1 hplaced with
          ⟨encoding, many, hwrites, rfl⟩
        exact ⟨encoding, many, hwrites, hentry encoding many⟩
    · rintro ⟨encoding, many, hwrites, rfl⟩
      rw [(a.placeAs_eq_ok_iff endpoint _ _ houtside).2 ⟨encoding, many, hwrites, rfl⟩, hentry]
      rfl
  · rw [if_neg h, a.placeAs_eq_ok_iff endpoint _ i houtside]
    refine exists_congr fun encoding => exists_congr fun many => and_congr_right fun hwrites => ?_
    -- The table has no row for an optional, so the declared type is none.
    have hconditional : decide (a.type.category = .optional) = false := by
      rw [decide_eq_false_iff_not]
      intro hoptional
      rcases a.location.hasEntries_or_path houtside with hentries | hpath
      · exact h ⟨hentries, hoptional⟩
      · rw [a.valueType_of_path hpath] at hwrites
        generalize a.type = declared at hwrites hoptional
        cases hwrites <;> exact Category.noConfusion hoptional
    simp only [entry, hconditional, instruction]

/-- The types that the table has a row for. -/
theorem exists_writes_iff (l : Location) (type : TypeExpr) (houtside : l ≠ .body) :
    (∃ encoding many, Writes l type encoding many) ↔
      type.IsSingle ∨ l.HasEntries ∧ type.IsCollection := by
  constructor
  · rintro ⟨encoding, many, hwrites⟩
    cases hwrites with
    | primitive kind => exact Or.inl trivial
    | reference target => exact Or.inl trivial
    | list kind hentries => exact Or.inr ⟨hentries, trivial⟩
    | set kind hentries => exact Or.inr ⟨hentries, trivial⟩
  · -- Each type that is named has its row.
    rintro (hsingle | ⟨hentries, hcollection⟩)
    · cases type with
      | primitive kind => exact ⟨_, _, .primitive kind houtside⟩
      | reference target => exact ⟨_, _, .reference target houtside⟩
      | _ => exact absurd hsingle not_false
    · cases type with
      | list item =>
          cases item with
          | primitive kind => exact ⟨_, _, .list kind hentries⟩
          | _ => exact absurd hcollection not_false
      | set item =>
          cases item with
          | primitive kind => exact ⟨_, _, .set kind hentries⟩
          | _ => exact absurd hcollection not_false
      | _ => exact absurd hcollection not_false

/-- Outside of a body an argument has a place if the table has a row for the type of its
    values. -/
theorem isPlaceable_iff_writes (a : Argument TypeExpr) (houtside : a.location ≠ .body) :
    a.IsPlaceable ↔ ∃ encoding many, Writes a.location a.valueType encoding many := by
  rw [exists_writes_iff a.location a.valueType houtside]
  unfold IsPlaceable
  cases hlocation : a.location with
  | body => exact absurd hlocation houtside
  | path =>
      rw [a.valueType_of_path hlocation]
      simp only [Location.HasEntries, false_and, or_false]
  | header id => simp only [Location.HasEntries, true_and]
  | query id => simp only [Location.HasEntries, true_and]

theorem placedBy_entry (a : Argument TypeExpr) (endpoint : String) (encoding : Encoding)
    (many : Bool) (houtside : a.location ≠ .body)
    (h : Writes a.location a.valueType encoding many) :
    a.PlacedBy endpoint (a.entry encoding many) := by
  have hwireName : (a.entry encoding many).wireName = a.wireName := rfl
  generalize hvalue : a.valueType = value at h
  constructor
  case argument => rfl
  case slot => rfl
  case body => exact fun hbody => absurd hbody houtside
  case header =>
    intro id hlocation
    simp only [hwireName, wireName, hlocation]
  case query =>
    intro id hlocation
    simp only [hwireName, wireName, hlocation]
  case path =>
    intro hlocation
    simp only [hwireName, wireName, hlocation]
  case conditional => exact fun _ => decide_eq_true_iff
  case multiValued =>
    intro _
    rw [hvalue]
    -- The rows for collections are the ones that give several entries.
    cases h <;> simp only [entry, instruction, TypeExpr.category, reduceCtorEq, or_true, or_false,
      Bool.false_eq_true]
  case repeated =>
    cases h with
    | primitive kind =>
        exact iff_of_false Bool.false_ne_true (show "plain" ≠ "plain-repeated" by decide)
    | reference target =>
        exact iff_of_false Bool.false_ne_true
          (show "string-conversion" ≠ "plain-repeated" by decide)
    | list kind => exact iff_of_true rfl rfl
    | set kind => exact iff_of_true rfl rfl
  case reference =>
    intro _ hreference
    rw [hvalue] at hreference
    cases h with
    | reference target => rfl
    | _ => exact absurd hreference Category.noConfusion
  case flat =>
    intro _ hreference
    rw [hvalue] at hreference ⊢
    cases h with
    | reference target => exact absurd rfl hreference
    | _ => rfl

theorem place_of_body (a : Argument TypeExpr) (endpoint : String) (hbody : a.location = .body) :
    a.place endpoint = .ok (a.instruction (.body endpoint a.type) false) := by
  unfold place placeAs
  simp only [hbody]

theorem placedBy_body (a : Argument TypeExpr) (endpoint : String) (hbody : a.location = .body) :
    a.PlacedBy endpoint (a.instruction (.body endpoint a.type) false) := by
  have hwireName : a.wireName = none := by
    simp only [wireName, hbody]
  constructor
  case argument => rfl
  case slot => rfl
  case body => exact fun _ => ⟨hwireName, rfl, rfl, rfl, rfl⟩
  case repeated => exact iff_of_false Bool.false_ne_true (show "body" ≠ "plain-repeated" by decide)
  -- Everything else is said of other locations.
  case header => exact fun id h => absurd (hbody.symm.trans h) Location.noConfusion
  case query => exact fun id h => absurd (hbody.symm.trans h) Location.noConfusion
  case path => exact fun h => absurd (hbody.symm.trans h) Location.noConfusion
  case conditional => exact fun h => absurd hbody h
  case multiValued => exact fun h => absurd hbody h
  case reference => exact fun h => absurd hbody h
  case flat => exact fun h => absurd hbody h

/-- What is said of a placement determines it. -/
theorem PlacedBy.unique (a : Argument TypeExpr) (endpoint : String) (i i' : Instruction)
    (h : a.PlacedBy endpoint i) (h' : a.PlacedBy endpoint i') : i = i' := by
  have hwireName : i.wireName = i'.wireName := by
    cases hlocation : a.location with
    | body => rw [(h.body hlocation).1, (h'.body hlocation).1]
    | header id => rw [h.header id hlocation, h'.header id hlocation]
    | path => rw [h.path hlocation, h'.path hlocation]
    | query id => rw [h.query id hlocation, h'.query id hlocation]
  -- A reference has its own encoding, and any other type that of the flat rules.
  have hencoding : i.encoding = i'.encoding := by
    by_cases hbody : a.location = .body
    · rw [(h.body hbody).2.1, (h'.body hbody).2.1]
    · by_cases hreference : a.valueType.category = .reference
      · rw [h.reference hbody hreference, h'.reference hbody hreference]
      · exact Except.ok.inj ((h.flat hbody hreference).symm.trans (h'.flat hbody hreference))
  have hconditional : i.conditional = i'.conditional := by
    by_cases hbody : a.location = .body
    · rw [(h.body hbody).2.2.2.1, (h'.body hbody).2.2.2.1]
    · exact Bool.eq_iff_iff.2 ((h.conditional hbody).trans (h'.conditional hbody).symm)
  have hmultiValued : i.multiValued = i'.multiValued := by
    rw [Bool.eq_iff_iff, h.repeated, h'.repeated, hencoding]
  rcases i with ⟨argument, slot, wireName, encoding, multiValued, conditional⟩
  rcases i' with ⟨argument', slot', wireName', encoding', multiValued', conditional'⟩
  rw [Instruction.mk.injEq]
  exact ⟨h.argument.trans h'.argument.symm, h.slot.trans h'.slot.symm, hwireName, hencoding,
    hmultiValued, hconditional⟩

/-- A placeable argument has a placement of which all of this is said. -/
theorem exists_place_of_isPlaceable (a : Argument TypeExpr) (endpoint : String)
    (h : a.IsPlaceable) : ∃ i, a.place endpoint = .ok i ∧ a.PlacedBy endpoint i := by
  by_cases hbody : a.location = .body
  · exact ⟨_, a.place_of_body endpoint hbody, a.placedBy_body endpoint hbody⟩
  · rcases (a.isPlaceable_iff_writes hbody).1 h with ⟨encoding, many, hwrites⟩
    exact ⟨a.entry encoding many,
      (a.place_eq_ok_iff endpoint _ hbody).2 ⟨encoding, many, hwrites, rfl⟩,
      a.placedBy_entry endpoint encoding many hbody hwrites⟩

theorem isPlaceable_of_place (a : Argument TypeExpr) (endpoint : String) (i : Instruction)
    (h : a.place endpoint = .ok i) : a.IsPlaceable := by
  by_cases hbody : a.location = .body
  · simp only [IsPlaceable, hbody]
  · rcases (a.place_eq_ok_iff endpoint i hbody).1 h with ⟨encoding, many, hwrites, -⟩
    exact (a.isPlaceable_iff_writes hbody).2 ⟨encoding, many, hwrites⟩

theorem placedBy_of_place (a : Argument TypeExpr) (endpoint : String) (i : Instruction)
    (h : a.place endpoint = .ok i) : a.PlacedBy endpoint i := by
  have hplaceable := a.isPlaceable_of_place endpoint i h
  rcases a.exists_place_of_isPlaceable endpoint hplaceable with ⟨i', hi', hplaced⟩
  rw [h, Except.ok.injEq] at hi'
  exact hi' ▸ hplaced

/-- An argument has a place exactly if its location takes its type, and its placement is
    the one that the location and the type ask for. -/
theorem place_decides_placeable (a : Argument TypeExpr) (endpoint : String) :
    ((∃ i, a.place endpoint = .ok i) ↔ a.IsPlaceable) ∧
      ∀ i, a.place endpoint = .ok i ↔ a.IsPlaceable ∧ a.PlacedBy endpoint i := by
  constructor
  · constructor
    · rintro ⟨i, hi⟩
      exact a.isPlaceable_of_place endpoint i hi
    · intro h
      rcases a.exists_place_of_isPlaceable endpoint h with ⟨i, hi, -⟩
      exact ⟨i, hi⟩
  · intro i
    constructor
    · intro hi
      exact ⟨a.isPlaceable_of_place endpoint i hi, a.placedBy_of_place endpoint i hi⟩
    · -- There is a placement, and no other one fits what is said of it.
      rintro ⟨h, hplaced⟩
      rcases a.exists_place_of_isPlaceable endpoint h with ⟨i', hi', hplaced'⟩
      rw [hi', PlacedBy.unique a endpoint i i' hplaced hplaced']

/-- An optional collection is written item by item, if it is present. -/
example : (⟨"sizes", .query "size", .optional (.set (.primitive .rid))⟩ :
    Argument TypeExpr).place "find" = .ok ⟨⟨"sizes", .query "size",
      .optional (.set (.primitive .rid))⟩, .query, some "size", .repeated .rid .set, true, true⟩ :=
  rfl

end Argument

end ClientPlan
