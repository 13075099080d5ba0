import ClientPlan.Proofs.Planning.Placement

/-!
# Refused Arguments

What is said of an argument that has no place in its request.

A refusal can come from three places. An optional that is met where one has been taken
off already, and a collection in the path, are refused before any rule is looked for, so
there is nothing behind these refusals. Behind every other one there is a type without a
flat rule, the type whose values would have been written. Wherever it comes from, a
refusal names the declared type, although the type behind it may be the item of that.

`Refuses` lists the three for the type that is placed. As with the placements, the
definition is compared with the table once, and a refusal then says as much as the row
that it comes from.

## Main definitions

* `Refuses`: The refusals outside of a body.
* `Argument.NestsOptional`, `Argument.CrowdsPath`: The arguments that are refused without
  looking for a rule.
* `Argument.RefusedBy`: What a refusal says of its argument.

## Theorems

* `TypeExpr.type_of_flatEncoding`: The report on a type is about the whole type.
* `placeAs_eq_error_iff`: The definition follows the table.
* `place_eq_error_iff`: An optional is refused as its item.
* `RefusedBy.unique`: What a refusal says determines it.
* `place_decides_refused`: The refused arguments, and their refusals.
-/

namespace ClientPlan

/-- The types that are refused outside of a body, each with the reason and the type
    without a flat rule that is behind it. -/
inductive Refuses (l : Location) : TypeExpr → Obstacle → Option Unencodable → Prop where
  | nestedOptional (item : TypeExpr) (entries : l.HasEntries) :
      Refuses l (.optional item) .nestedOptional none
  | manyValues (type : TypeExpr) (path : l = .path)
      (many : type.category = .list ∨ type.category = .set) : Refuses l type .manyValues none
  | unencodable (type : TypeExpr) (u : Unencodable) (outside : l ≠ .body)
      (named : type.category ≠ .reference) (present : l.HasEntries → type.category ≠ .optional)
      (single : l = .path → ¬(type.category = .list ∨ type.category = .set))
      (flat : type.flatEncoding = .error u) : Refuses l type u.obstacle (some u)

namespace Argument

/-- An optional directly inside an optional, where one of them would be taken off. -/
def NestsOptional (a : Argument TypeExpr) : Prop :=
  a.location.HasEntries ∧ ∃ item, a.type = .optional (.optional item)

/-- A collection in the path. -/
def CrowdsPath (a : Argument TypeExpr) : Prop :=
  a.location = .path ∧ (a.type.category = .list ∨ a.type.category = .set)

/-- What the refusal of an argument of the named endpoint says of it. -/
structure RefusedBy (a : Argument TypeExpr) (endpoint : String) (p : IllegalPlacement) :
    Prop where
  argument : p.argument = a.name
  slot : p.slot = a.location.slot
  type : p.type = a.type
  endpoint : p.endpoint = some endpoint
  nested : a.NestsOptional → p.obstacle = some .nestedOptional
  crowded : a.CrowdsPath → p.obstacle = some .manyValues
  caused : (∃ u, p.cause = some u) ↔ ¬a.NestsOptional ∧ ¬a.CrowdsPath
  /-- What is behind a refusal is the report on the type whose values are written. -/
  flat : ∀ u, p.cause = some u →
    a.valueType.flatEncoding = .error u ∧ p.obstacle = some u.obstacle
  /-- That type is the item of an optional, where there can be no entry. -/
  item : ∀ u item, p.cause = some u → a.location.HasEntries → a.type = .optional item →
    u.type = item
  /-- Everywhere else it is the declared type. -/
  declared : ∀ u, p.cause = some u → a.location = .path ∨ a.type.category ≠ .optional →
    u.type = a.type

end Argument

/-- References are refused nowhere. -/
theorem not_refuses_reference (l : Location) (target : TypeName) (obstacle : Obstacle)
    (cause : Option Unencodable) : ¬Refuses l (.reference target) obstacle cause := by
  intro h
  cases h with
  | manyValues _ _ many => exact many.elim Category.noConfusion Category.noConfusion
  | unencodable _ _ _ named => exact named rfl

/-- The report on a type is about the type as a whole, and not about its items. -/
theorem TypeExpr.type_of_flatEncoding (type : TypeExpr) (u : Unencodable)
    (h : type.flatEncoding = .error u) : u.type = type := by
  have hitem (collection : Collection) (item : TypeExpr)
      (hitem : type.itemEncoding collection item = .error u) : u.type = type := by
    cases item <;> cases hitem <;> rfl
  cases type with
  | primitive kind => cases h
  | list item => exact hitem .list item h
  | set item => exact hitem .set item h
  | _ =>
      cases h
      rfl

theorem TypeExpr.eq_optional_of_category (type : TypeExpr) (h : type.category = .optional) :
    ∃ item, type = .optional item := by
  cases type with
  | optional item => exact ⟨item, rfl⟩
  | _ => exact absurd h Category.noConfusion

theorem Location.not_hasEntries_of_path (l : Location) (h : l = .path) : ¬l.HasEntries := by
  rw [h]
  exact not_false

namespace Argument

theorem placeFlat_eq_error_iff (a : Argument TypeExpr) (endpoint : String) (type : TypeExpr)
    (many : Bool) (p : IllegalPlacement) :
    a.placeFlat endpoint type many = .error p ↔
      ∃ u, type.flatEncoding = .error u ∧ a.refusal endpoint u.obstacle (some u) = p := by
  unfold placeFlat
  rcases type.flatEncoding with u | encoding
  · simp only [Except.error.injEq, exists_eq_left']
  · simp only [reduceCtorEq, false_and, exists_false]

/-- What is left to the flat rules is refused by them, or not at all. -/
theorem placeFlat_refuses_iff (a : Argument TypeExpr) (endpoint : String) (type : TypeExpr)
    (many : Bool) (p : IllegalPlacement) (houtside : a.location ≠ .body)
    (hnamed : type.category ≠ .reference)
    (hpresent : a.location.HasEntries → type.category ≠ .optional)
    (hsingle : a.location = .path → ¬(type.category = .list ∨ type.category = .set)) :
    a.placeFlat endpoint type many = .error p ↔
      ∃ obstacle cause, Refuses a.location type obstacle cause ∧
        a.refusal endpoint obstacle cause = p := by
  rw [placeFlat_eq_error_iff]
  constructor
  · rintro ⟨u, hflat, rfl⟩
    exact ⟨_, _, .unencodable type u houtside hnamed hpresent hsingle hflat, rfl⟩
  · rintro ⟨obstacle, cause, hrefuses, rfl⟩
    -- The rules in front of the flat ones do not apply here.
    cases hrefuses with
    | nestedOptional item entries => exact absurd rfl (hpresent entries)
    | manyValues _ path many => exact absurd many (hsingle path)
    | unencodable _ u _ _ _ _ flat => exact ⟨u, flat, rfl⟩

/-- Outside of a body a value is refused by the rules of the table. -/
theorem placeAs_eq_error_iff (a : Argument TypeExpr) (endpoint : String) (type : TypeExpr)
    (p : IllegalPlacement) (houtside : a.location ≠ .body) :
    a.placeAs endpoint type = .error p ↔
      ∃ obstacle cause, Refuses a.location type obstacle cause ∧
        a.refusal endpoint obstacle cause = p := by
  have hflat (type : TypeExpr) (many : Bool) :=
    a.placeFlat_refuses_iff endpoint type many p houtside
  -- Entries refuse an optional within an optional, a path refuses many values.
  rcases a.location.hasEntries_or_path houtside with hentries | hpath
  · have hnopath : a.location ≠ .path := fun hpath =>
      a.location.not_hasEntries_of_path hpath hentries
    rw [a.placeAs_of_hasEntries endpoint type hentries]
    cases type with
    | optional item =>
        constructor
        · intro h
          exact ⟨_, _, .nestedOptional item hentries, Except.error.inj h⟩
        · rintro ⟨obstacle, cause, hrefuses, rfl⟩
          cases hrefuses with
          | nestedOptional item entries => rfl
          | manyValues _ path many => exact absurd path hnopath
          | unencodable _ u _ _ present => exact absurd rfl (present hentries)
    | reference target =>
        refine iff_of_false nofun ?_
        rintro ⟨obstacle, cause, hrefuses, -⟩
        exact not_refuses_reference a.location target obstacle cause hrefuses
    | _ =>
        exact hflat _ _ Category.noConfusion (fun _ => Category.noConfusion)
          fun path => absurd path hnopath
  · have hnoentries := a.location.not_hasEntries_of_path hpath
    rw [a.placeAs_of_path endpoint type hpath]
    -- In a path the flat rules are not asked about a collection.
    have hmany (type : TypeExpr) (many : type.category = .list ∨ type.category = .set) :
        Except.error (a.refusal endpoint .manyValues none) =
            (.error p : Except IllegalPlacement Instruction) ↔
          ∃ obstacle cause, Refuses a.location type obstacle cause ∧
            a.refusal endpoint obstacle cause = p := by
      constructor
      · intro h
        exact ⟨_, _, .manyValues type hpath many, Except.error.inj h⟩
      · rintro ⟨obstacle, cause, hrefuses, rfl⟩
        cases hrefuses with
        | nestedOptional item entries => exact absurd entries hnoentries
        | manyValues _ path many => rfl
        | unencodable _ u _ _ _ single => exact absurd many (single hpath)
    cases type with
    | list item => exact hmany _ (Or.inl rfl)
    | set item => exact hmany _ (Or.inr rfl)
    | reference target =>
        refine iff_of_false nofun ?_
        rintro ⟨obstacle, cause, hrefuses, -⟩
        exact not_refuses_reference a.location target obstacle cause hrefuses
    | _ =>
        exact hflat _ _ Category.noConfusion (fun entries => absurd entries hnoentries)
          fun _ many => many.elim Category.noConfusion Category.noConfusion

/-- Outside of a body an argument is refused for the type of its values. -/
theorem place_eq_error_iff (a : Argument TypeExpr) (endpoint : String) (p : IllegalPlacement)
    (houtside : a.location ≠ .body) :
    a.place endpoint = .error p ↔
      ∃ obstacle cause, Refuses a.location a.valueType obstacle cause ∧
        a.refusal endpoint obstacle cause = p := by
  rw [← a.placeAs_eq_error_iff endpoint a.valueType p houtside, place_eq_placeAs]
  split
  · -- A refusal is passed on as it is.
    rcases a.placeAs endpoint a.valueType with refused | placed
    · exact Iff.rfl
    · exact iff_of_false nofun nofun
  · exact Iff.rfl

theorem valueType_of_optional (a : Argument TypeExpr) (item : TypeExpr)
    (hentries : a.location.HasEntries) (h : a.type = .optional item) : a.valueType = item := by
  unfold valueType
  rw [h]
  cases hlocation : a.location with
  | header id => rfl
  | query id => rfl
  | _ =>
      rw [hlocation] at hentries
      exact absurd hentries not_false

theorem valueType_of_declared (a : Argument TypeExpr)
    (h : a.location = .path ∨ a.type.category ≠ .optional) : a.valueType = a.type := by
  rcases h with hpath | hcategory
  · exact a.valueType_of_path hpath
  · unfold valueType
    cases htype : a.type with
    | optional item => exact absurd (by rw [htype]; rfl) hcategory
    | _ => cases a.location <;> rfl

/-- Optionals are nested exactly if the type of the values is still one. -/
theorem nestsOptional_iff (a : Argument TypeExpr) :
    a.NestsOptional ↔ a.location.HasEntries ∧ a.valueType.category = .optional := by
  refine and_congr_right fun hentries => ?_
  constructor
  · rintro ⟨item, htype⟩
    rw [a.valueType_of_optional _ hentries htype]
    rfl
  · intro hvalue
    -- The type of the values is what is behind the outer optional.
    by_cases hoptional : a.type.category = .optional
    · rcases a.type.eq_optional_of_category hoptional with ⟨outer, htype⟩
      rw [a.valueType_of_optional outer hentries htype] at hvalue
      rcases outer.eq_optional_of_category hvalue with ⟨item, rfl⟩
      exact ⟨item, htype⟩
    · rw [a.valueType_of_declared (Or.inr hoptional)] at hvalue
      exact absurd hvalue hoptional

/-- A row of the table says everything that a refusal has to say. -/
theorem refusedBy_of_refuses (a : Argument TypeExpr) (endpoint : String) (obstacle : Obstacle)
    (cause : Option Unencodable) (h : Refuses a.location a.valueType obstacle cause) :
    a.RefusedBy endpoint (a.refusal endpoint obstacle cause) := by
  have hnested := a.nestsOptional_iff
  have hcrowded : a.CrowdsPath ↔
      a.location = .path ∧ (a.valueType.category = .list ∨ a.valueType.category = .set) :=
    and_congr_right fun hpath => by rw [a.valueType_of_path hpath]
  have hitem := a.valueType_of_optional
  have hdeclared := a.valueType_of_declared
  generalize hvalue : a.valueType = value at h hnested hcrowded hitem hdeclared
  -- Row by row: two come in front of the flat rules, the last one is theirs.
  cases h with
  | nestedOptional item entries =>
      have hcrowded : ¬a.CrowdsPath := fun h => a.location.not_hasEntries_of_path h.1 entries
      have hnested : a.NestsOptional := hnested.2 ⟨entries, rfl⟩
      exact ⟨rfl, rfl, rfl, rfl, fun _ => rfl, fun h => absurd h hcrowded,
        iff_of_false nofun fun h => h.1 hnested, nofun, nofun, nofun⟩
  | manyValues _ path many =>
      have hcrowded : a.CrowdsPath := hcrowded.2 ⟨path, many⟩
      have hnested : ¬a.NestsOptional := fun h => a.location.not_hasEntries_of_path path h.1
      exact ⟨rfl, rfl, rfl, rfl, fun h => absurd h hnested, fun _ => rfl,
        iff_of_false nofun fun h => h.2 hcrowded, nofun, nofun, nofun⟩
  | unencodable _ u _ _ present single flat =>
      have hcrowded : ¬a.CrowdsPath := fun h => single h.1 (hcrowded.1 h).2
      have hnested : ¬a.NestsOptional := fun h => present h.1 (hnested.1 h).2
      have htype := value.type_of_flatEncoding u flat
      refine ⟨rfl, rfl, rfl, rfl, fun h => absurd h hnested, fun h => absurd h hcrowded,
        iff_of_true ⟨u, rfl⟩ ⟨hnested, hcrowded⟩, ?_, ?_, ?_⟩
      · rintro _ ⟨⟩
        rw [hvalue]
        exact ⟨flat, rfl⟩
      · rintro _ item ⟨⟩ hentries hoptional
        exact htype.trans (hitem item hentries hoptional)
      · rintro _ ⟨⟩ h
        exact htype.trans (hdeclared h)

/-- What is said of a refusal determines it. -/
theorem RefusedBy.unique (a : Argument TypeExpr) (endpoint : String) (p p' : IllegalPlacement)
    (h : a.RefusedBy endpoint p) (h' : a.RefusedBy endpoint p') : p = p' := by
  -- The flat rules give one cause, and without them the rule in front is known.
  have hbehind : p.obstacle = p'.obstacle ∧ p.cause = p'.cause := by
    by_cases hrule : ¬a.NestsOptional ∧ ¬a.CrowdsPath
    · rcases h.caused.2 hrule with ⟨u, hu⟩
      rcases h'.caused.2 hrule with ⟨u', hu'⟩
      have hsame : u = u' :=
        Except.error.inj ((h.flat u hu).1.symm.trans (h'.flat u' hu').1)
      rw [(h.flat u hu).2, (h'.flat u' hu').2, hu, hu', hsame]
      exact ⟨rfl, rfl⟩
    · have hcause : p.cause = none :=
        Option.eq_none_iff_forall_ne_some.2 fun u hu => hrule (h.caused.1 ⟨u, hu⟩)
      have hcause' : p'.cause = none :=
        Option.eq_none_iff_forall_ne_some.2 fun u hu => hrule (h'.caused.1 ⟨u, hu⟩)
      rw [hcause, hcause']
      by_cases hnested : a.NestsOptional
      · exact ⟨(h.nested hnested).trans (h'.nested hnested).symm, rfl⟩
      by_cases hcrowded : a.CrowdsPath
      · exact ⟨(h.crowded hcrowded).trans (h'.crowded hcrowded).symm, rfl⟩
      · exact absurd ⟨hnested, hcrowded⟩ hrule
  rcases p with ⟨argument, slot, type, owner, obstacle, cause⟩
  rcases p' with ⟨argument', slot', type', owner', obstacle', cause'⟩
  rw [IllegalPlacement.mk.injEq]
  exact ⟨h.argument.trans h'.argument.symm, h.slot.trans h'.slot.symm,
    h.type.trans h'.type.symm, h.endpoint.trans h'.endpoint.symm, hbehind⟩

theorem refusedBy_of_place (a : Argument TypeExpr) (endpoint : String) (p : IllegalPlacement)
    (h : a.place endpoint = .error p) : a.RefusedBy endpoint p := by
  by_cases hbody : a.location = .body
  · rw [a.place_of_body endpoint hbody] at h
    cases h
  · rcases (a.place_eq_error_iff endpoint p hbody).1 h with ⟨obstacle, cause, hrefuses, rfl⟩
    exact a.refusedBy_of_refuses endpoint obstacle cause hrefuses

/-- An argument is refused exactly if its location does not take its type. The refusal
    names the argument, its location, the endpoint and the declared type, and a type
    without a flat rule is behind it unless it was refused before the rules. -/
theorem place_decides_refused (a : Argument TypeExpr) (endpoint : String) :
    ((∃ p, a.place endpoint = .error p) ↔ ¬a.IsPlaceable) ∧
      ∀ p, a.place endpoint = .error p ↔ ¬a.IsPlaceable ∧ a.RefusedBy endpoint p := by
  -- An argument is placed or refused, and never both.
  have hrefused : ¬a.IsPlaceable → ∃ p, a.place endpoint = .error p := by
    intro hplaceable
    rcases hplace : a.place endpoint with p | i
    · exact ⟨p, rfl⟩
    · exact absurd (a.isPlaceable_of_place endpoint i hplace) hplaceable
  have hplaceable (p : IllegalPlacement) (h : a.place endpoint = .error p) :
      ¬a.IsPlaceable := by
    intro hplaceable
    rcases a.exists_place_of_isPlaceable endpoint hplaceable with ⟨i, hi, -⟩
    rw [h] at hi
    cases hi
  constructor
  · exact ⟨fun ⟨p, h⟩ => hplaceable p h, hrefused⟩
  · intro p
    constructor
    · intro h
      exact ⟨hplaceable p h, a.refusedBy_of_place endpoint p h⟩
    · rintro ⟨hnot, hsaid⟩
      rcases hrefused hnot with ⟨p', hp'⟩
      rw [hp', RefusedBy.unique a endpoint p p' hsaid (a.refusedBy_of_place endpoint p' hp')]

/-- The refusal of an optional list of lists names the optional, and the list is behind
    it. -/
example : (⟨"rows", .query "row", .optional (.list (.list (.primitive .string)))⟩ :
    Argument TypeExpr).place "find" = .error ⟨"rows", .query,
      .optional (.list (.list (.primitive .string))), some "find", some .compoundItem,
      some ⟨.list (.list (.primitive .string)), .compoundItem⟩⟩ :=
  rfl

end Argument

end ClientPlan
