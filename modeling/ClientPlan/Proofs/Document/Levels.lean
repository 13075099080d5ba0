import ClientPlan.Document.OfJson
import ClientPlan.Proofs.Document.Success

/-!
# Levels of Types

How many levels a type takes, and what a limit on them changes.

A check that is told how much room there is walks through a value like the one that has
room without end, and stops where the room does. So the one cannot read anything that the
other reads differently: it gives the same results, those left out that take too many
levels (`checkType_restricts`). What a document looks like and how deep its types go are
thereby two questions, and only the check of a type asks the second one.

The comparison goes piece by piece. Each piece of a check hands on that one check
restricts another (`Checked.Restricts`), along with what is known of the results, and
types need an induction, on the size of the value.

## Main definitions

* `Room.Allows`: There is room for some levels.
* `TypeForm.levels`, `TypeExpr.levels`: The levels that a type takes.
* `Service.AllTypes`: Every type of a service is as described.
* `Document.Fits`: There is room for every type of a document.
* `Checked.Restricts`: One check succeeds like another one, but not always.

## Theorems

* `restricts_within`: Taking a level.
* `checkType_restricts`: The limit leaves out types that take too many levels.
* `checkArgument_restricts`, `checkEndpoint_restricts`, `checkService_restricts`: The
  parts around types.
* `ofJson_restricts`: The same for documents.
* `TypeForm.levels_ofType`: A type that planning sees takes as many levels in a document.
-/

namespace ClientPlan

namespace Document

/-- There is room for a number of levels. -/
def Room.Allows (room : Room) (count : Nat) : Prop :=
  ∀ most ∈ room, count ≤ most

namespace Room

theorem allows_none (count : Nat) : Room.Allows none count := by
  intro most hmost
  cases hmost

instance (room : Room) (count : Nat) : Decidable (room.Allows count) :=
  match room with
  | none => isTrue (allows_none count)
  | some most =>
    decidable_of_iff (count ≤ most) (by simp only [Allows, Option.mem_some_iff, forall_eq'])

theorem allows_zero (room : Room) : room.Allows 0 :=
  fun most _ => Nat.zero_le most

/-- Without room for a level there is none for more. -/
theorem not_allows_succ {room : Room} (h : room.take? = none) (count : Nat) :
    ¬ room.Allows (count + 1) := by
  unfold take? at h
  split at h
  · cases h
  · simp only [Allows, Option.mem_some_iff, forall_eq']
    omega
  · cases h

theorem allows_succ_iff {room left : Room} (h : room.take? = some left) (count : Nat) :
    room.Allows (count + 1) ↔ left.Allows count := by
  unfold take? at h
  split at h
  · cases h
    exact iff_of_true (allows_none _) (allows_none _)
  · cases h
  · cases h
    simp only [Allows, Option.mem_some_iff, forall_eq']
    exact Nat.add_le_add_iff_right

theorem allows_max_iff (room : Room) (m n : Nat) :
    room.Allows (max m n) ↔ room.Allows m ∧ room.Allows n := by
  simp only [Allows, Nat.max_le, forall_and]

end Room

/-- There is room for the name of a service. -/
theorem Limits.allows_one (limits : Limits) : limits.levels.Allows 1 := by
  intro most hmost
  have hne := limits.levels_ne_zero
  rw [Option.mem_def.1 hmost, ne_eq, Option.some.injEq] at hne
  omega

end Document

/-- The levels that a type takes: one for itself, one for the object around its items, and
    one for a name. -/
def TypeForm.levels : TypeForm → Nat
  | primitive _ => 1
  | optional item => item.levels + 2
  | list item => item.levels + 2
  | set item => item.levels + 2
  | map key value => max key.levels value.levels + 1
  | reference _ => 2
  | external _ => 2
  | externalOr _ fallback => max 1 fallback.levels + 1

/-- The levels that a type takes in a document without fallbacks. -/
def TypeExpr.levels : TypeExpr → Nat
  | primitive _ => 1
  | optional item => item.levels + 2
  | list item => item.levels + 2
  | set item => item.levels + 2
  | map key value => max key.levels value.levels + 1
  | reference _ => 2
  | external _ => 2

theorem TypeForm.levels_ofType (t : TypeExpr) : (ofType t).levels = t.levels := by
  induction t with
  | primitive kind => rfl
  | optional item ih => simp only [ofType, levels, TypeExpr.levels, ih]
  | list item ih => simp only [ofType, levels, TypeExpr.levels, ih]
  | set item ih => simp only [ofType, levels, TypeExpr.levels, ih]
  | map key value ihk ihv => simp only [ofType, levels, TypeExpr.levels, ihk, ihv]
  | reference target => rfl
  | external target => rfl

/-- Every type takes a level. -/
theorem TypeForm.levels_pos (t : TypeForm) : 0 < t.levels := by
  cases t <;> exact Nat.succ_pos _

section Types

variable {σ τ : Type}

/-- All types that an endpoint mentions are as described. -/
def Endpoint.AllTypes (kind : τ → Prop) (e : Endpoint τ) : Prop :=
  (∀ a ∈ e.args, kind a.type) ∧ ∀ t ∈ e.returns, kind t

/-- All types that a service mentions are as described. -/
def Service.AllTypes (kind : τ → Prop) (s : Service τ) : Prop :=
  ∀ e ∈ s.endpoints, e.AllTypes kind

theorem Service.allTypes_mapType_iff (f : σ → τ) (kind : τ → Prop) (s : Service σ) :
    (s.mapType f).AllTypes kind ↔ s.AllTypes fun t => kind (f t) := by
  simp only [AllTypes, Endpoint.AllTypes, mapType, Endpoint.mapType, Argument.mapType,
    List.forall_mem_map, Option.mem_def, Option.map_eq_some_iff, forall_exists_index, and_imp,
    forall_apply_eq_imp_iff₂]

instance (kind : τ → Prop) [DecidablePred kind] (e : Endpoint τ) : Decidable (e.AllTypes kind) :=
  inferInstanceAs (Decidable (_ ∧ _))

instance (kind : τ → Prop) [DecidablePred kind] (s : Service τ) : Decidable (s.AllTypes kind) :=
  inferInstanceAs (Decidable (∀ e ∈ s.endpoints, _))

end Types

namespace Document

/-- There is room for all types of a document. -/
def Fits (room : Room) (d : Document) : Prop :=
  ∀ s ∈ d.services, s.AllTypes fun t => room.Allows t.levels

instance (room : Room) (d : Document) : Decidable (d.Fits room) :=
  inferInstanceAs (Decidable (∀ s ∈ d.services, _))

/-- One check succeeds where another one does and the result is as described. -/
def Checked.Restricts {α : Type} (c c' : Checked α) (kind : α → Prop) : Prop :=
  ∀ x, c = .ok x ↔ c' = .ok x ∧ kind x

section Pieces

variable {α β : Type} {kind : α → Prop}

theorem Checked.Restricts.refl (c : Checked α) : c.Restricts c fun _ => True :=
  fun _ => (iff_of_eq (and_true _)).symm

theorem Checked.Restricts.congr {c c' : Checked α} {kind' : α → Prop} (h : c.Restricts c' kind)
    (hkind : ∀ x, kind x ↔ kind' x) : c.Restricts c' kind' :=
  fun x => (h x).trans (and_congr_right fun _ => hkind x)

theorem Checked.Restricts.map {c c' : Checked α} {kind' : β → Prop} (f : α → β)
    (h : c.Restricts c' kind) (hf : ∀ x, kind x ↔ kind' (f x)) :
    Checked.Restricts (c.map f) (c'.map f) kind' := by
  intro y
  simp only [map_eq_ok_iff]
  constructor
  · rintro ⟨x, hx, rfl⟩
    exact ⟨⟨x, ((h x).1 hx).1, rfl⟩, (hf x).1 ((h x).1 hx).2⟩
  · -- What is said of the result is said of what it is made of.
    rintro ⟨⟨x, hx, rfl⟩, hkind⟩
    exact ⟨x, (h x).2 ⟨hx, (hf x).2 hkind⟩, rfl⟩

theorem Checked.Restricts.both {a a' : Checked α} {b b' : Checked β} (kind' : β → Prop)
    (ha : a.Restricts a' kind) (hb : b.Restricts b' kind') :
    (a.both b).Restricts (a'.both b') fun p => kind p.1 ∧ kind' p.2 := by
  rintro ⟨x, y⟩
  rw [both_eq_ok_iff, both_eq_ok_iff, ha x, hb y, and_and_and_comm]

theorem restricts_required {f : Field} {entries : List (Json.Str × Json)}
    {check check' : (value : Json) → sizeOf value < sizeOf entries → Checked α}
    (h : ∀ value hlt, (check value hlt).Restricts (check' value hlt) kind) :
    (required f entries check).Restricts (required f entries check') kind := by
  intro x
  rw [required_eq_ok_iff, required_eq_ok_iff]
  constructor
  · rintro ⟨name, value, hfind, hx⟩
    have hboth := (h value (Field.sizeOf_lt_of_find hfind) x).1 (hx _)
    exact ⟨⟨name, value, hfind, fun _ => hboth.1⟩, hboth.2⟩
  · rintro ⟨⟨name, value, hfind, hx⟩, hkind⟩
    exact ⟨name, value, hfind, fun hlt => (h value hlt x).2 ⟨hx hlt, hkind⟩⟩

theorem restricts_defaulted {f : Field} {default : α} {entries : List (Json.Str × Json)}
    {check check' : (value : Json) → sizeOf value < sizeOf entries → Checked α}
    (hdefault : kind default)
    (h : ∀ value hlt, (check value hlt).Restricts (check' value hlt) kind) :
    (defaulted f default entries check).Restricts (defaulted f default entries check') kind := by
  intro x
  rw [defaulted_eq_ok_iff, defaulted_eq_ok_iff]
  -- The default is as described, so only a field that is there can be restricted.
  constructor
  · rintro (⟨hnone, rfl⟩ | ⟨name, value, hfind, hx⟩)
    · exact ⟨Or.inl ⟨hnone, rfl⟩, hdefault⟩
    · have hboth := (h value (Field.sizeOf_lt_of_find hfind) x).1 (hx _)
      exact ⟨Or.inr ⟨name, value, hfind, fun _ => hboth.1⟩, hboth.2⟩
  · rintro ⟨⟨hnone, rfl⟩ | ⟨name, value, hfind, hx⟩, hkind⟩
    · exact Or.inl ⟨hnone, rfl⟩
    · exact Or.inr ⟨name, value, hfind, fun hlt => (h value hlt x).2 ⟨hx hlt, hkind⟩⟩

theorem restricts_object {part : Part} {value : Json}
    {check check' : (entries : List (Json.Str × Json)) → sizeOf entries < sizeOf value → Checked α}
    (h : ∀ entries hlt, (check entries hlt).Restricts (check' entries hlt) kind) :
    (object part value check).Restricts (object part value check') kind := by
  -- Any value but an object is refused by both checks.
  cases value with
  | obj entries => exact h entries _
  | _ =>
      intro x
      simp only [object, Checked.refuse, reduceCtorEq, false_and]

theorem restricts_tagged {ι : Type} {choices : List ι} {word : ι → String} {value : Json}
    {check check' : (entries : List (Json.Str × Json)) → sizeOf entries < sizeOf value → ι →
      Checked α}
    (h : ∀ entries hlt choice, (check entries hlt choice).Restricts (check' entries hlt choice)
      kind) :
    (tagged choices word value check).Restricts (tagged choices word value check') kind := by
  intro x
  rw [tagged_eq_ok_iff, tagged_eq_ok_iff]
  constructor
  · rintro ⟨entries, tag, choice, rfl, htag, hchoice, hx⟩
    have hboth := (h entries (by simp only [Json.obj.sizeOf_spec]; omega) choice x).1 (hx _)
    exact ⟨⟨entries, tag, choice, rfl, htag, hchoice, fun _ => hboth.1⟩, hboth.2⟩
  · rintro ⟨⟨entries, tag, choice, rfl, htag, hchoice, hx⟩, hkind⟩
    exact ⟨entries, tag, choice, rfl, htag, hchoice,
      fun hlt => (h entries hlt choice x).2 ⟨hx hlt, hkind⟩⟩

theorem within_none (check : Room → Checked α) : within none check = check none := rfl

/-- A part that takes a level restricts the part without limits, if what is inside does
    and nothing is as described where there is no room. -/
theorem restricts_within {room : Room} {check : Room → Checked α}
    (hnone : room.take? = none → ∀ x, ¬ kind x)
    (h : ∀ left, room.take? = some left → (check left).Restricts (check none) kind) :
    (within room check).Restricts (within none check) kind := by
  rw [within_none, within]
  -- Without room nothing is read, and then nothing may be as described either.
  rcases hroom : room.take? with _ | left
  · intro x
    simp only [Checked.refuse, reduceCtorEq, hnone hroom x, and_false]
  · exact h left hroom

theorem forall_mem_none (kind : α → Prop) : ∀ x ∈ (none : Option α), kind x := by
  intro x hx
  cases hx

theorem restricts_nullable {value : Json} {check check' : Json → Checked α}
    (h : (check value).Restricts (check' value) kind) :
    (nullable value check).Restricts (nullable value check') fun o => ∀ x ∈ o, kind x := by
  -- Null is read without a check, and there is nothing in it to be described.
  by_cases hnull : value = .null
  · subst hnull
    intro o
    simp only [nullable, Except.ok.injEq]
    constructor
    · rintro rfl
      exact ⟨rfl, forall_mem_none kind⟩
    · exact fun ho => ho.1
  · rw [nullable_of_ne_null value check hnull, nullable_of_ne_null value check' hnull]
    exact Checked.Restricts.map some h fun x => by simp only [Option.mem_some_iff, forall_eq']

/-- An array is restricted item by item. -/
theorem restricts_listOf {value : Json} {check check' : Json → Checked α}
    (h : ∀ item, (check item).Restricts (check' item) kind) :
    (listOf check value).Restricts (listOf check' value) fun xs => ∀ x ∈ xs, kind x := by
  -- Both checks read an array item by item, and every item is restricted by itself.
  have hitems : ∀ (items : List Json) (xs : List α), items.map check = xs.map Except.ok ↔
      items.map check' = xs.map Except.ok ∧ ∀ x ∈ xs, kind x := by
    intro items
    induction items with
    | nil =>
        intro xs
        cases xs with
        | nil => simp only [List.map_nil, List.not_mem_nil, false_implies, implies_true, and_true]
        | cons x xs => simp only [List.map_nil, List.map_cons, reduceCtorEq, false_and]
    | cons item items ih =>
        intro xs
        cases xs with
        | nil => simp only [List.map_cons, List.map_nil, reduceCtorEq, false_and]
        | cons x xs =>
            simp only [List.map_cons, List.cons.injEq, List.forall_mem_cons, ih xs, h item x]
            exact and_and_and_comm
  intro xs
  simp only [listOf_eq_ok_iff, hitems, ← and_assoc, exists_and_right]

end Pieces

theorem checkTypeName_restricts (room : Room) (value : Json) :
    (checkTypeName room value).Restricts (checkTypeName none value) fun _ => room.Allows 1 := by
  refine restricts_within (fun hroom _ => Room.not_allows_succ hroom 0) fun left hroom => ?_
  refine (Checked.Restricts.refl _).congr fun _ => ?_
  exact iff_of_true trivial ((Room.allows_succ_iff hroom 0).2 (Room.allows_zero left))

/-- A type from elsewhere takes a level for itself, and one for its name beside those of
    its fallback. -/
theorem allows_withFallback_iff {room left : Room} (h : room.take? = some left)
    (target : TypeName) (fallback : Option TypeForm) :
    (left.Allows 1 ∧ ∀ t ∈ fallback, left.Allows t.levels) ↔
      room.Allows (withFallback target fallback).levels := by
  cases fallback with
  | none =>
      simp only [withFallback, TypeForm.levels, Room.allows_succ_iff h, Option.not_mem_none,
        false_implies, implies_true, and_true]
  | some t =>
      simp only [withFallback, TypeForm.levels, Room.allows_succ_iff h, Room.allows_max_iff,
        Option.mem_some_iff, forall_eq']

/-- A type that is read with some room is read with room without end, and the other way
    around if it takes no more levels than there are. -/
theorem checkType_restricts (room : Room) (value : Json) :
    (checkType room value).Restricts (checkType none value) fun t => room.Allows t.levels := by
  -- By induction on the value, with whatever room is left where it stands.
  induction value using (measure (sizeOf : Json → Nat)).wf.induction generalizing room with
  | _ value ih =>
      rw [checkType, checkType]
      refine restricts_tagged fun entries hentries category => ?_
      refine restricts_within ?_ fun outside hroom => ?_
      · -- Without room there is no type at all, since every type takes a level.
        rintro hroom t
        rw [← Nat.succ_pred_eq_of_pos t.levels_pos]
        exact Room.not_allows_succ hroom _
      have hlevel := Room.allows_succ_iff hroom
      -- The object around the items takes the next level, and the type in it the others.
      have hitem : ∀ v, sizeOf v < sizeOf entries →
          (within outside fun left => object .item v fun inner _ =>
            required itemField inner fun t _ => checkType left t).Restricts
          (within none fun left => object .item v fun inner _ =>
            required itemField inner fun t _ => checkType left t)
            fun t => outside.Allows (t.levels + 1) := by
        intro v hv
        refine restricts_within (fun hleft t => Room.not_allows_succ hleft _) fun left hleft => ?_
        refine restricts_object fun inner hinner => restricts_required fun t ht => ?_
        simp only [Room.allows_succ_iff hleft]
        exact ih t (by show sizeOf t < sizeOf value; omega) left
      -- The types of a map have the room that is left behind the tag.
      have htype : ∀ (f : Field) (v : Json) (inner : List (Json.Str × Json)),
          sizeOf v < sizeOf entries → sizeOf inner < sizeOf v →
          (required f inner fun t _ => checkType outside t).Restricts
            (required f inner fun t _ => checkType none t) fun t => outside.Allows t.levels := by
        intro f v inner hv hinner
        exact restricts_required fun t ht =>
          ih t (by show sizeOf t < sizeOf value; omega) outside
      -- What is inside takes one level less than the type.
      cases category with
      | primitive =>
          exact Checked.Restricts.map _ (Checked.Restricts.refl _) fun _ =>
            iff_of_true trivial ((hlevel 0).2 (Room.allows_zero outside))
      | optional =>
          exact Checked.Restricts.map _ (restricts_required hitem) fun t => (hlevel _).symm
      | list =>
          exact Checked.Restricts.map _ (restricts_required hitem) fun t => (hlevel _).symm
      | set =>
          exact Checked.Restricts.map _ (restricts_required hitem) fun t => (hlevel _).symm
      | map =>
          refine Checked.Restricts.map _ (restricts_required fun v hv => ?_) fun p =>
            (Room.allows_max_iff outside _ _).symm.trans (hlevel _).symm
          exact restricts_object fun inner hinner =>
            (htype keyField v inner hv hinner).both _ (htype valueField v inner hv hinner)
      | reference =>
          refine Checked.Restricts.map _ (restricts_required fun v _ => ?_) fun t => (hlevel 1).symm
          exact checkTypeName_restricts outside v
      | external =>
          refine Checked.Restricts.map _ (restricts_required fun v hv => ?_) fun p =>
            allows_withFallback_iff hroom p.1 p.2
          refine restricts_object fun inner hinner => Checked.Restricts.both
            (fun o => ∀ t ∈ o, outside.Allows (TypeForm.levels t))
            (restricts_required fun t _ => checkTypeName_restricts outside t) ?_
          refine restricts_defaulted (forall_mem_none _) fun t ht => ?_
          have hnullable := restricts_nullable
            (ih t (by show sizeOf t < sizeOf value; omega) outside)
          cases t <;> exact hnullable

theorem checkArgument_restricts (limits : Limits) (value : Json) :
    (checkArgument limits value).Restricts (checkArgument limits.anyDepth value) fun a =>
      limits.levels.Allows a.type.levels := by
  -- Of the three fields only the type has levels.
  refine restricts_object fun entries _ => Checked.Restricts.map _ (Checked.Restricts.both _
    (Checked.Restricts.refl _) (Checked.Restricts.both _
      (restricts_required fun v _ => checkType_restricts limits.levels v)
      (Checked.Restricts.refl _))) ?_
  rintro ⟨name, type, location⟩
  simp only [true_and, and_true]

theorem checkEndpoint_restricts (limits : Limits) (value : Json) :
    (checkEndpoint limits value).Restricts (checkEndpoint limits.anyDepth value)
      (Endpoint.AllTypes fun t => limits.levels.Allows t.levels) := by
  -- Levels are taken by the arguments and by what is returned, the last two fields.
  refine restricts_object fun entries _ => Checked.Restricts.map _ (Checked.Restricts.both _
    (Checked.Restricts.refl _) (Checked.Restricts.both _ (Checked.Restricts.refl _)
      (Checked.Restricts.both _ (Checked.Restricts.refl _) (Checked.Restricts.both _
        (Checked.Restricts.refl _) (Checked.Restricts.both _
          (restricts_defaulted (List.forall_mem_nil _) fun v _ => restricts_listOf fun item =>
            checkArgument_restricts limits item)
          (restricts_defaulted (forall_mem_none _) fun v _ => restricts_nullable
            (checkType_restricts limits.levels v))))))) ?_
  rintro ⟨name, method, path, auth, args, returns⟩
  simp only [true_and, Endpoint.AllTypes]

theorem checkService_restricts (limits : Limits) (value : Json) :
    (checkService limits value).Restricts (checkService limits.anyDepth value)
      (Service.AllTypes fun t => limits.levels.Allows t.levels) := by
  refine restricts_object fun entries _ => Checked.Restricts.map _ (Checked.Restricts.both _
    (restricts_required fun v _ => checkTypeName_restricts limits.levels v)
    (restricts_defaulted (List.forall_mem_nil _) fun v _ => restricts_listOf fun item =>
      checkEndpoint_restricts limits item)) ?_
  rintro ⟨name, endpoints⟩
  -- The name of the service takes a level, and there always is one.
  simp only [limits.allows_one, true_and, Service.AllTypes]

/-- A value is a document within limits if it is one without that of the levels and there is
    room for its types. -/
theorem ofJson_restricts (limits : Limits) (value : Json) :
    (ofJson value limits).Restricts (ofJson value limits.anyDepth) (Fits limits.levels) := by
  refine restricts_object fun entries _ => Checked.Restricts.map _ (Checked.Restricts.both _
    (Checked.Restricts.refl _)
    (restricts_defaulted (List.forall_mem_nil _) fun v _ => restricts_listOf fun item =>
      checkService_restricts limits item)) ?_
  rintro ⟨version, services⟩
  simp only [true_and, Fits]

end Document

end ClientPlan
