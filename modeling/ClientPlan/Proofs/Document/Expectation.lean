import ClientPlan.Proofs.Document.Acceptance
import ClientPlan.Proofs.Document.Fields

/-!
# What Is Expected Where

What a document has to hold at each of its places, and how a location leads there.

The grammar says what each part of a document looks like. Here the same is said from
the outside: at each place something is expected, and a step to a field, to an item or
behind a tag leads to what is expected next. A tag is no step into the value, so it
leads from a type or a location to the same object, of which it is known now what it
consists of. No step leads anywhere else. So a location is read in one way only, and
its tags stand behind the types and locations that it passes, and nowhere else.

A location is followed twice, once through what is expected and once through the value
itself. What has come of both is compared by `Expected.Met`, which is the grammar without
a limit on levels. How many levels are passed on the way is counted apart from that.

## Main definitions

* `Expected`: What is expected at some place.
* `FieldRule`: What is expected of a field.
* `Part.rules`, `Expected.rules`: The fields of an object.
* `Expected.Met`: A value that is as expected.
* `Expected.next`, `Expected.along`: What is expected behind some steps.
* `Expected.isLevel`, `Expected.levels`: The places that take a level, and how many of
  them are passed.
* `Expected.left?`: The room that is left inside what is expected.
* `entered?`, `reached?`: The value behind some steps.

## Theorems

* `is_part_iff`: The rules of a part make up the part.
* `rules_apart`: No two rules of an object speak of one entry.
* `next_entry`: What is expected of the value of a field.
* `not_allows_levels`: Room that is too small inside is too small from further out.
-/

namespace ClientPlan

namespace Document

/-- What is expected at some place of a document. -/
inductive Expected where
  | string
  | version
  | oneOf (words : List String)
  | object (part : Part)
  | type
  | location
  /-- The object of a type of which the tag is known. -/
  | typed (category : Category)
  /-- The object of a location of which the tag is known. -/
  | located (slot : Slot)
  | listOf (part : Part)
  | orNull (expected : Expected)

/-- What is expected of a field of an object. -/
structure FieldRule where
  field : Field
  /-- Whether the field has to be present. -/
  needed : Bool
  value : Expected

/-- The rules for the fields of a part. -/
def Part.rules : Part → List FieldRule
  | document => [⟨.plain "version", false, .version⟩, ⟨.plain "services", false, .listOf .service⟩]
  | service =>
    [⟨⟨"serviceName", "service_name"⟩, true, .object .typeName⟩,
      ⟨.plain "endpoints", false, .listOf .endpoint⟩]
  | typeName => [⟨.plain "name", true, .string⟩, ⟨.plain "package", false, .orNull .string⟩]
  | endpoint =>
    [⟨⟨"endpointName", "endpoint_name"⟩, true, .string⟩,
      ⟨⟨"httpMethod", "http_method"⟩, false, .string⟩,
      ⟨⟨"httpPath", "http_path"⟩, false, .string⟩,
      ⟨.plain "auth", false, .orNull (.object .auth)⟩,
      ⟨.plain "args", false, .listOf .argument⟩, ⟨.plain "returns", false, .orNull .type⟩]
  | auth => [⟨.plain "type", true, .oneOf ["header", "cookie"]⟩]
  | argument =>
    [⟨⟨"argName", "arg_name"⟩, true, .string⟩, ⟨.plain "type", true, .type⟩,
      ⟨⟨"paramType", "param_type"⟩, true, .location⟩]
  | item => [⟨itemField, true, .type⟩]
  | map => [⟨keyField, true, .type⟩, ⟨valueField, true, .type⟩]
  | external =>
    [⟨externalField, true, .object .typeName⟩, ⟨.plain "fallback", false, .orNull .type⟩]
  | empty => []
  | parameter => [⟨⟨"paramId", "param_id"⟩, true, .string⟩]

/-- The rule for the field that is named like the tag of a type. -/
def typedRule (category : Category) : FieldRule where
  field := .plain category.word
  needed := true
  value :=
    match category with
    | .primitive => .oneOf (Primitive.all.map Primitive.wireName)
    | .optional | .list | .set => .object .item
    | .map => .object .map
    | .reference => .object .typeName
    | .external => .object .external

/-- The rule for the field that is named like the tag of a location. -/
def locatedRule : Slot → FieldRule
  | .body => ⟨.plain "body", false, .object .empty⟩
  | .header => ⟨.plain "header", true, .object .parameter⟩
  | .path => ⟨.plain "path", false, .object .empty⟩
  | .query => ⟨.plain "query", true, .object .parameter⟩

namespace Expected

/-- The rules for the fields of what is expected. Before its tag is known, those of a type
    or a location cannot be told. -/
def rules : Expected → List FieldRule
  | object part => part.rules
  | typed category => [typedRule category]
  | located slot => [locatedRule slot]
  | orNull expected => expected.rules
  | _ => []

/-- What is expected one step further. -/
def next : Expected → Step → Option Expected
  | type, .tag word => (Category.all.find? fun category => category.word = word).map typed
  | location, .tag word => (Slot.all.find? fun slot => slot.word = word).map located
  | listOf part, .item _ => some (object part)
  | orNull expected, step => expected.next step
  | expected, .entry name =>
    (expected.rules.find? fun rule => name ∈ rule.field.spellings).map FieldRule.value
  | _, _ => none

/-- What is expected behind some steps. -/
def along : Expected → List Step → Option Expected
  | expected, [] => some expected
  | expected, step :: steps => (expected.next step).bind fun inner => inner.along steps

/-- Whether a level is taken here: by a type when its tag is known, by the object around
    some items, and by a name. -/
def isLevel : Expected → Bool
  | typed _ | object .item | object .typeName => true
  | orNull expected => expected.isLevel
  | _ => false

/-- The levels that are taken on the way along some steps, at both ends as well. -/
def levels : Expected → List Step → Nat
  | expected, [] => expected.isLevel.toNat
  | expected, step :: steps =>
    expected.isLevel.toNat + ((expected.next step).map fun inner => inner.levels steps).getD 0

/-- The room that is left inside what is expected, if there is room for it. -/
def left? (expected : Expected) (room : Room) : Option Room :=
  if expected.isLevel then room.take? else some room

end Expected

/-- The value one step further. A tag leads to the object that has it. -/
def entered? : Json → Step → Option Json
  | .obj entries, .entry name => Json.lookup name entries
  | .obj entries, .tag word =>
    if Json.lookup tagEntry entries = some (.str word) then some (.obj entries) else none
  | .arr items, .item position => items[position]?
  | _, _ => none

/-- The value behind some steps. -/
def reached? : Json → List Step → Option Json
  | value, [] => some value
  | value, step :: steps => (entered? value step).bind fun inner => reached? inner steps

section Grammar

variable (limits : Limits)

/-- The values that a part can be, however deep they go. -/
def Part.Is : Part → Json → Prop
  | document => IsDocument limits.anyDepth
  | service => IsService none
  | typeName => IsTypeName none
  | endpoint => IsEndpoint none
  | auth => IsAuth
  | argument => IsArgument none
  | item => HasItem none
  | map =>
    IsObject fun entries => Has keyField (IsType none) entries ∧ Has valueField (IsType none) entries
  | external =>
    IsObject fun entries =>
      Has externalField (IsTypeName none) entries ∧
        MayHave (.plain "fallback") (OrNull (IsType none)) entries
  | empty => IsObject fun _ => True
  | parameter => IsParameter

/-- A value that is as expected, however deep it goes. -/
def Expected.Met : Expected → Json → Prop
  | string => IsString
  | version => IsVersion limits.anyDepth
  | oneOf words => IsWord words
  | object part => part.Is limits
  | type => IsType none
  | location => IsLocation
  | typed category =>
    IsObject fun entries => Tagged category.word entries ∧ Content none category entries
  | located slot => IsObject fun entries => Tagged slot.word entries ∧ LocationContent slot entries
  | listOf part => IsListOf (part.Is limits)
  | orNull expected => OrNull expected.Met

/-- Entries that keep to the rule for a field. -/
def FieldRule.Kept (rule : FieldRule) (entries : List (Json.Str × Json)) : Prop :=
  if rule.needed then Has rule.field (rule.value.Met limits) entries
  else MayHave rule.field (rule.value.Met limits) entries

/-- Without a limit a level changes nothing. -/
theorem within_none_iff (kind : Room → Json → Prop) (value : Json) :
    Within kind none value ↔ kind none value := by
  simp only [Within, Room.take?, Option.some.injEq, exists_eq_left']

/-- A part is an object whose entries keep to its rules. -/
theorem is_part_iff (part : Part) (value : Json) :
    part.Is limits value ↔
      IsObject (fun entries => ∀ rule ∈ part.rules, rule.Kept limits entries) value := by
  cases part <;>
    simp only [Part.Is, Part.rules, FieldRule.Kept, Expected.Met, IsDocument, IsService, IsTypeName,
      IsEndpoint, IsAuth, IsArgument, IsParameter, HasItem, within_none_iff, Limits.anyDepth,
      List.forall_mem_cons, List.not_mem_nil, false_implies, implies_true, and_true, if_true,
      Bool.false_eq_true, if_false]

end Grammar

/-- Two rules that speak of different entries. -/
def FieldRule.Apart (r r' : FieldRule) : Prop :=
  ∀ spelling ∈ r.field.spellings, spelling ∉ r'.field.spellings

instance (r r' : FieldRule) : Decidable (r.Apart r') :=
  inferInstanceAs (Decidable (∀ spelling ∈ r.field.spellings, spelling ∉ r'.field.spellings))

/-- No two rules of an object speak of one entry. -/
theorem rules_apart (expected : Expected) : expected.rules.Pairwise FieldRule.Apart := by
  -- Only the parts have several rules, and their spellings are compared one by one.
  induction expected with
  | object part => cases part <;> decide
  | typed category => exact List.pairwise_singleton _ _
  | located slot => exact List.pairwise_singleton _ _
  | orNull expected ih => exact ih
  | _ => exact List.Pairwise.nil

theorem next_of_entry (expected : Expected) (name : String) :
    expected.next (.entry name) =
      (expected.rules.find? fun rule => name ∈ rule.field.spellings).map FieldRule.value := by
  induction expected with
  | orNull expected ih => exact ih
  | _ => rfl

/-- What is expected of the value of a field is said by its rule. -/
theorem next_entry (expected : Expected) (rule : FieldRule) (hrule : rule ∈ expected.rules)
    (name : String) (hname : name ∈ rule.field.spellings) :
    expected.next (.entry name) = some rule.value := by
  have hfind : (expected.rules.find? fun rule => name ∈ rule.field.spellings) = some rule := by
    rcases List.append_of_mem hrule with ⟨before, after, hsplit⟩
    have hapart := rules_apart expected
    rw [hsplit, List.pairwise_append] at hapart
    rw [hsplit, List.find?_append, List.find?_cons_of_pos (by simpa using hname)]
    -- No rule in front of it speaks of the entry.
    have hbefore : (before.find? fun rule => name ∈ rule.field.spellings) = none := by
      refine List.find?_eq_none.2 fun other hother => ?_
      rw [decide_eq_true_eq]
      exact fun hmem => hapart.2.2 other hother rule List.mem_cons_self name hmem hname
    rw [hbefore, Option.none_or]
  rw [next_of_entry, hfind, Option.map_some]

/-- A place that is too deep inside a value is too deep as it is seen from further out. -/
theorem not_allows_levels {expected inner : Expected} {step : Step} {room left : Room}
    (hnext : expected.next step = some inner) (hleft : expected.left? room = some left)
    (steps : List Step) (h : ¬left.Allows (inner.levels steps)) :
    ¬room.Allows (expected.levels (step :: steps)) := by
  rw [Expected.levels, hnext, Option.map_some, Option.getD_some]
  unfold Expected.left? at hleft
  -- A level that is taken here is missing inside, and otherwise nothing is.
  split at hleft
  · rename_i hlevel
    rwa [hlevel, Bool.toNat_true, Nat.add_comm, Room.allows_succ_iff hleft]
  · rename_i hlevel
    rw [Bool.not_eq_true] at hlevel
    cases hleft
    rwa [hlevel, Bool.toNat_false, Nat.zero_add]

end Document

end ClientPlan
