import ClientPlan.Document.OfJson
import ClientPlan.Proofs.Document.Success

/-!
# What a Check Reads

The fields that the check of each part of a document reads, and that it reads nothing
else.

What stands at some place of a document is of a certain kind, and the kind says which
fields are looked for if there is an object. A part has the same fields wherever it
stands. A type and a location say by a tag what they are, so their fields depend on the
entries, and the field of one type is nothing to another one.

A check finds the same in two objects whose fields agree, that is, are absent from both,
or stand in both under one spelling with values in which the same is found. The problems
agree as well as the results, since what a check gives is compared as a whole. For types
and locations what follows the tag is brought out of the check first.

What is read at all matters for strings, too. One that is not text is replaced as soon as
it is read, so what comes of it has to be left open if it stands where something is read,
and not otherwise.

## Main definitions

* `Kind`: What is read at some place of a document.
* `Field.spellings`: The names under which a field may stand.
* `Part.fields`, `Kind.fields?`: The fields of an object of some kind.
* `Part.check`: The check of a part.
* `checkTyped`, `checkLocated`: What is behind the tag of a type or a location.
* `Kind.Alike`: Two values in which the same is found.
* `Agree`: A field of two objects with values in which the same is found.
* `Kind.Garbled`: A string that is not text stands where something is read.
* `Json.isWhole`: Every string in a value is text.

## Theorems

* `required_congr`, `defaulted_congr`, `nullable_congr`, `listOf_congr`: The pieces of a
  check.
* `check_of_agree`: The parts.
* `checkType_eq`, `checkLocation_eq`: The checks that go by a tag.
* `alike_of_agree`: In two objects whose fields agree the same is found.
* `Kind.not_garbled_of_isWhole`: Where every string is text, none that is read is not.
-/

namespace ClientPlan

namespace Document

/-- What is read at some place of a document. -/
inductive Kind where
  /-- A value without parts, such as a string. -/
  | leaf
  | object (part : Part)
  | type
  | location
  /-- An array of objects of one kind. -/
  | listOf (part : Part)
  deriving DecidableEq, Repr

/-- The names under which a field may stand. -/
def Field.spellings (f : Field) : List String :=
  [f.name, f.alternative]

/-- What stands behind the tag of a type. -/
def typeContent : Category → Kind
  | .primitive => .leaf
  | .optional | .list | .set => .object .item
  | .map => .object .map
  | .reference => .object .typeName
  | .external => .object .external

/-- What stands behind the tag of a location. -/
def locationContent : Slot → Kind
  | .body | .path => .object .empty
  | .header | .query => .object .parameter

/-- The fields of a part, with what is read in each of them. -/
def Part.fields : Part → List (Field × Kind)
  | document => [(.plain "version", .leaf), (.plain "services", .listOf .service)]
  | service =>
    [(⟨"serviceName", "service_name"⟩, .object .typeName),
      (.plain "endpoints", .listOf .endpoint)]
  | typeName => [(.plain "name", .leaf), (.plain "package", .leaf)]
  | endpoint =>
    [(⟨"endpointName", "endpoint_name"⟩, .leaf), (⟨"httpMethod", "http_method"⟩, .leaf),
      (⟨"httpPath", "http_path"⟩, .leaf), (.plain "auth", .object .auth),
      (.plain "args", .listOf .argument), (.plain "returns", .type)]
  | auth => [(.plain "type", .leaf)]
  | argument =>
    [(⟨"argName", "arg_name"⟩, .leaf), (.plain "type", .type),
      (⟨"paramType", "param_type"⟩, .location)]
  | item => [(itemField, .type)]
  | map => [(keyField, .type), (valueField, .type)]
  | external => [(externalField, .object .typeName), (.plain "fallback", .type)]
  | empty => []
  | parameter => [(⟨"paramId", "param_id"⟩, .leaf)]

/-- The fields of an object that says by a tag which of some choices it is: the tag, and
    a field that is named like it. -/
def taggedFields {τ : Type} (choices : List τ) (word : τ → String) (content : τ → Kind)
    (entries : List (Json.Str × Json)) : List (Field × Kind) :=
  (.plain tagEntry, .leaf) ::
    match (Json.lookup tagEntry entries).bind (choice? choices word) with
    | none => []
    | some choice => [(.plain (word choice), content choice)]

/-- The fields that are looked for in an object, where one is read. -/
def Kind.fields? (entries : List (Json.Str × Json)) : Kind → Option (List (Field × Kind))
  | leaf | listOf _ => none
  | object part => some part.fields
  | type => some (taggedFields Category.all Category.word typeContent entries)
  | location => some (taggedFields Slot.all Slot.word locationContent entries)

/-- The object behind the tag of a collection or an optional. -/
def checkItem (room : Room) (value : Json) : Checked TypeForm :=
  within room fun room => object .item value fun entries _ =>
    required itemField entries fun v _ => checkType room v

/-- The object behind the tag of a map. -/
def checkMap (room : Room) (value : Json) : Checked (TypeForm × TypeForm) :=
  object .map value fun entries _ =>
    (required keyField entries fun v _ => checkType room v).both
      (required valueField entries fun v _ => checkType room v)

/-- The object behind the tag of a type that comes from elsewhere. -/
def checkExternal (room : Room) (value : Json) : Checked (TypeName × Option TypeForm) :=
  object .external value fun entries _ =>
    (required externalField entries fun v _ => checkTypeName room v).both
      (defaulted (.plain "fallback") none entries fun v _ => nullable v (checkType room))

/-- The type that stands behind a tag, with the room that is left inside the type. -/
def checkTyped (room : Room) (entries : List (Json.Str × Json)) : Category → Checked TypeForm
  | .primitive =>
    (content .primitive entries fun v _ => checkWord Primitive.all Primitive.wireName v).map
      TypeForm.primitive
  | .optional => (content .optional entries fun v _ => checkItem room v).map TypeForm.optional
  | .list => (content .list entries fun v _ => checkItem room v).map TypeForm.list
  | .set => (content .set entries fun v _ => checkItem room v).map TypeForm.set
  | .map =>
    (content .map entries fun v _ => checkMap room v).map fun (key, value) => .map key value
  | .reference =>
    (content .reference entries fun v _ => checkTypeName room v).map TypeForm.reference
  | .external =>
    (content .external entries fun v _ => checkExternal room v).map
      fun (target, fallback) => withFallback target fallback

/-- The location that stands behind a tag. -/
def checkLocated (entries : List (Json.Str × Json)) : Slot → Checked Location
  | .body => (defaulted (.plain "body") () entries fun v _ => checkEmpty v).map fun _ => .body
  | .header => (required (.plain "header") entries fun v _ => checkParameter v).map Location.header
  | .path => (defaulted (.plain "path") () entries fun v _ => checkEmpty v).map fun _ => .path
  | .query => (required (.plain "query") entries fun v _ => checkParameter v).map Location.query

/-- What a part stands for. -/
def Part.Result : Part → Type
  | document => Document
  | service => Service TypeForm
  | typeName => TypeName
  | endpoint => Endpoint TypeForm
  | auth => Auth
  | argument => Argument TypeForm
  | item => TypeForm
  | map => TypeForm × TypeForm
  | external => TypeName × Option TypeForm
  | empty => Unit
  | parameter => String

/-- The check of a part. One that can stand in a type is told how much room there is at
    its place. -/
def Part.check (limits : Limits) (room : Room) : (part : Part) → Json → Checked part.Result
  | document => fun value => ofJson value limits
  | service => checkService limits
  | typeName => checkTypeName room
  | endpoint => checkEndpoint limits
  | auth => checkAuth
  | argument => checkArgument limits
  | item => checkItem room
  | map => checkMap room
  | external => checkExternal room
  | empty => checkEmpty
  | parameter => checkParameter

/-- In two values the same is found, however much room there is. -/
def Kind.Alike : Kind → Json → Json → Prop
  | leaf, v, w => v = w
  | object part, v, w => ∀ limits room, part.check limits room v = part.check limits room w
  | type, v, w => ∀ room, checkType room v = checkType room w
  | location, v, w => checkLocation v = checkLocation w
  | listOf part, v, w => ∀ limits room,
    Document.listOf (part.check limits room) v = Document.listOf (part.check limits room) w

/-- Two values that are the same, or in which the same is found though neither is null.
    Null stands for what is absent where that is allowed, and is not looked into. -/
def Kind.Same (kind : Kind) (v w : Json) : Prop :=
  v = w ∨ (v ≠ .null ∧ w ≠ .null ∧ kind.Alike v w)

/-- A field is absent from two objects, or it stands in both under one spelling and has
    the same value, as far as that is read. -/
def Agree (f : Field) (kind : Kind) (entries entries' : List (Json.Str × Json)) : Prop :=
  (f.find? entries = none ∧ f.find? entries' = none) ∨
    ∃ name v w, f.find? entries = some (name, v) ∧ f.find? entries' = some (name, w) ∧
      kind.Same v w

theorem Kind.Same.alike {kind : Kind} {v w : Json} (h : kind.Same v w) : kind.Alike v w := by
  rcases h with rfl | ⟨-, -, h⟩
  · cases kind with
    | leaf | location => rfl
    | object part | listOf part => exact fun _ _ => rfl
    | type => exact fun _ => rfl
  · exact h

theorem Kind.Same.leaf {v w : Json} (h : Kind.leaf.Same v w) : v = w :=
  h.alike

theorem agree_of_eq {f : Field} (kind : Kind) {entries entries' : List (Json.Str × Json)}
    (h : f.find? entries = f.find? entries') : Agree f kind entries entries' := by
  rcases hfind : f.find? entries with _ | ⟨name, v⟩
  · exact Or.inl ⟨hfind, h ▸ hfind⟩
  · exact Or.inr ⟨name, v, v, hfind, h ▸ hfind, Or.inl rfl⟩

/-- What is found of a field stands under one of its spellings. -/
theorem lookup_of_find? {f : Field} {entries : List (Json.Str × Json)} {name : String} {v : Json}
    (h : f.find? entries = some (name, v)) :
    name ∈ f.spellings ∧ Json.lookup name entries = some v := by
  unfold Field.find? at h
  split at h
  · rename_i hlookup
    cases h
    exact ⟨List.mem_cons_self, hlookup⟩
  · split at h
    · rename_i hlookup
      cases h
      exact ⟨List.mem_cons_of_mem _ List.mem_cons_self, hlookup⟩
    · cases h

section Pieces

variable {α : Type} {kind : Kind} {entries entries' : List (Json.Str × Json)}

theorem field_of_none (f : Field) (absent : Checked α) (check : Json → Checked α)
    (h : f.find? entries = none) : (field f absent entries fun v _ => check v) = absent := by
  unfold field
  split
  · rfl
  · rename_i hsome
    rw [h] at hsome
    cases hsome

theorem field_of_some (f : Field) (absent : Checked α) (check : Json → Checked α)
    {name : String} {v : Json} (h : f.find? entries = some (name, v)) :
    (field f absent entries fun v _ => check v) = (check v).under (.entry name) := by
  unfold field
  split
  · rename_i hnone
    rw [h] at hnone
    cases hnone
  · rename_i hsome
    rw [h] at hsome
    cases hsome
    rfl

/-- A field that agrees has the same value for every check that looks at it in the same
    way. -/
theorem field_congr (f : Field) (absent : Checked α) (check : Json → Checked α)
    (h : Agree f kind entries entries') (hcheck : ∀ v w, kind.Same v w → check v = check w) :
    (field f absent entries fun v _ => check v) = field f absent entries' fun v _ => check v := by
  rcases h with ⟨hnone, hnone'⟩ | ⟨name, v, w, hsome, hsome', hsame⟩
  · rw [field_of_none f absent check hnone, field_of_none f absent check hnone']
  · rw [field_of_some f absent check hsome, field_of_some f absent check hsome',
      hcheck v w hsame]

theorem required_congr (f : Field) (check : Json → Checked α)
    (h : Agree f kind entries entries') (hcheck : ∀ v w, kind.Same v w → check v = check w) :
    (required f entries fun v _ => check v) = required f entries' fun v _ => check v :=
  field_congr f _ check h hcheck

theorem defaulted_congr (f : Field) (default : α) (check : Json → Checked α)
    (h : Agree f kind entries entries') (hcheck : ∀ v w, kind.Same v w → check v = check w) :
    (defaulted f default entries fun v _ => check v) =
      defaulted f default entries' fun v _ => check v :=
  field_congr f _ check h hcheck

/-- Values of which neither or both are null are the same to a check that allows null. -/
theorem nullable_congr (check : Json → Checked α) {v w : Json} (h : kind.Same v w)
    (hcheck : kind.Alike v w → check v = check w) : nullable v check = nullable w check := by
  rcases h with rfl | ⟨hv, hw, halike⟩
  · rfl
  · rw [nullable_of_ne_null v check hv, nullable_of_ne_null w check hw, hcheck halike]

end Pieces

/-- The checks of the items make up the check of a list. -/
theorem itemsFrom_congr {α : Type} (check : Json → Checked α) (position : Nat)
    (values values' : List Json) (h : values.map check = values'.map check) :
    itemsFrom check position values = itemsFrom check position values' := by
  induction values generalizing values' position with
  | nil =>
      rw [List.map_nil, eq_comm, List.map_eq_nil_iff] at h
      rw [h]
  | cons v values ih =>
      -- The items are checked at the same positions, so the lists go in step.
      cases values' with
      | nil => cases h
      | cons w values' =>
          rw [List.map_cons, List.map_cons, List.cons.injEq] at h
          rw [itemsFrom, itemsFrom, h.1, ih (position + 1) values' h.2]

theorem listOf_congr {α : Type} (check : Json → Checked α) (items items' : List Json)
    (h : items.map check = items'.map check) :
    listOf check (.arr items) = listOf check (.arr items') :=
  itemsFrom_congr check 0 items items' h

/-- In two objects whose fields agree the check of a part finds the same. -/
theorem check_of_agree (limits : Limits) (room : Room) (part : Part)
    (entries entries' : List (Json.Str × Json))
    (h : ∀ p ∈ part.fields, Agree p.1 p.2 entries entries') :
    part.check limits room (.obj entries) = part.check limits room (.obj entries') := by
  have hleaf {α : Type} (check : Json → Checked α) (v w : Json) (h : Kind.leaf.Same v w) :
      check v = check w := by
    rw [h.leaf]
  -- The check of a part is put together from the checks of its fields, so it is enough to
  -- bring in, field by field, that they find the same.
  cases part with
  | document =>
      simp only [Part.fields, List.forall_mem_cons] at h
      rcases h with ⟨hversion, hservices, -⟩
      have hversion := defaulted_congr _ defaultVersion (checkVersion limits) hversion (hleaf _)
      have hservices := defaulted_congr _ [] (listOf (checkService limits)) hservices
        fun _ _ h => h.alike limits room
      show ofJson (.obj entries) limits = ofJson (.obj entries') limits
      simp only [ofJson, object, hversion, hservices]
  | service =>
      simp only [Part.fields, List.forall_mem_cons] at h
      rcases h with ⟨hname, hendpoints, -⟩
      -- The name of a service is the outermost part that takes a level.
      have hname := required_congr _ (checkTypeName limits.levels) hname
        fun _ _ h => h.alike limits limits.levels
      have hendpoints := defaulted_congr _ [] (listOf (checkEndpoint limits)) hendpoints
        fun _ _ h => h.alike limits room
      show checkService limits (.obj entries) = checkService limits (.obj entries')
      simp only [checkService, object, hname, hendpoints]
  | typeName =>
      simp only [Part.fields, List.forall_mem_cons] at h
      rcases h with ⟨hname, hpackage, -⟩
      have hname := required_congr _ checkString hname (hleaf _)
      have hpackage := defaulted_congr _ none (nullable · checkString) hpackage (hleaf _)
      show checkTypeName room (.obj entries) = checkTypeName room (.obj entries')
      simp only [checkTypeName, object, hname, hpackage]
  | endpoint =>
      simp only [Part.fields, List.forall_mem_cons] at h
      rcases h with ⟨hname, hmethod, hpath, hauth, hargs, hreturns, -⟩
      have hname := required_congr _ checkString hname (hleaf _)
      have hmethod := defaulted_congr _ "GET" checkString hmethod (hleaf _)
      have hpath := defaulted_congr _ "/" checkString hpath (hleaf _)
      have hargs := defaulted_congr _ [] (listOf (checkArgument limits)) hargs
        fun _ _ h => h.alike limits room
      -- Where null is allowed, it is in the place of neither value or of both.
      have hauth := defaulted_congr _ none (nullable · checkAuth) hauth
        fun _ _ h => nullable_congr checkAuth h fun halike => halike limits room
      have hreturns := defaulted_congr _ none (nullable · (checkType limits.levels)) hreturns
        fun _ _ h => nullable_congr (checkType limits.levels) h fun halike => halike limits.levels
      show checkEndpoint limits (.obj entries) = checkEndpoint limits (.obj entries')
      simp only [checkEndpoint, object, hname, hmethod, hpath, hauth, hargs, hreturns]
  | auth =>
      simp only [Part.fields, List.forall_mem_cons] at h
      have htype := required_congr _ (checkWord [.header, .cookie] Auth.word) h.1 (hleaf _)
      show checkAuth (.obj entries) = checkAuth (.obj entries')
      simp only [checkAuth, object, htype]
  | argument =>
      simp only [Part.fields, List.forall_mem_cons] at h
      rcases h with ⟨hname, htype, hlocation, -⟩
      have hname := required_congr _ checkString hname (hleaf _)
      have htype := required_congr _ (checkType limits.levels) htype
        fun _ _ h => h.alike limits.levels
      have hlocation := required_congr _ checkLocation hlocation fun _ _ h => h.alike
      show checkArgument limits (.obj entries) = checkArgument limits (.obj entries')
      simp only [checkArgument, object, hname, htype, hlocation]
  | item =>
      simp only [Part.fields, List.forall_mem_cons] at h
      -- The room of the type is what is left in the object around it.
      have hitem := fun room => required_congr _ (checkType room) h.1 fun _ _ h => h.alike room
      show checkItem room (.obj entries) = checkItem room (.obj entries')
      simp only [checkItem, object, hitem]
  | map =>
      simp only [Part.fields, List.forall_mem_cons] at h
      rcases h with ⟨hkey, hvalue, -⟩
      have hkey := required_congr _ (checkType room) hkey fun _ _ h => h.alike room
      have hvalue := required_congr _ (checkType room) hvalue fun _ _ h => h.alike room
      show checkMap room (.obj entries) = checkMap room (.obj entries')
      simp only [checkMap, object, hkey, hvalue]
  | external =>
      simp only [Part.fields, List.forall_mem_cons] at h
      rcases h with ⟨htarget, hfallback, -⟩
      have htarget := required_congr _ (checkTypeName room) htarget
        fun _ _ h => h.alike limits room
      have hfallback := defaulted_congr _ none (nullable · (checkType room)) hfallback
        fun _ _ h => nullable_congr (checkType room) h fun halike => halike room
      show checkExternal room (.obj entries) = checkExternal room (.obj entries')
      simp only [checkExternal, object, htarget, hfallback]
  | empty => rfl
  | parameter =>
      simp only [Part.fields, List.forall_mem_cons] at h
      have hid := required_congr _ checkString h.1 (hleaf _)
      show checkParameter (.obj entries) = checkParameter (.obj entries')
      simp only [checkParameter, object, hid]

/-- What the check of a type does behind the tag. -/
theorem checkType_eq (room : Room) (value : Json) :
    checkType room value =
      tagged Category.all Category.word value fun entries _ category =>
        within room fun left => checkTyped left entries category := by
  rw [checkType]
  refine congrArg _ (funext fun entries => funext fun _ => funext fun category => ?_)
  refine congrArg _ (funext fun left => ?_)
  cases category with
  | external =>
      simp only [checkTyped, checkExternal]
      refine congrArg _ (congrArg _ (funext fun v => funext fun _ => congrArg _ ?_))
      refine funext fun inner => funext fun _ => congrArg _ (congrArg _ ?_)
      -- A fallback of null is told apart by a match there, and by the piece for it here.
      refine funext fun t => funext fun _ => ?_
      cases t <;> rfl
  | _ => rfl

theorem checkLocation_eq (value : Json) :
    checkLocation value =
      tagged Slot.all Slot.word value fun entries _ slot => checkLocated entries slot := by
  unfold checkLocation
  refine congrArg _ (funext fun entries => funext fun _ => funext fun slot => ?_)
  cases slot <;> rfl

theorem find?_plain (name : String) (entries : List (Json.Str × Json)) :
    (Field.plain name).find? entries = (Json.lookup name entries).map fun v => (name, v) := by
  unfold Field.find? Field.plain
  rcases Json.lookup name entries with _ | v <;> rfl

/-- An entry that is taken as a whole is the same in two objects that agree in it. -/
theorem lookup_eq_of_agree (name : String) (entries entries' : List (Json.Str × Json))
    (h : Agree (.plain name) .leaf entries entries') :
    Json.lookup name entries = Json.lookup name entries' := by
  rcases h with ⟨hnone, hnone'⟩ | ⟨found, v, w, hsome, hsome', hsame⟩
  · rw [find?_plain, Option.map_eq_none_iff] at hnone hnone'
    rw [hnone, hnone']
  · rw [find?_plain, Option.map_eq_some_iff] at hsome hsome'
    rcases hsome with ⟨_, hlookup, ⟨⟩⟩
    rcases hsome' with ⟨_, hlookup', ⟨⟩⟩
    rw [hlookup, hlookup', hsame.leaf]

/-- Two objects with one tag are checked alike if the field that belongs to the tag is. -/
theorem tagged_congr {τ α : Type} (choices : List τ) (word : τ → String) (content : τ → Kind)
    (check : List (Json.Str × Json) → τ → Checked α) (entries entries' : List (Json.Str × Json))
    (h : ∀ p ∈ taggedFields choices word content entries, Agree p.1 p.2 entries entries')
    (hcheck : ∀ choice, Agree (.plain (word choice)) (content choice) entries entries' →
      check entries choice = check entries' choice) :
    (tagged choices word (.obj entries) fun entries _ choice => check entries choice) =
      tagged choices word (.obj entries') fun entries _ choice => check entries choice := by
  rw [taggedFields, List.forall_mem_cons] at h
  rcases h with ⟨htag, hcontent⟩
  have htag := lookup_eq_of_agree tagEntry entries entries' htag
  rcases htagged : Json.lookup tagEntry entries with _ | tag
  · simp only [tagged, ← htag, htagged]
  · rcases hchoice : choice? choices word tag with _ | choice
    · simp only [tagged, ← htag, htagged, hchoice]
    · -- The tag is known, and a field is named like it.
      rw [htagged, Option.bind_some, hchoice, List.forall_mem_cons] at hcontent
      simp only [tagged, ← htag, htagged, hchoice, hcheck choice hcontent.1]

theorem checkTyped_congr (room : Room) (category : Category)
    (entries entries' : List (Json.Str × Json))
    (h : Agree (.plain category.word) (typeContent category) entries entries') :
    checkTyped room entries category = checkTyped room entries' category := by
  have hcontent {α : Type} (check : Json → Checked α)
      (hcheck : ∀ v w, (typeContent category).Same v w → check v = check w) :
      (content category entries fun v _ => check v) =
        content category entries' fun v _ => check v :=
    required_congr _ check h hcheck
  -- Parts of types do not look at the other limits, so any will do.
  cases category with
  | primitive =>
      have hkind := hcontent (checkWord Primitive.all Primitive.wireName) fun _ _ h => by
        rw [h.leaf]
      simp only [checkTyped, hkind]
  | map => simp only [checkTyped, hcontent (checkMap room) fun _ _ h => h.alike .standard room]
  | reference =>
      simp only [checkTyped, hcontent (checkTypeName room) fun _ _ h => h.alike .standard room]
  | external =>
      simp only [checkTyped, hcontent (checkExternal room) fun _ _ h => h.alike .standard room]
  | _ => simp only [checkTyped, hcontent (checkItem room) fun _ _ h => h.alike .standard room]

theorem checkLocated_congr (slot : Slot) (entries entries' : List (Json.Str × Json))
    (h : Agree (.plain slot.word) (locationContent slot) entries entries') :
    checkLocated entries slot = checkLocated entries' slot := by
  -- A slot without content of its own may lack its field.
  cases slot with
  | body =>
      exact congrArg (Except.map _)
        (defaulted_congr _ () checkEmpty h fun _ _ h => h.alike .standard none)
  | path =>
      exact congrArg (Except.map _)
        (defaulted_congr _ () checkEmpty h fun _ _ h => h.alike .standard none)
  | header =>
      exact congrArg (Except.map _)
        (required_congr _ checkParameter h fun _ _ h => h.alike .standard none)
  | query =>
      exact congrArg (Except.map _)
        (required_congr _ checkParameter h fun _ _ h => h.alike .standard none)

/-- In two objects whose fields agree the same is found. -/
theorem alike_of_agree (kind : Kind) (entries entries' : List (Json.Str × Json))
    (fields : List (Field × Kind)) (hfields : kind.fields? entries = some fields)
    (h : ∀ p ∈ fields, Agree p.1 p.2 entries entries') :
    kind.Alike (.obj entries) (.obj entries') := by
  -- A tagged object has its tag and, behind it, the field that the tag names.
  cases kind with
  | leaf => cases hfields
  | listOf part => cases hfields
  | object part =>
      cases hfields
      exact fun limits room => check_of_agree limits room part entries entries' h
  | type =>
      cases hfields
      intro room
      rw [checkType_eq, checkType_eq]
      refine tagged_congr _ _ typeContent
        (fun entries category => within room fun left => checkTyped left entries category)
        entries entries' h fun category hcontent => ?_
      exact congrArg _ (funext fun left => checkTyped_congr left category entries entries' hcontent)
  | location =>
      cases hfields
      rw [Kind.Alike, checkLocation_eq, checkLocation_eq]
      exact tagged_congr _ _ locationContent checkLocated entries entries' h fun slot =>
        checkLocated_congr slot entries entries'

/-- Somewhere in a value of some kind a string is read that is no text. -/
inductive Kind.Garbled : Kind → Json → Prop where
  | leaf (codes : List Nat) : Garbled .leaf (.str (.broken codes))
  /-- The string stands in the value of a field. -/
  | field {kind inner : Kind} {entries : List (Json.Str × Json)} {fields : List (Field × Kind)}
      {f : Field} {name : String} {v : Json} (known : kind.fields? entries = some fields)
      (mem : (f, inner) ∈ fields) (found : f.find? entries = some (name, v))
      (garbled : Garbled inner v) : Garbled kind (.obj entries)
  /-- The string stands in an item of an array. -/
  | item {part : Part} {items : List Json} {v : Json} (mem : v ∈ items)
      (garbled : Garbled (.object part) v) : Garbled (.listOf part) (.arr items)

end Document

namespace Json

mutual

/-- Whether every string in a value is text. -/
def isWhole : Json → Bool
  | .str (.broken _) => false
  | .arr items => areWhole items
  | .obj entries => entriesWhole entries
  | _ => true

/-- Whether every string in the items of an array is text. -/
def areWhole : List Json → Bool
  | [] => true
  | item :: items => item.isWhole && areWhole items

/-- Whether every string in the values of an object is text. -/
def entriesWhole : List (Str × Json) → Bool
  | [] => true
  | entry :: entries => entryWhole entry && entriesWhole entries

/-- Whether every string in the value of an entry is text. -/
def entryWhole : Str × Json → Bool
  | (_, value) => value.isWhole

end

theorem isWhole_of_mem {items : List Json} {v : Json} (h : areWhole items = true)
    (hv : v ∈ items) : v.isWhole = true := by
  induction items with
  | nil => cases hv
  | cons item items ih =>
      rw [areWhole, Bool.and_eq_true] at h
      rcases List.mem_cons.1 hv with rfl | hv
      · exact h.1
      · exact ih h.2 hv

theorem isWhole_of_lookup {entries : List (Str × Json)} {name : Str} {v : Json}
    (h : entriesWhole entries = true) (hv : lookup name entries = some v) : v.isWhole = true := by
  induction entries with
  | nil => cases hv
  | cons entry entries ih =>
      rcases entry with ⟨k, w⟩
      rw [entriesWhole, Bool.and_eq_true, entryWhole] at h
      rw [lookup] at hv
      split at hv
      · cases hv
        exact h.1
      · exact ih h.2 hv

end Json

namespace Document

/-- Where every string is text, no other one is read. -/
theorem Kind.not_garbled_of_isWhole {kind : Kind} {value : Json} (h : value.isWhole = true) :
    ¬kind.Garbled value := by
  intro hgarbled
  induction hgarbled with
  | leaf codes => cases h
  | @field kind inner entries fields f name v _ _ found _ ih =>
      rw [Json.isWhole] at h
      refine ih (Json.isWhole_of_lookup h (lookup_of_find? found).2)
  | item mem _ ih =>
      rw [Json.isWhole] at h
      exact ih (Json.isWhole_of_mem h mem)

end Document

end ClientPlan
