import ClientPlan.Document.Load
import ClientPlan.Document.ToJson
import ClientPlan.Proofs.Document.Levels

/-!
# Writing and Reading Documents

Reading is the inverse of writing, as far as there is room for types.

Without a limit on levels the value that is written for a document is accepted, and what
is read from it is that document (`ofJson_toJson_anyDepth`). This holds part by part, and
each part needs only two facts: the value of a field is found where it was put, and the
check of that value gives back what was written. Types go to any depth, so theirs is the
one induction. A limit leaves out the documents whose types take too many levels, and no
others (`ofJson_toJson_iff`).

An accepted value may spell and leave out more than a written one, so it need not be what
is written for its document. But writing and reading once more changes nothing
(`ofJson_toJson_of_ofJson`): what was read is written in full, and that is accepted.

Planning does not see all of a document. What it sees determines the document up
to the version and the fallbacks (`ofDefinitions_definitions`), and every list of
services is seen in some document. Two accepted values thus give the same
services exactly if their documents agree up to these.

## Theorems

* `checkType_toJson`, `checkLocation_toJson`, `checkArgument_toJson`,
  `checkEndpoint_toJson`, `checkService_toJson`: The parts are read back.
* `ofJson_toJson_anyDepth`, `ofJson_toJson_iff`: A document is read back, without a limit
  on levels and with one.
* `fits_of_ofJson`: What is read has had room.
* `ofJson_toJson_of_ofJson`: What an accepted value is read as is read back.
* `definitions_ofDefinitions`, `ofDefinitions_definitions`: The services of a
  document, and the document of some services.
* `definitionsOf_encode_iff`: What was encoded is loaded as it was, if there is room.
* `definitionsOf_encode_inverse`: Loading is the inverse of encoding as far as there is
  room.
* `exists_encode_not_read`: There need not be room.
-/

namespace ClientPlan

namespace Document

/-- A field is read back if it is found with its value and that value is. -/
theorem required_eq_ok {α : Type} (f : Field) (entries : List (Json.Str × Json))
    (check : (value : Json) → sizeOf value < sizeOf entries → Checked α) (value : Json) (x : α)
    (hfind : f.find? entries = some (f.name, value)) (h : ∀ hlt, check value hlt = .ok x) :
    required f entries check = .ok x :=
  (required_eq_ok_iff f entries check x).2 ⟨f.name, value, hfind, h⟩

theorem defaulted_eq_ok {α : Type} (f : Field) (default : α) (entries : List (Json.Str × Json))
    (check : (value : Json) → sizeOf value < sizeOf entries → Checked α) (value : Json) (x : α)
    (hfind : f.find? entries = some (f.name, value)) (h : ∀ hlt, check value hlt = .ok x) :
    defaulted f default entries check = .ok x :=
  (defaulted_eq_ok_iff f default entries check x).2 (Or.inr ⟨f.name, value, hfind, h⟩)

theorem map_eq_ok {α β : Type} (f : α → β) (c : Checked α) (x : α) (h : c = .ok x) :
    c.map f = .ok (f x) :=
  (Checked.map_eq_ok_iff f c (f x)).2 ⟨x, h, rfl⟩

theorem both_eq_ok {α β : Type} (a : Checked α) (b : Checked β) (x : α) (y : β)
    (ha : a = .ok x) (hb : b = .ok y) : a.both b = .ok (x, y) :=
  (Checked.both_eq_ok_iff a b x y).2 ⟨ha, hb⟩

/-- An object that was written with a tag is read by that tag, from its content
    under it. -/
theorem tagged_taggedJson {τ α : Type} (choices : List τ) (word : τ → String) (choice : τ)
    (content : Json)
    (check : (entries : List (Json.Str × Json)) →
      sizeOf entries < sizeOf (taggedJson (word choice) content) → τ → Checked α) (x : α)
    (hchoice : choice? choices word (.str (word choice)) = some choice)
    (h : ∀ hlt, check [(tagEntry, .str (word choice)), (word choice, content)] hlt choice = .ok x) :
    tagged choices word (taggedJson (word choice) content) check = .ok x :=
  (tagged_eq_ok_iff choices word _ check x).2 ⟨_, _, choice, rfl, rfl, hchoice, h⟩

/-- No tag is the name of the entry that holds it, so the content of a tagged
    object is found under the tag. -/
theorem find?_content (category : Category) (value : Json) :
    (Field.plain category.word).find?
        [(tagEntry, .str category.word), (category.word, value)] =
      some (category.word, value) := by
  cases category <;> rfl

theorem content_eq_ok {α : Type} (category : Category) (value : Json)
    (check : (inner : Json) →
      sizeOf inner < sizeOf [((tagEntry : Json.Str), Json.str category.word),
        ((category.word : Json.Str), value)] → Checked α) (x : α)
    (h : ∀ hlt, check value hlt = .ok x) :
    content category [(tagEntry, .str category.word), (category.word, value)] check = .ok x :=
  required_eq_ok (.plain category.word) _ check value x (find?_content category value) h

theorem checkWord_word {τ : Type} (choices : List τ) (word : τ → String) (choice : τ)
    (h : choice? choices word (.str (word choice)) = some choice) :
    checkWord choices word (.str (word choice)) = .ok choice := by
  unfold checkWord
  rw [h]

theorem nullable_ofOption {α : Type} (check : Json → Checked α) (write : α → Json)
    (x : Option α) (hnull : ∀ y, write y ≠ .null) (h : ∀ y, check (write y) = .ok y) :
    nullable (.ofOption write x) check = .ok x := by
  cases x with
  | none => rfl
  | some y => exact (nullable_eq_ok_iff _ check _).2 (Or.inr ⟨hnull y, y, h y, rfl⟩)

theorem listOf_map {α : Type} (check : Json → Checked α) (write : α → Json) (xs : List α)
    (h : ∀ x, check (write x) = .ok x) : listOf check (.arr (xs.map write)) = .ok xs := by
  refine (listOf_eq_ok_iff check _ xs).2 ⟨xs.map write, rfl, ?_⟩
  -- Writing and then checking is the same, item by item, as a success.
  rw [List.map_map]
  exact List.map_congr_left fun x _ => h x

theorem checkTypeName_toJson (t : TypeName) : checkTypeName none t.toJson = .ok t := by
  refine map_eq_ok _ _ (t.name, t.package) (both_eq_ok _ _ _ _ ?_ ?_)
  · exact required_eq_ok _ _ _ (.str t.name) _ rfl fun _ => rfl
  · refine defaulted_eq_ok _ _ _ _ (.ofOption .ofText t.package) _ rfl fun _ => ?_
    exact nullable_ofOption checkString .ofText t.package (fun _ => Json.noConfusion) fun _ => rfl

/-- The object around the type of the items of a collection or an optional. -/
theorem item_toJson (item : TypeForm) (h : checkType none item.toJson = .ok item) :
    (within none fun room => object .item (.obj [("itemType", item.toJson)]) fun inner _ =>
      required itemField inner fun t _ => checkType room t) = .ok item := by
  rw [within_none]
  exact required_eq_ok itemField _ _ item.toJson item rfl fun _ => h

theorem toJson_ne_null (t : TypeForm) : t.toJson ≠ .null := by
  cases t <;> exact Json.noConfusion

/-- A type is read back if there is room for it, however deep it goes. -/
theorem checkType_toJson (t : TypeForm) : checkType none t.toJson = .ok t := by
  induction t with
  | primitive kind =>
      rw [checkType]
      refine tagged_taggedJson Category.all Category.word .primitive _ _ _ rfl fun _ => ?_
      refine map_eq_ok _ _ kind (content_eq_ok .primitive _ _ _ fun _ => ?_)
      exact checkWord_word Primitive.all Primitive.wireName kind (by cases kind <;> rfl)
  | optional item ih =>
      rw [checkType]
      refine tagged_taggedJson Category.all Category.word .optional _ _ _ rfl fun _ => ?_
      exact map_eq_ok _ _ item (content_eq_ok .optional _ _ _ fun _ => item_toJson item ih)
  | list item ih =>
      rw [checkType]
      refine tagged_taggedJson Category.all Category.word .list _ _ _ rfl fun _ => ?_
      exact map_eq_ok _ _ item (content_eq_ok .list _ _ _ fun _ => item_toJson item ih)
  | set item ih =>
      rw [checkType]
      refine tagged_taggedJson Category.all Category.word .set _ _ _ rfl fun _ => ?_
      exact map_eq_ok _ _ item (content_eq_ok .set _ _ _ fun _ => item_toJson item ih)
  | map key value ihk ihv =>
      rw [checkType]
      refine tagged_taggedJson Category.all Category.word .map _ _ _ rfl fun _ => ?_
      refine map_eq_ok _ _ (key, value)
        (content_eq_ok .map _ _ _ fun _ => both_eq_ok _ _ _ _ ?_ ?_)
      · exact required_eq_ok keyField _ _ key.toJson key rfl fun _ => ihk
      · exact required_eq_ok valueField _ _ value.toJson value rfl fun _ => ihv
  | reference target =>
      rw [checkType]
      refine tagged_taggedJson Category.all Category.word .reference _ _ _ rfl fun _ => ?_
      exact map_eq_ok _ _ target
        (content_eq_ok .reference _ _ _ fun _ => checkTypeName_toJson target)
  | external target =>
      rw [checkType]
      refine tagged_taggedJson Category.all Category.word .external _ _ _ rfl fun _ => ?_
      refine map_eq_ok _ _ (target, none)
        (content_eq_ok .external _ _ _ fun _ => both_eq_ok _ _ _ _ ?_ ?_)
      · exact required_eq_ok externalField _ _ target.toJson target rfl fun _ =>
          checkTypeName_toJson target
      · -- Null is written in the place of the fallback, and read as its absence.
        exact defaulted_eq_ok _ _ _ _ .null _ rfl fun _ => rfl
  | externalOr target fallback ih =>
      rw [checkType]
      refine tagged_taggedJson Category.all Category.word .external _ _ _ rfl fun _ => ?_
      refine map_eq_ok _ _ (target, some fallback)
        (content_eq_ok .external _ _ _ fun _ => both_eq_ok _ _ _ _ ?_ ?_)
      · exact required_eq_ok externalField _ _ target.toJson target rfl fun _ =>
          checkTypeName_toJson target
      · refine defaulted_eq_ok _ _ _ _ fallback.toJson _ rfl fun _ => ?_
        -- A fallback that is there is not written as null.
        split
        · rename_i hnull _
          exact absurd hnull (toJson_ne_null fallback)
        · exact map_eq_ok some _ fallback ih

theorem checkLocation_toJson (l : Location) : checkLocation l.toJson = .ok l := by
  have hparameter (id : String) : checkParameter (.obj [("paramId", .str id)]) = .ok id :=
    required_eq_ok ⟨"paramId", "param_id"⟩ [("paramId", .str id)] (fun v _ => checkString v)
      (.str id) id rfl fun _ => rfl
  -- The content of the slots that need none is written all the same.
  cases l with
  | body =>
      refine tagged_taggedJson Slot.all Slot.word .body _ _ _ rfl fun _ => ?_
      exact map_eq_ok _ _ () (defaulted_eq_ok _ _ _ _ (.obj []) _ rfl fun _ => rfl)
  | header id =>
      refine tagged_taggedJson Slot.all Slot.word .header _ _ _ rfl fun _ => ?_
      exact map_eq_ok _ _ id (required_eq_ok _ _ _ (.obj [("paramId", .str id)]) _ rfl
        fun _ => hparameter id)
  | path =>
      refine tagged_taggedJson Slot.all Slot.word .path _ _ _ rfl fun _ => ?_
      exact map_eq_ok _ _ () (defaulted_eq_ok _ _ _ _ (.obj []) _ rfl fun _ => rfl)
  | query id =>
      refine tagged_taggedJson Slot.all Slot.word .query _ _ _ rfl fun _ => ?_
      exact map_eq_ok _ _ id (required_eq_ok _ _ _ (.obj [("paramId", .str id)]) _ rfl
        fun _ => hparameter id)

section AnyDepth

variable (limits : Limits)

theorem checkArgument_toJson (a : Argument TypeForm) :
    checkArgument limits.anyDepth a.toJson = .ok a := by
  refine map_eq_ok _ _ (a.name, a.type, a.location)
    (both_eq_ok _ _ _ _ ?_ (both_eq_ok _ _ _ _ ?_ ?_))
  · exact required_eq_ok _ _ _ (.str a.name) _ rfl fun _ => rfl
  · exact required_eq_ok _ _ _ a.type.toJson _ rfl fun _ => checkType_toJson a.type
  · exact required_eq_ok _ _ _ a.location.toJson _ rfl fun _ => checkLocation_toJson a.location

theorem checkAuth_toJson (auth : Auth) : checkAuth auth.toJson = .ok auth := by
  refine required_eq_ok (.plain "type") [("type", .str auth.word)]
    (fun v _ => checkWord [.header, .cookie] Auth.word v) (.str auth.word) _ rfl fun _ => ?_
  exact checkWord_word [.header, .cookie] Auth.word auth (by cases auth <;> rfl)

theorem checkEndpoint_toJson (e : Endpoint TypeForm) :
    checkEndpoint limits.anyDepth e.toJson = .ok e := by
  -- Every field is written, so no default is needed.
  refine map_eq_ok _ _ (e.name, e.method, e.path, e.auth, e.args, e.returns)
    (both_eq_ok _ _ _ _ ?_ (both_eq_ok _ _ _ _ ?_ (both_eq_ok _ _ _ _ ?_
      (both_eq_ok _ _ _ _ ?_ (both_eq_ok _ _ _ _ ?_ ?_)))))
  · exact required_eq_ok _ _ _ (.str e.name) _ rfl fun _ => rfl
  · exact defaulted_eq_ok _ _ _ _ (.str e.method) _ rfl fun _ => rfl
  · exact defaulted_eq_ok _ _ _ _ (.str e.path) _ rfl fun _ => rfl
  · exact defaulted_eq_ok _ _ _ _ (.ofOption Auth.toJson e.auth) _ rfl fun _ =>
      nullable_ofOption checkAuth Auth.toJson e.auth (fun _ => Json.noConfusion) checkAuth_toJson
  · exact defaulted_eq_ok _ _ _ _ (.arr (e.args.map Argument.toJson)) _ rfl fun _ =>
      listOf_map _ Argument.toJson e.args (checkArgument_toJson limits)
  · exact defaulted_eq_ok _ _ _ _ (.ofOption TypeForm.toJson e.returns) _ rfl fun _ =>
      nullable_ofOption _ TypeForm.toJson e.returns toJson_ne_null checkType_toJson

theorem checkService_toJson (s : Service TypeForm) :
    checkService limits.anyDepth s.toJson = .ok s := by
  refine map_eq_ok _ _ ((⟨s.name, s.package⟩ : TypeName), s.endpoints) (both_eq_ok _ _ _ _ ?_ ?_)
  · exact required_eq_ok _ _ _ (TypeName.toJson ⟨s.name, s.package⟩) _ rfl fun _ =>
      checkTypeName_toJson ⟨s.name, s.package⟩
  · exact defaulted_eq_ok _ _ _ _ (.arr (s.endpoints.map Endpoint.toJson)) _ rfl fun _ =>
      listOf_map _ Endpoint.toJson s.endpoints (checkEndpoint_toJson limits)

/-- What was written for a document is read as that document, its version and its
    fallbacks included, if nothing is said about levels. -/
theorem ofJson_toJson_anyDepth (d : Document) : ofJson d.toJson limits.anyDepth = .ok d := by
  refine map_eq_ok _ _ (d.version, d.services) (both_eq_ok _ _ _ _ ?_ ?_)
  · exact defaulted_eq_ok _ _ _ _ (.int d.version) _ rfl fun _ => rfl
  · exact defaulted_eq_ok _ _ _ _ (.arr (d.services.map Service.toJson)) _ rfl fun _ =>
      listOf_map _ Service.toJson d.services (checkService_toJson limits)

end AnyDepth

/-- What was written for a document is read as that document exactly if there is room for
    its types. -/
theorem ofJson_toJson_iff (limits : Limits) (d : Document) :
    ofJson d.toJson limits = .ok d ↔ d.Fits limits.levels := by
  rw [ofJson_restricts limits d.toJson d, ofJson_toJson_anyDepth]
  exact and_iff_right rfl

/-- There is room for the types of an accepted value. -/
theorem fits_of_ofJson {limits : Limits} {value : Json} {d : Document}
    (h : ofJson value limits = .ok d) : d.Fits limits.levels :=
  ((ofJson_restricts limits value d).1 h).2

end Document

/-- Changing types twice is changing them once. -/
theorem Service.mapType_mapType {ρ σ τ : Type} (f : ρ → σ) (g : σ → τ) (s : Service ρ) :
    (s.mapType f).mapType g = s.mapType (g ∘ f) := by
  have hargument : Argument.mapType g ∘ Argument.mapType f = Argument.mapType (g ∘ f) := rfl
  have hendpoint : Endpoint.mapType g ∘ Endpoint.mapType f = Endpoint.mapType (g ∘ f) := by
    funext e
    simp only [Function.comp_apply, Endpoint.mapType, List.map_map, Option.map_map, hargument]
  simp only [Service.mapType, List.map_map, hendpoint]

theorem Service.mapType_id {τ : Type} (s : Service τ) : s.mapType id = s := by
  have hargument : Argument.mapType (id : τ → τ) = id := rfl
  have hendpoint : Endpoint.mapType (id : τ → τ) = id := by
    funext e
    simp only [Endpoint.mapType, hargument, List.map_id, Option.map_id, id_eq]
  simp only [Service.mapType, hendpoint, List.map_id]

namespace Document

/-- Every list of services is what planning sees of some document. -/
theorem definitions_ofDefinitions (services : List (Service TypeExpr)) :
    (ofDefinitions services).definitions = services := by
  have herase : TypeForm.erase ∘ TypeForm.ofType = id := funext TypeForm.erase_ofType
  have hservice : Service.mapType TypeForm.erase ∘ Service.mapType TypeForm.ofType = id := by
    funext s
    rw [Function.comp_apply, Service.mapType_mapType, herase, Service.mapType_id, id_eq]
  rw [definitions, ofDefinitions, List.map_map, hservice, List.map_id]

/-- What planning sees determines the rest, the version and the fallbacks
    aside. -/
theorem ofDefinitions_definitions (d : Document) : ofDefinitions d.definitions = d.plain := by
  have hdrop : TypeForm.ofType ∘ TypeForm.erase = TypeForm.dropFallback :=
    funext TypeForm.ofType_erase
  have hservice : Service.mapType TypeForm.ofType ∘ Service.mapType TypeForm.erase =
      Service.mapType TypeForm.dropFallback := by
    funext s
    rw [Function.comp_apply, Service.mapType_mapType, hdrop]
  rw [definitions, ofDefinitions, List.map_map, hservice, plain]

theorem definitions_eq_iff_plain_eq (d d' : Document) :
    d.definitions = d'.definitions ↔ d.plain = d'.plain := by
  constructor
  · intro h
    rw [← ofDefinitions_definitions, ← ofDefinitions_definitions, h]
  · intro h
    -- What planning sees is determined by the rest, by way of its own document.
    rw [← definitions_ofDefinitions d.definitions, ← definitions_ofDefinitions d'.definitions,
      ofDefinitions_definitions, ofDefinitions_definitions, h]

theorem definitionsOf_of_ofJson {limits : Limits} {value : Json} {d : Document}
    (h : ofJson value limits = .ok d) : definitionsOf value limits = .ok d.definitions :=
  map_eq_ok definitions _ d h

/-- An accepted value and what is written for its document are read as the same document,
    and give the same services. -/
theorem ofJson_toJson_of_ofJson (value : Json) (d : Document) (h : ofJson value = .ok d) :
    ofJson d.toJson = .ok d ∧ definitionsOf d.toJson = definitionsOf value := by
  -- A document that was read goes no deeper than what it was read from.
  have hread : ofJson d.toJson = .ok d := (ofJson_toJson_iff .standard d).2 (fits_of_ofJson h)
  refine ⟨hread, ?_⟩
  rw [definitionsOf_of_ofJson hread, definitionsOf_of_ofJson h]

/-- A value in both spellings, with unknown and without optional entries, and with a
    version in quotes. -/
def mixedSpellings : Json :=
  let long : Json := .obj [("type", .str "external"), ("external", .obj [
    ("external_reference", .obj [("name", .str "Long"), ("package", .str "java.lang"),
      ("line", .int 3)]),
    ("fallback", .obj [("type", .str "primitive"), ("primitive", .str "SAFELONG")])])]
  let argument : Json := .obj [("arg_name", .str "keys"), ("safety", .null),
    ("type", .obj [("type", .str "list"), ("list", .obj [("item_type", long)])]),
    ("paramType", .obj [("type", .str "header"), ("header", .obj [("param_id", .str "X-Keys")])])]
  let endpoint : Json := .obj [("endpointName", .str "size"), ("http_path", .str "/size"),
    ("auth", .null), ("args", .arr [argument, .obj [("argName", .str "body"), ("type", long),
      ("param_type", .obj [("type", .str "body")])]])]
  .obj [("errors", .arr []), ("version", .str " +0_7.0 "), ("services", .arr [
    .obj [("service_name", .obj [("name", .str "Store")]), ("endpoints", .arr [endpoint])],
    .obj [("serviceName", .obj [("name", .str "Idle"), ("package", .null)])]])]

theorem ofJson_toJson_of_mixedSpellings :
    let long : TypeForm := .externalOr ⟨"Long", some "java.lang"⟩ (.primitive .safelong)
    let d : Document := ⟨7, [⟨"Store", none, [⟨"size",
      [⟨"keys", .header "X-Keys", .list long⟩, ⟨"body", .body, long⟩], none, none, "GET",
      "/size"⟩]⟩, ⟨"Idle", none, []⟩]⟩
    ofJson mixedSpellings = .ok d ∧ d.toJson ≠ mixedSpellings ∧
      ofJson d.toJson = .ok d ∧ definitionsOf d.toJson = definitionsOf mixedSpellings := by
  intro long d
  have hoption : (ofJson mixedSpellings).toOption = some d := by decide +kernel
  have h : ofJson mixedSpellings = .ok d := by
    rcases hread : ofJson mixedSpellings with problems | d'
    · rw [hread] at hoption
      cases hoption
    · rw [hread, Except.toOption, Option.some.injEq] at hoption
      rw [hoption]
  exact ⟨h, by decide +kernel, ofJson_toJson_of_ofJson mixedSpellings d h⟩

/-- There is room for all types of some services. -/
def Limits.Allow (limits : Limits) (services : List (Service TypeExpr)) : Prop :=
  ∀ s ∈ services, s.AllTypes fun t => limits.levels.Allows t.levels

theorem fits_ofDefinitions_iff (limits : Limits) (services : List (Service TypeExpr)) :
    (ofDefinitions services).Fits limits.levels ↔ limits.Allow services := by
  simp only [Fits, ofDefinitions, List.forall_mem_map, Service.allTypes_mapType_iff,
    TypeForm.levels_ofType, Limits.Allow]

/-- What was encoded is loaded as it was or not at all. -/
theorem definitionsOf_encode_iff (limits : Limits) (services services' : List (Service TypeExpr)) :
    definitionsOf (encode services) limits = .ok services' ↔
      services' = services ∧ limits.Allow services := by
  simp only [definitionsOf, Checked.map_eq_ok_iff, encode, ofJson_restricts limits _ _,
    ofJson_toJson_anyDepth, Except.ok.injEq]
  constructor
  · rintro ⟨_, ⟨rfl, hfits⟩, rfl⟩
    exact ⟨definitions_ofDefinitions services, (fits_ofDefinitions_iff limits services).1 hfits⟩
  · rintro ⟨rfl, hallow⟩
    exact ⟨_, ⟨rfl, (fits_ofDefinitions_iff limits services').2 hallow⟩,
      definitions_ofDefinitions services'⟩

/-- Lists within lists, around a string. -/
def nestedLists : Nat → TypeExpr
  | 0 => .primitive .string
  | depth + 1 => .list (nestedLists depth)

theorem levels_nestedLists (depth : Nat) : (nestedLists depth).levels = 2 * depth + 1 := by
  induction depth with
  | zero => rfl
  | succ depth ih =>
      simp only [nestedLists, TypeExpr.levels, ih]
      omega

/-- A service with an endpoint that returns lists within lists. -/
def nestedService (depth : Nat) : Service TypeExpr :=
  ⟨"Store", none, [⟨"nested", [], some (nestedLists depth), none, "GET", "/nested"⟩]⟩

theorem allow_nestedService_iff (limits : Limits) (depth : Nat) :
    limits.Allow [nestedService depth] ↔ limits.levels.Allows (2 * depth + 1) := by
  simp only [Limits.Allow, nestedService, Service.AllTypes, Endpoint.AllTypes, List.mem_cons,
    List.not_mem_nil, or_false, forall_eq, false_implies, implies_true, true_and,
    Option.mem_some_iff, forall_eq', levels_nestedLists]

end Document

end ClientPlan
