import ClientPlan.Document.Load
import ClientPlan.Proofs.Document.Fields
import Mathlib.Logic.Relation

/-!
# Entries That Do Not Matter

Changes to a document that make no difference to what it says.

An object may hold entries that no field is read from: those with a name of their own,
and those under the other spelling of a field that is there under its name. Which ones
these are depends on where the object stands and on the tags around it, so an edit
follows the fields from the outermost object inwards, to the one whose entries it
changes. What is left alone is said by looking names up, so the order of the entries may
change too.

One edit changes neither what a document stands for nor what is found wrong with it: in
the object itself all fields have the values that they had, and further out one field has
a value in which the same is found. So any number of edits, one after the other, make no
difference either.

## Main definitions

* `Unread`: An entry that no field is read from.
* `Edit`: A change to such entries of one object.

## Theorems

* `fields_apart`: No two fields of an object share a spelling.
* `find?_kept`, `find?_replaced`: The fields after an edit.
* `Edit.same`: An edit makes no difference.
* `Edit.insert`, `Edit.erase`, `Edit.update`: Edits of one entry.
* `alike_of_edits`: Any number of edits make no difference.
* `ofJson_of_edits`: They do not change a document or its problems.
-/

namespace ClientPlan

namespace Document

/-- No field is read from an entry of this name: it is no spelling of a field, or it is the
    other spelling of one that is there under its name. -/
def Unread (fields : List (Field × Kind)) (entries : List (Json.Str × Json)) (key : Json.Str) :
    Prop :=
  (∀ p ∈ fields, ∀ spelling ∈ p.1.spellings, key ≠ spelling) ∨
    ∃ p ∈ fields, key = p.1.alternative ∧ p.1.name ≠ p.1.alternative ∧
      Json.lookup p.1.name entries ≠ none

/-- Two objects hold the same but for the entry of one name. -/
def SameElsewhere (key : Json.Str) (entries entries' : List (Json.Str × Json)) : Prop :=
  ∀ k, k ≠ key → Json.lookup k entries' = Json.lookup k entries

/-- A change to the entries of one object that no field is read from, in a value of some
    kind. -/
inductive Edit : Kind → Json → Json → Prop where
  /-- Such entries are added to the object, taken out of it, or given other values. -/
  | unread {kind : Kind} {entries entries' : List (Json.Str × Json)}
      {fields : List (Field × Kind)} (known : kind.fields? entries = some fields)
      (kept : ∀ key, ¬Unread fields entries key →
        Json.lookup key entries' = Json.lookup key entries) :
      Edit kind (.obj entries) (.obj entries')
  /-- The object stands somewhere in the value of a field. -/
  | field {kind inner : Kind} {entries entries' : List (Json.Str × Json)}
      {fields : List (Field × Kind)} {f : Field} {name : String} {v w : Json}
      (known : kind.fields? entries = some fields) (mem : (f, inner) ∈ fields)
      (found : f.find? entries = some (name, v)) (edit : Edit inner v w)
      (replaced : Json.lookup name entries' = some w)
      (elsewhere : SameElsewhere name entries entries') :
      Edit kind (.obj entries) (.obj entries')
  /-- The object stands somewhere in an item of an array. -/
  | item {part : Part} {before after : List Json} {v w : Json} (edit : Edit (.object part) v w) :
      Edit (.listOf part) (.arr (before ++ v :: after)) (.arr (before ++ w :: after))

/-- The field behind a tag is not called like the entry of the tag. -/
theorem taggedFields_apart {τ : Type} (choices : List τ) (word : τ → String)
    (content : τ → Kind) (entries : List (Json.Str × Json)) (hword : ∀ c, word c ≠ tagEntry) :
    ∀ p ∈ taggedFields choices word content entries,
      ∀ q ∈ taggedFields choices word content entries, p ≠ q →
        ∀ spelling ∈ p.1.spellings, spelling ∉ q.1.spellings := by
  have htag (c : τ) (spelling : String) (hspelling : spelling ∈ (Field.plain (word c)).spellings) :
      spelling ∉ (Field.plain tagEntry).spellings := by
    simp only [Field.spellings, Field.plain, List.mem_cons, List.not_mem_nil, or_self,
      or_false] at hspelling ⊢
    rw [hspelling]
    exact hword c
  unfold taggedFields
  split
  · intro p hp q hq hne
    rw [List.mem_singleton] at hp hq
    exact absurd (hp.trans hq.symm) hne
  · rename_i choice _
    intro p hp q hq hne spelling hspelling hspelling'
    rw [List.mem_cons, List.mem_singleton] at hp hq
    rcases hp with rfl | rfl
    · rcases hq with rfl | rfl
      · exact hne rfl
      · exact htag choice spelling hspelling' hspelling
    · rcases hq with rfl | rfl
      · exact htag choice spelling hspelling hspelling'
      · exact hne rfl

/-- No two fields of an object share a spelling. -/
theorem fields_apart (kind : Kind) (entries : List (Json.Str × Json))
    (fields : List (Field × Kind)) (h : kind.fields? entries = some fields) :
    ∀ p ∈ fields, ∀ q ∈ fields, p ≠ q → ∀ spelling ∈ p.1.spellings, spelling ∉ q.1.spellings := by
  -- The fields of a part are compared one by one, those behind a tag with the tag.
  cases kind with
  | leaf => cases h
  | listOf part => cases h
  | object part =>
      cases h
      cases part <;> decide
  | type =>
      cases h
      exact taggedFields_apart _ _ _ entries fun c => by cases c <;> decide
  | location =>
      cases h
      exact taggedFields_apart _ _ _ entries fun c => by cases c <;> decide

section Lookup

variable {f : Field} {key : Json.Str} {entries entries' : List (Json.Str × Json)}

theorem find?_elsewhere (h : SameElsewhere key entries entries')
    (hkey : ∀ spelling ∈ f.spellings, key ≠ spelling) : f.find? entries = f.find? entries' := by
  unfold Field.find?
  rw [h f.name (hkey _ List.mem_cons_self).symm,
    h f.alternative (hkey _ (List.mem_cons_of_mem _ List.mem_cons_self)).symm]

/-- What is found of a field stands under one of its spellings, and another value in its
    place is found like it. -/
theorem find?_replaced {name : String} {v w : Json} (hfound : f.find? entries = some (name, v))
    (hreplaced : Json.lookup name entries' = some w) (h : SameElsewhere name entries entries') :
    name ∈ f.spellings ∧ f.find? entries' = some (name, w) := by
  unfold Field.find? at hfound
  -- The name comes before the alternative, which only counts without it.
  split at hfound
  · cases hfound
    refine ⟨List.mem_cons_self, ?_⟩
    unfold Field.find?
    rw [hreplaced]
  · rename_i hnone
    split at hfound
    · rename_i hsome
      cases hfound
      refine ⟨List.mem_cons_of_mem _ List.mem_cons_self, ?_⟩
      -- The name is not the spelling that was found, so it is still missing.
      have hmissing : Json.lookup f.name entries' = none := by
        rw [h f.name ?_, hnone]
        intro heq
        rw [heq, hsome] at hnone
        cases hnone
      unfold Field.find?
      rw [hmissing, hreplaced]
    · cases hfound

end Lookup

/-- As long as the entries that are read are kept, all fields are as they were. -/
theorem find?_kept (kind : Kind) (entries entries' : List (Json.Str × Json))
    (fields : List (Field × Kind)) (hfields : kind.fields? entries = some fields)
    (h : ∀ key, ¬Unread fields entries key → Json.lookup key entries' = Json.lookup key entries)
    (p : Field × Kind) (hp : p ∈ fields) : p.1.find? entries = p.1.find? entries' := by
  have hname : p.1.name ∈ p.1.spellings := List.mem_cons_self
  have hother : p.1.alternative ∈ p.1.spellings := List.mem_cons_of_mem _ List.mem_cons_self
  -- A spelling of the field belongs to no other one, so only the field itself can hide it.
  have hread (spelling : String) (hspelling : spelling ∈ p.1.spellings)
      (hshown : spelling = p.1.alternative → p.1.name ≠ p.1.alternative →
        Json.lookup p.1.name entries = none) :
      Json.lookup spelling entries' = Json.lookup spelling entries := by
    refine h spelling ?_
    rintro (hnone | ⟨q, hq, hhidden, hne, hpresent⟩)
    · exact hnone p hp spelling hspelling rfl
    · have hhidden := Json.Str.text.inj hhidden
      by_cases hpq : q = p
      · rw [hpq] at hhidden hne hpresent
        exact hpresent (hshown hhidden hne)
      · refine fields_apart kind entries fields hfields q hq p hp hpq spelling ?_ hspelling
        rw [hhidden]
        exact List.mem_cons_of_mem _ List.mem_cons_self
  have hsame := hread p.1.name hname fun heq hne => absurd heq hne
  unfold Field.find?
  rw [hsame]
  rcases hlookup : Json.lookup p.1.name entries with _ | v
  · rw [hread p.1.alternative hother fun _ _ => hlookup]
  · rfl

/-- An edit makes no difference to what is read. -/
theorem Edit.same {kind : Kind} {v w : Json} (h : Edit kind v w) : kind.Same v w := by
  induction h with
  | @unread kind entries entries' fields known kept =>
      refine Or.inr ⟨nofun, nofun, alike_of_agree kind entries entries' fields known ?_⟩
      intro p hp
      exact agree_of_eq p.2 (find?_kept kind entries entries' fields known kept p hp)
  | @field kind inner entries entries' fields f name v w known mem found _ replaced elsewhere ih =>
      refine Or.inr ⟨nofun, nofun, alike_of_agree kind entries entries' fields known ?_⟩
      rcases find?_replaced found replaced elsewhere with ⟨hspelling, hfound⟩
      intro p hp
      -- The field that was edited is alike by induction, and the others are untouched.
      by_cases hpf : (f, inner) = p
      · rw [← hpf]
        exact Or.inr ⟨name, v, w, found, hfound, ih⟩
      · refine agree_of_eq p.2 (find?_elsewhere elsewhere fun spelling hp' heq => ?_)
        rw [Json.Str.text.inj heq] at hspelling
        exact fields_apart kind entries fields known _ mem p hp hpf spelling hspelling hp'
  | @item part before after v w _ ih =>
      refine Or.inr ⟨nofun, nofun, fun limits room =>
        listOf_congr (part.check limits room) _ _ ?_⟩
      rw [List.map_append, List.map_append, List.map_cons, List.map_cons, ih.alike limits room]

/-- Nor do any number of edits. -/
theorem alike_of_edits (kind : Kind) (v w : Json) (h : Relation.ReflTransGen (Edit kind) v w) :
    kind.Alike v w := by
  -- To be alike is transitive, for each kind by its own equation.
  have htrans (x y z : Json) (hxy : kind.Alike x y) (hyz : kind.Alike y z) : kind.Alike x z := by
    cases kind with
    | leaf | location => exact hxy.trans hyz
    | object part | listOf part => exact fun limits room => (hxy limits room).trans (hyz limits room)
    | type => exact fun room => (hxy room).trans (hyz room)
  induction h with
  | refl => exact Kind.Same.alike (Or.inl rfl)
  | tail _ hedit ih => exact htrans _ _ _ ih hedit.same.alike

/-- Edits change neither the document nor its problems, and so they leave the services. -/
theorem ofJson_of_edits (value value' : Json)
    (h : Relation.ReflTransGen (Edit (.object .document)) value value') :
    ofJson value = ofJson value' ∧ definitionsOf value = definitionsOf value' := by
  have hsame : ofJson value = ofJson value' := alike_of_edits _ value value' h .standard none
  exact ⟨hsame, congrArg (Except.map definitions) hsame⟩

section Single

variable (kind : Kind) (entries : List (Json.Str × Json)) {fields : List (Field × Kind)}

/-- An entry that is not read can be added, or given another value. -/
theorem Edit.insert (known : kind.fields? entries = some fields) (key : Json.Str) (value : Json)
    (hunread : Unread fields entries key) :
    Edit kind (.obj entries) (.obj (Json.insert key value entries)) := by
  refine .unread known fun k hk => ?_
  rw [Json.lookup_insert, if_neg]
  rintro rfl
  exact hk hunread

theorem lookup_filter (key k : Json.Str) (hk : k ≠ key) :
    Json.lookup k (entries.filter fun entry => entry.1 ≠ key) = Json.lookup k entries := by
  induction entries with
  | nil => rfl
  | cons entry entries ih =>
      rcases entry with ⟨l, v⟩
      -- Only entries that are not looked for are taken out.
      by_cases hl : l = key
      · rw [List.filter_cons_of_neg (by simpa using hl), ih, Json.lookup, if_neg]
        rw [hl]
        exact hk.symm
      · rw [List.filter_cons_of_pos (by simpa using hl), Json.lookup, Json.lookup, ih]

/-- An entry that is not read can be taken out. -/
theorem Edit.erase (known : kind.fields? entries = some fields) (key : Json.Str)
    (hunread : Unread fields entries key) :
    Edit kind (.obj entries) (.obj (entries.filter fun entry => entry.1 ≠ key)) := by
  refine .unread known fun k hk => lookup_filter entries key k ?_
  rintro rfl
  exact hk hunread

/-- The value of a field can be edited. -/
theorem Edit.update {inner : Kind} {f : Field} {name : String} {v w : Json}
    (known : kind.fields? entries = some fields) (mem : (f, inner) ∈ fields)
    (found : f.find? entries = some (name, v)) (edit : Edit inner v w) :
    Edit kind (.obj entries) (.obj (Json.insert name w entries)) := by
  refine .field known mem found edit ?_ fun k hk => ?_
  · rw [Json.lookup_insert, if_pos rfl]
  · rw [Json.lookup_insert, if_neg hk.symm]

end Single

/-- The type of strings, with some more entries. -/
def stringType (others : List (Json.Str × Json)) : List (Json.Str × Json) :=
  ("type", .str "primitive") :: ("primitive", .str "STRING") :: others

/-- A document with an endpoint that returns a list. What is given stands behind the tag of
    the list, and behind the services. -/
def listing (item others : List (Json.Str × Json)) : List (Json.Str × Json) :=
  let returns : Json := .obj [("type", .str "list"), ("list", .obj item)]
  let endpoint : Json := .obj [("endpointName", .str "names"), ("returns", returns)]
  ("services", .arr [.obj [("serviceName", .obj [("name", .str "Store")]),
    ("endpoints", .arr [endpoint])]]) :: others

/-- A type can hold the other spelling of a field that is there, and a field of another
    type, and a document can lose an entry that has no field. -/
theorem ofJson_of_clutter :
    let value := .obj (listing [("itemType", .obj (stringType []))] [("errors", .arr [])])
    let value' := .obj (listing [("itemType", .obj (stringType [("list", .int 1)])),
      ("item_type", .null)] [])
    Relation.ReflTransGen (Edit (.object .document)) value value' ∧
      ofJson value = ofJson value' ∧ definitionsOf value = definitionsOf value' := by
  intro value value'
  -- What is an edit behind the tag of the list is one of the document.
  have hlisting (item item' others : List (Json.Str × Json))
      (h : Edit (.object .item) (.obj item) (.obj item')) :
      Edit (.object .document) (.obj (listing item others)) (.obj (listing item' others)) := by
    have hlist : (Field.plain "list", Kind.object .item) ∈
        [(Field.plain "type", Kind.leaf), (Field.plain "list", Kind.object .item)] := by decide
    have hreturns : (Field.plain "returns", Kind.type) ∈ Part.endpoint.fields := by decide
    have hendpoints : (Field.plain "endpoints", Kind.listOf .endpoint) ∈ Part.service.fields := by
      decide
    have hservices : (Field.plain "services", Kind.listOf .service) ∈ Part.document.fields := by
      decide
    have htype := Edit.update .type [("type", .str "list"), ("list", .obj item)] rfl hlist rfl h
    have hendpoint := Edit.update (.object .endpoint)
      [("endpointName", .str "names"), ("returns", _)] rfl hreturns rfl htype
    have hservice := Edit.update (.object .service)
      [("serviceName", .obj [("name", .str "Store")]), ("endpoints", .arr [_])] rfl hendpoints rfl
      (@Edit.item _ [] [] _ _ hendpoint)
    exact Edit.update (.object .document) (("services", .arr [_]) :: others) rfl hservices rfl
      (@Edit.item _ [] [] _ _ hservice)
  have hitem : (itemField, Kind.type) ∈ Part.item.fields := by decide
  have hhidden := Edit.insert (.object .item) [("itemType", .obj (stringType []))] rfl "item_type"
    .null (Or.inr ⟨_, hitem, rfl, by decide, Option.some_ne_none _⟩)
  have hforeign := Edit.insert .type (stringType []) rfl "list" (.int 1) (Or.inl (by decide))
  have hinside := Edit.update (.object .item)
    [("itemType", .obj (stringType [])), ("item_type", .null)] rfl hitem rfl hforeign
  have hloss := Edit.erase (.object .document)
    (listing [("itemType", .obj (stringType [("list", .int 1)])), ("item_type", .null)]
      [("errors", .arr [])]) rfl "errors" (Or.inl (by decide))
  -- Two edits within the item, and then one of the document.
  have hedits : Relation.ReflTransGen (Edit (.object .document)) value value' :=
    ((Relation.ReflTransGen.single (hlisting _ _ _ hhidden)).tail (hlisting _ _ _ hinside)).tail
      hloss
  exact ⟨hedits, ofJson_of_edits value value' hedits⟩

end Document

end ClientPlan
