import ClientPlan.Plan.Document

/-!
# Descriptions of Types

What can be read off the description of a type.

A plan names the types of bodies and responses by their descriptions alone, so two types
that are described alike look the same to whoever reads it. Two things are lost for
certain: whether a name comes from elsewhere, and whether a package is empty or there is
none. On ordinary names nothing else is.

A description is a word, and behind it, in brackets, the descriptions of the items. The
word ends where a bracket or a comma stands, since ordinary names have neither. Where an
item ends cannot be told by its characters, for an item has brackets of its own. So the
induction is about a description in a longer text, in front of a comma or a bracket that
closes it: the text determines both the type and where its description ends
(`IsBounded`). Items that have this property are read one after the other, each of them
up to the comma or the bracket behind it, and word and items make up the type. A word
without items is a keyword or a name, and a name begins behind the last dot, if there is
one.

## Main definitions

* `TypeName.IsOrdinary`, `TypeExpr.IsOrdinary`: Types with ordinary names only.
* `TypeName.asRead`, `TypeExpr.asRead`: A type up to what its description leaves out.
* `TypeExpr.word`, `TypeExpr.items`: The two parts of a description.
* `TypeName.ofDescription`, `TypeExpr.ofParts`: A type, read off the parts.
* `IsBounded`: A description shows where it ends.

## Theorems

* `append_inj_of_ends`: Where a word ends.
* `ofDescription_describe`: A name is read off its description.
* `ofParts_word_items`: A type is read off its word and its items.
* `closing_append_inj`: Where a list of items ends.
* `isBounded_of_ordinary`: Where a description ends.
* `describe_eq_iff_asRead`: Which types are described alike.
-/

namespace ClientPlan

namespace TypeName

/-- A name as definitions can declare it: nothing in it holds a description together or
    is a description of another type. -/
structure IsOrdinary (t : TypeName) : Prop where
  name : ∀ c ∈ t.name.toList, c ∉ ['<', '>', ',', ' ', '.']
  keyword : ∀ kind : Primitive, t.name ≠ kind.keyword
  package : ∀ package ∈ t.package, ∀ c ∈ package.toList, c ∉ ['<', '>', ',', ' ']

/-- What an ordinary name is, as a test that goes through the characters. -/
theorem isOrdinary_iff_all (t : TypeName) :
    t.IsOrdinary ↔
      (t.name.toList.all fun c => decide (c ∉ ['<', '>', ',', ' ', '.'])) = true ∧
        (Primitive.all.all fun kind => decide (t.name ≠ kind.keyword)) = true ∧
        (t.package.all fun package =>
          package.toList.all fun c => decide (c ∉ ['<', '>', ',', ' '])) = true := by
  simp only [List.all_eq_true, Option.all_eq_true, decide_eq_true_eq]
  constructor
  · exact fun h => ⟨h.name, fun kind _ => h.keyword kind, h.package⟩
  · rintro ⟨hname, hkeyword, hpackage⟩
    exact ⟨hname, fun kind => hkeyword kind (by cases kind <;> decide), hpackage⟩

instance : DecidablePred IsOrdinary :=
  fun t => decidable_of_iff _ t.isOrdinary_iff_all.symm

/-- A name as its description shows it: an empty package is none. -/
def asRead (t : TypeName) : TypeName :=
  ⟨t.name, if t.package = some "" then none else t.package⟩

/-- The name with a given description. The package ends at the last dot. -/
def ofDescription (text : List Char) : TypeName :=
  match text.reverse.dropWhile (· != '.') with
  | [] => ⟨String.ofList text, none⟩
  | _ :: package =>
    ⟨String.ofList (text.reverse.takeWhile (· != '.')).reverse,
      some (String.ofList package.reverse)⟩

theorem describe_of_empty (t : TypeName) (h : t.package = none ∨ t.package = some "") :
    t.describe = t.name ∧ t.asRead = ⟨t.name, none⟩ := by
  rcases h with h | h
  · simp [describe, asRead, h]
  · simp [describe, asRead, h]

theorem describe_of_package (t : TypeName) {package : String} (h : t.package = some package)
    (hne : package ≠ "") :
    t.describe = package ++ "." ++ t.name ∧ t.asRead = ⟨t.name, some package⟩ := by
  simp [describe, asRead, h, hne]

/-- A name has no package to show, or one that is not empty. -/
theorem package_cases (t : TypeName) :
    (t.package = none ∨ t.package = some "") ∨
      ∃ package, t.package = some package ∧ package ≠ "" := by
  rcases h : t.package with _ | package
  · exact Or.inl (Or.inl rfl)
  · by_cases hempty : package = ""
    · exact Or.inl (Or.inr (by rw [hempty]))
    · exact Or.inr ⟨package, rfl, hempty⟩

theorem describe_asRead (t : TypeName) : t.asRead.describe = t.describe := by
  rcases t.package_cases with hempty | ⟨package, hpackage, hne⟩
  · rw [(t.describe_of_empty hempty).1, (t.describe_of_empty hempty).2]
    rfl
  · rw [(t.describe_of_package hpackage hne).2]
    simp [describe, hpackage, hne]

theorem IsOrdinary.ne_dot {t : TypeName} (h : t.IsOrdinary) : ∀ c ∈ t.name.toList, c ≠ '.' := by
  rintro c hc rfl
  exact h.name '.' hc (by decide)

/-- A name is read off its description. -/
theorem ofDescription_describe (t : TypeName) (h : t.IsOrdinary) :
    ofDescription t.describe.toList = t.asRead := by
  -- In reverse, the name comes first, and it ends at the dot if there is one.
  have hname : ∀ c ∈ t.name.toList.reverse, (c != '.') = true := by
    intro c hc
    rw [bne_iff_ne]
    exact h.ne_dot c (List.mem_reverse.1 hc)
  have hdrop (rest : List Char) : (t.name.toList.reverse ++ rest).dropWhile (· != '.') =
      rest.dropWhile (· != '.') := List.dropWhile_append_of_pos hname
  have htake (rest : List Char) : (t.name.toList.reverse ++ rest).takeWhile (· != '.') =
      t.name.toList.reverse ++ rest.takeWhile (· != '.') := List.takeWhile_append_of_pos hname
  rcases t.package_cases with hempty | ⟨package, hpackage, hne⟩
  · rw [(t.describe_of_empty hempty).1, (t.describe_of_empty hempty).2, ofDescription,
      ← List.append_nil t.name.toList.reverse, hdrop, List.dropWhile_nil]
    simp only [String.ofList_toList]
  · have hreverse : (package ++ "." ++ t.name).toList.reverse =
        t.name.toList.reverse ++ '.' :: package.toList.reverse := by
      simp
    rw [(t.describe_of_package hpackage hne).1, (t.describe_of_package hpackage hne).2,
      ofDescription, hreverse, hdrop, htake]
    simp

/-- No ordinary name is described like a primitive: it is none of their keywords, and
    with a package in front it has a dot. -/
theorem IsOrdinary.describe_ne_keyword {t : TypeName} (h : t.IsOrdinary) (kind : Primitive) :
    kind.keyword ≠ t.describe := by
  rcases t.package_cases with hempty | ⟨package, hpackage, hne⟩
  · rw [(t.describe_of_empty hempty).1]
    exact (h.keyword kind).symm
  · rw [(t.describe_of_package hpackage hne).1]
    intro heq
    have hdot : '.' ∈ kind.keyword.toList := by
      rw [heq]
      simp
    cases kind <;> exact absurd hdot (by decide)

end TypeName

namespace TypeExpr

/-- The names that a type is made of. -/
def names : TypeExpr → List TypeName
  | primitive _ => []
  | optional item => item.names
  | list item => item.names
  | set item => item.names
  | map key value => key.names ++ value.names
  | reference target => [target]
  | external target => [target]

/-- A type with ordinary names only. -/
def IsOrdinary (t : TypeExpr) : Prop :=
  ∀ name ∈ t.names, name.IsOrdinary

instance : DecidablePred IsOrdinary :=
  fun t => inferInstanceAs (Decidable (∀ name ∈ t.names, name.IsOrdinary))

/-- A type as its description shows it: every name may refer to a type of the same
    definitions, and an empty package is none. -/
def asRead : TypeExpr → TypeExpr
  | primitive kind => primitive kind
  | optional item => optional item.asRead
  | list item => list item.asRead
  | set item => set item.asRead
  | map key value => map key.asRead value.asRead
  | reference target => reference target.asRead
  | external target => reference target.asRead

/-- The part of a description in front of the brackets. -/
def word : TypeExpr → List Char
  | primitive kind => kind.keyword.toList
  | reference target => target.describe.toList
  | external target => target.describe.toList
  | t => t.category.word.toList

/-- The types whose descriptions stand in the brackets. -/
def items : TypeExpr → List TypeExpr
  | optional item => [item]
  | list item => [item]
  | set item => [item]
  | map key value => [key, value]
  | _ => []

/-- The type with a given word and given items. -/
def ofParts (word : List Char) : List TypeExpr → TypeExpr
  | [] =>
    match Primitive.all.find? fun kind => kind.keyword.toList = word with
    | some kind => primitive kind
    | none => reference (TypeName.ofDescription word)
  | [item] =>
    if word = Category.optional.word.toList then optional item
    else if word = Category.list.word.toList then list item
    else set item
  | key :: value :: _ => map key value

/-- What follows an item: the other ones behind it, and the end of the brackets. -/
def closing : List TypeExpr → List Char
  | [] => ['>']
  | t :: ts => ',' :: ' ' :: (t.describe.toList ++ closing ts)

/-- The items in their brackets. -/
def bracketed : List TypeExpr → List Char
  | [] => []
  | t :: ts => '<' :: (t.describe.toList ++ closing ts)

theorem describe_eq_append (t : TypeExpr) :
    t.describe.toList = t.word ++ bracketed t.items := by
  cases t with
  | primitive kind => simp [describe, word, items, bracketed]
  | optional item => simp [describe, word, items, bracketed, closing, category, Category.word]
  | list item => simp [describe, word, items, bracketed, closing, category, Category.word]
  | set item => simp [describe, word, items, bracketed, closing, category, Category.word]
  | map key value => simp [describe, word, items, bracketed, closing, category, Category.word]
  | reference target => simp [describe, word, items, bracketed]
  | external target => simp [describe, word, items, bracketed]

/-- The characters in front of which a word ends. -/
def marks : List Char := ['<', '>', ',']

/-- A text that a word in front of it does not run into. -/
def EndsWord (text : List Char) : Prop :=
  ∀ c ∈ text.head?, c ∈ marks

/-- A text in front of which the description of an item is complete. -/
def Closes (text : List Char) : Prop :=
  ∀ c ∈ text.head?, c = '>' ∨ c = ','

theorem Closes.endsWord {text : List Char} (h : Closes text) : EndsWord text := by
  intro c hc
  rcases h c hc with rfl | rfl
  · decide
  · decide

theorem endsWord_bracketed_append (ts : List TypeExpr) {rest : List Char} (h : Closes rest) :
    EndsWord (bracketed ts ++ rest) := by
  cases ts with
  | nil => exact h.endsWord
  | cons t ts =>
      intro c hc
      cases hc
      decide

theorem closes_closing_append (ts : List TypeExpr) (rest : List Char) :
    Closes (closing ts ++ rest) := by
  cases ts with
  | nil =>
      intro c hc
      cases hc
      exact Or.inl rfl
  | cons t ts =>
      intro c hc
      cases hc
      exact Or.inr rfl

/-- Words without marks end where the texts behind them begin. -/
theorem append_inj_of_ends {u v r s : List Char} (hu : ∀ c ∈ u, c ∉ marks)
    (hv : ∀ c ∈ v, c ∉ marks) (hr : EndsWord r) (hs : EndsWord s) (h : u ++ r = v ++ s) :
    u = v ∧ r = s := by
  rcases List.append_eq_append_iff.1 h with ⟨w, rfl, rfl⟩ | ⟨w, rfl, rfl⟩
  · -- The longer word would have a mark in it.
    cases w with
    | nil => exact ⟨(List.append_nil u).symm, rfl⟩
    | cons c w => exact absurd (hr c rfl) (hv c (by simp))
  · cases w with
    | nil => exact ⟨List.append_nil v, rfl⟩
    | cons c w => exact absurd (hs c rfl) (hu c (by simp))

/-- Nothing that a description leaves out shows in it. -/
theorem describe_asRead (t : TypeExpr) : t.asRead.describe = t.describe := by
  induction t with
  | primitive kind => rfl
  | optional item ih => rw [asRead, describe, describe, ih]
  | list item ih => rw [asRead, describe, describe, ih]
  | set item ih => rw [asRead, describe, describe, ih]
  | map key value ihkey ihvalue => rw [asRead, describe, describe, ihkey, ihvalue]
  | reference target => exact target.describe_asRead
  | external target => exact target.describe_asRead

/-- The names in an item are names in the type. -/
theorem IsOrdinary.item {t item : TypeExpr} (h : t.IsOrdinary) (hitem : item ∈ t.items) :
    item.IsOrdinary := by
  intro name hname
  refine h name ?_
  -- An item's names are all or a part of those of the type.
  cases t with
  | primitive kind => cases hitem
  | optional inner => rwa [List.mem_singleton.1 hitem] at hname
  | list inner => rwa [List.mem_singleton.1 hitem] at hname
  | set inner => rwa [List.mem_singleton.1 hitem] at hname
  | map key value =>
      rw [items, List.mem_cons, List.mem_singleton] at hitem
      rcases hitem with rfl | rfl
      · exact List.mem_append_left _ hname
      · exact List.mem_append_right _ hname
  | reference target => cases hitem
  | external target => cases hitem

theorem notMem_marks_of_all (text : List Char)
    (h : (text.all fun c => decide (c ∉ marks)) = true) : ∀ c ∈ text, c ∉ marks :=
  fun c hc => of_decide_eq_true (List.all_eq_true.1 h c hc)

theorem notMem_marks_of_describe {t : TypeName} (h : t.IsOrdinary) :
    ∀ c ∈ t.describe.toList, c ∉ marks := by
  -- The marks are among the characters that ordinary names and packages do not have.
  have hname : ∀ c ∈ t.name.toList, c ∉ marks := fun c hc hmark =>
    h.name c hc (List.mem_append_left [' ', '.'] hmark)
  rcases t.package_cases with hempty | ⟨package, hpackage, hne⟩
  · rwa [(t.describe_of_empty hempty).1]
  · have hfront : ∀ c ∈ package.toList, c ∉ marks := fun c hc hmark =>
      h.package package hpackage c hc (List.mem_append_left [' '] hmark)
    have hdot : ∀ c ∈ ".".toList, c ∉ marks := notMem_marks_of_all _ (by decide)
    rw [(t.describe_of_package hpackage hne).1, String.toList_append, String.toList_append,
      List.forall_mem_append, List.forall_mem_append]
    exact ⟨⟨hfront, hdot⟩, hname⟩

theorem notMem_marks_of_category (category : Category) :
    ∀ c ∈ category.word.toList, c ∉ marks := by
  cases category <;> exact notMem_marks_of_all _ (by decide)

theorem notMem_marks_of_keyword (kind : Primitive) :
    ∀ c ∈ kind.keyword.toList, c ∉ marks := by
  cases kind <;> exact notMem_marks_of_all _ (by decide)

/-- There are no marks in a word. -/
theorem notMem_marks_of_word {t : TypeExpr} (h : t.IsOrdinary) : ∀ c ∈ t.word, c ∉ marks := by
  cases t with
  | primitive kind => exact notMem_marks_of_keyword kind
  | optional item => exact notMem_marks_of_category .optional
  | list item => exact notMem_marks_of_category .list
  | set item => exact notMem_marks_of_category .set
  | map key value => exact notMem_marks_of_category .map
  | reference target => exact notMem_marks_of_describe (h target (List.mem_singleton.2 rfl))
  | external target => exact notMem_marks_of_describe (h target (List.mem_singleton.2 rfl))

/-- A word without items is a keyword, or it is read as a name. -/
theorem ofParts_describe {t : TypeName} (h : t.IsOrdinary) :
    ofParts t.describe.toList [] = reference t.asRead := by
  have hnone : (Primitive.all.find? fun kind => kind.keyword.toList = t.describe.toList) =
      none := by
    rw [List.find?_eq_none]
    intro kind _ hkeyword
    exact h.describe_ne_keyword kind (String.toList_inj.1 (of_decide_eq_true hkeyword))
  simp only [ofParts, hnone, t.ofDescription_describe h]

/-- A type is read off its word and its items. -/
theorem ofParts_word_items {t : TypeExpr} (h : t.IsOrdinary) :
    ofParts t.word (t.items.map asRead) = t.asRead := by
  -- The words of categories differ, and no name that is ordinary is one of them.
  cases t with
  | primitive kind => cases kind <;> rfl
  | optional item => exact if_pos rfl
  | list item =>
      have hoptional : Category.list.word.toList ≠ Category.optional.word.toList := by decide
      exact (if_neg hoptional).trans (if_pos rfl)
  | set item =>
      have hoptional : Category.set.word.toList ≠ Category.optional.word.toList := by decide
      have hlist : Category.set.word.toList ≠ Category.list.word.toList := by decide
      exact (if_neg hoptional).trans (if_neg hlist)
  | map key value => rfl
  | reference target => exact ofParts_describe (h target (List.mem_singleton.2 rfl))
  | external target => exact ofParts_describe (h target (List.mem_singleton.2 rfl))

/-- A description shows where it ends: whatever closes it, no other description with
    something behind it makes the same text. -/
def IsBounded (t : TypeExpr) : Prop :=
  ∀ (u : TypeExpr) (r s : List Char), u.IsOrdinary → Closes r → Closes s →
    t.describe.toList ++ r = u.describe.toList ++ s → t.asRead = u.asRead ∧ r = s

/-- Items that show where they end are separated by what follows each of them. -/
theorem closing_append_inj (ts us : List TypeExpr) (r s : List Char)
    (ht : ∀ t ∈ ts, t.IsBounded) (hu : ∀ u ∈ us, u.IsOrdinary)
    (h : closing ts ++ r = closing us ++ s) : ts.map asRead = us.map asRead ∧ r = s := by
  -- By induction on both lists: the first item ends where the rest begins.
  induction ts generalizing us with
  | nil =>
      cases us with
      | nil => exact ⟨rfl, (List.cons.inj h).2⟩
      | cons u us => exact absurd (List.cons.inj h).1 (by decide)
  | cons t ts ih =>
      cases us with
      | nil => exact absurd (List.cons.inj h).1 (by decide)
      | cons u us =>
          rw [List.forall_mem_cons] at ht hu
          simp only [closing, List.cons_append, List.append_assoc, List.cons.injEq, true_and] at h
          rcases ht.1 u _ _ hu.1 (closes_closing_append ts r) (closes_closing_append us s) h with
            ⟨hhead, hrest⟩
          rcases ih us ht.2 hu.2 hrest with ⟨htail, hend⟩
          exact ⟨by rw [List.map_cons, List.map_cons, hhead, htail], hend⟩

theorem bracketed_append_inj (ts us : List TypeExpr) {r s : List Char} (hr : Closes r)
    (hs : Closes s) (ht : ∀ t ∈ ts, t.IsBounded) (hu : ∀ u ∈ us, u.IsOrdinary)
    (h : bracketed ts ++ r = bracketed us ++ s) : ts.map asRead = us.map asRead ∧ r = s := by
  -- What closes a description opens no brackets.
  have hopen : ∀ {rest text : List Char}, Closes rest → rest ≠ '<' :: text := by
    rintro rest text hrest rfl
    exact absurd (hrest '<' rfl) (by decide)
  cases ts with
  | nil =>
      cases us with
      | nil => exact ⟨rfl, h⟩
      | cons u us => exact absurd h (hopen hr)
  | cons t ts =>
      cases us with
      | nil => exact absurd h.symm (hopen hs)
      | cons u us =>
          -- Behind the bracket, the first item is followed like any other.
          have hclosing : closing (t :: ts) ++ r = closing (u :: us) ++ s := by
            simp only [closing, List.cons_append, List.cons.injEq, true_and]
            exact (List.cons.inj h).2
          exact closing_append_inj (t :: ts) (u :: us) r s ht hu hclosing

/-- The word shows where the items begin, and the items show where they end. -/
theorem isBounded_of_items {t : TypeExpr} (h : t.IsOrdinary)
    (hitems : ∀ item ∈ t.items, item.IsBounded) : t.IsBounded := by
  intro u r s hu hr hs heq
  rw [describe_eq_append, describe_eq_append, List.append_assoc, List.append_assoc] at heq
  rcases append_inj_of_ends (notMem_marks_of_word h) (notMem_marks_of_word hu)
    (endsWord_bracketed_append t.items hr) (endsWord_bracketed_append u.items hs) heq with
    ⟨hword, hrest⟩
  rcases bracketed_append_inj t.items u.items hr hs hitems (fun _ hitem => hu.item hitem) hrest with
    ⟨hmap, hend⟩
  exact ⟨by rw [← ofParts_word_items h, ← ofParts_word_items hu, hword, hmap], hend⟩

/-- What holds of a type if it holds of its items holds of all types. -/
theorem items_induction {P : TypeExpr → Prop} (step : ∀ t, (∀ item ∈ t.items, P item) → P t)
    (t : TypeExpr) : P t := by
  induction t with
  | primitive kind => exact step _ (List.forall_mem_nil _)
  | optional item ih => exact step _ (List.forall_mem_singleton.2 ih)
  | list item ih => exact step _ (List.forall_mem_singleton.2 ih)
  | set item ih => exact step _ (List.forall_mem_singleton.2 ih)
  | map key value ihkey ihvalue =>
      exact step _ (List.forall_mem_cons.2 ⟨ihkey, List.forall_mem_singleton.2 ihvalue⟩)
  | reference target => exact step _ (List.forall_mem_nil _)
  | external target => exact step _ (List.forall_mem_nil _)

/-- Every description shows where it ends, if the names in it are ordinary. -/
theorem isBounded_of_ordinary (t : TypeExpr) : t.IsOrdinary → t.IsBounded := by
  induction t using items_induction with
  | step t ih =>
      intro h
      exact isBounded_of_items h fun item hitem => ih item hitem (h.item hitem)

/-- A rule for a body tells no more about the type than its description. -/
theorem toJson_body_eq_iff (endpoint : String) (t u : TypeExpr) :
    (Encoding.body endpoint t).toJson = (Encoding.body endpoint u).toJson ↔
      t.describe = u.describe := by
  simp only [Encoding.toJson, Encoding.type?, Encoding.family, Encoding.name, Json.obj.injEq,
    List.cons.injEq, Prod.mk.injEq, Json.str.injEq, Json.Str.text.injEq, and_true, true_and]

/-- Nor does a decoder that is given a type. -/
theorem toJson_decoder_eq_iff (handle : String) (t u : TypeExpr) :
    (⟨handle, some t⟩ : Decoder).toJson = (⟨handle, some u⟩ : Decoder).toJson ↔
      t.describe = u.describe := by
  simp only [Decoder.toJson, Decoder.word, Json.ofOption, Json.obj.injEq, List.cons.injEq,
    Prod.mk.injEq, Json.str.injEq, Json.Str.text.injEq, and_true, true_and]

/-- Types with ordinary names are described alike exactly if they are equal up to where
    names come from and empty packages. So these are the types that a plan does not tell
    apart, neither in the rule for a body nor in the decoder of a response. -/
theorem describe_eq_iff_asRead (t u : TypeExpr) (ht : t.IsOrdinary) (hu : u.IsOrdinary) :
    (t.describe = u.describe ↔ t.asRead = u.asRead) ∧
      (∀ endpoint, (Encoding.body endpoint t).toJson = (Encoding.body endpoint u).toJson ↔
        t.asRead = u.asRead) ∧
      ∀ handle, (⟨handle, some t⟩ : Decoder).toJson = (⟨handle, some u⟩ : Decoder).toJson ↔
        t.asRead = u.asRead := by
  have hdescribe : t.describe = u.describe ↔ t.asRead = u.asRead := by
    constructor
    · intro h
      -- Both descriptions end here, so they are compared up to the same end.
      have hend : Closes [] := fun c hc => by cases hc
      exact (isBounded_of_ordinary t ht u [] [] hu hend hend (by rw [h])).1
    · intro h
      rw [← t.describe_asRead, h, u.describe_asRead]
  refine ⟨hdescribe, fun endpoint => ?_, fun handle => ?_⟩
  · rw [toJson_body_eq_iff, hdescribe]
  · rw [toJson_decoder_eq_iff, hdescribe]

/-- Three types of nested items: the first two differ in where a name comes from and in an
    empty package, and in the third one an optional and a list have changed places. -/
theorem describe_eq_iff_asRead_of_nested :
    let item (name : TypeExpr) : TypeExpr := .map (.reference ⟨"Key", none⟩) name
    let t : TypeExpr :=
      .map (.reference ⟨"Key", some ""⟩) (.optional (.list (.external ⟨"Item", some "com.shop"⟩)))
    let u := item (.optional (.list (.reference ⟨"Item", some "com.shop"⟩)))
    let v := item (.list (.optional (.reference ⟨"Item", some "com.shop"⟩)))
    (t.IsOrdinary ∧ u.IsOrdinary ∧ v.IsOrdinary) ∧ t ≠ u ∧ t.describe = u.describe ∧
      t.describe ≠ v.describe := by
  intro item t u v
  have ht : t.IsOrdinary := by decide
  have hu : u.IsOrdinary := by decide
  have hv : v.IsOrdinary := by decide
  -- Read off its description, the first type is the second one, and the third is another.
  refine ⟨⟨ht, hu, hv⟩, by decide, ?_, ?_⟩
  · exact (describe_eq_iff_asRead t u ht hu).1.2 (by decide)
  · exact fun h => absurd ((describe_eq_iff_asRead t v ht hv).1.1 h) (by decide)

end TypeExpr

end ClientPlan
