import ClientPlan.Proofs.Json.Strings

/-!
# Reading Back Values

A value that was written is read as itself.

The reader returns what it has read together with the text behind it, so its steps
compose, and the relation `Gives` states a step without the proof that the text behind
is shorter. For each rule of the grammar there is one lemma: what the parts are read as,
the whole is read as what they make up. An induction on the value then follows the
writer, and it needs no condition on the text behind the value, since no plain value is
read differently for what follows it.

Plain values have no numbers. Their strings are text, and no object has two entries of
one name, so that all its entries are kept.

## Main definitions

* `Gives`: What a step returns, and the text behind it.
* `Plain`: A value of null, truth values, text, arrays and objects.

## Theorems

* `scanItems_last`, `scanItems_more`, `scanEntries_last`, `scanEntries_more`: The steps
  along an array and an object.
* `ofEntries_of_nodup`: The object with entries of different names.
* `scanValue_renderAt`: A value is read from what it was written as.
* `read_render`: The text of a value, with or without a line feed behind it.
-/

namespace ClientPlan

namespace Json

/-- A step returns a result and leaves a rest. -/
def Gives {α : Type} {text : List Char} (scan : Scan α text) (x : α) (rest : List Char) : Prop :=
  ∃ h, scan = .ok (x, ⟨rest, h⟩)

/-- A value that is read back whatever follows it. -/
inductive Plain : Json → Prop where
  | null : Plain .null
  | bool (b : Bool) : Plain (.bool b)
  | text (s : String) : Plain (.str (.text s))
  | arr (items : List Json) (hitems : ∀ item ∈ items, Plain item) : Plain (.arr items)
  | obj (entries : List (String × Json)) (hnames : (entries.map Prod.fst).Nodup)
      (hvalues : ∀ entry ∈ entries, Plain entry.2) :
      Plain (.obj (entries.map fun entry => (.text entry.1, entry.2)))

/-! ### One rule of the grammar each -/

theorem scanValue_str {rest after : List Char} {units : List Nat}
    (h : scanString ('"' :: rest) rest = .ok (units, after)) :
    Gives (scanValue ('"' :: rest)) (.str (.ofUnits units)) after := by
  rw [scanValue]
  split
  · rename_i h'
    rw [h] at h'
    cases h'
  · rename_i h'
    rw [h] at h'
    cases h'
    exact ⟨_, rfl⟩

theorem scanValue_emptyArr {rest after : List Char} (h : skipBlank rest = ']' :: after) :
    Gives (scanValue ('[' :: rest)) (.arr []) after := by
  rw [scanValue]
  split
  · rename_i h'
    rw [h] at h'
    cases h'
    exact ⟨_, rfl⟩
  · rename_i hne
    exact absurd h (hne _)

theorem scanValue_arr {rest after : List Char} {values : List Json}
    (hne : ∀ after, skipBlank rest ≠ ']' :: after)
    (h : Gives (scanItems (skipBlank rest)) values after) :
    Gives (scanValue ('[' :: rest)) (.arr values) after := by
  rcases h with ⟨hlt, h⟩
  rw [scanValue]
  split
  · rename_i h'
    exact absurd h' (hne _)
  · simp only [h]
    exact ⟨_, rfl⟩

theorem scanValue_emptyObj {rest after : List Char} (h : skipBlank rest = '\x7d' :: after) :
    Gives (scanValue ('\x7b' :: rest)) (.obj []) after := by
  rw [scanValue]
  split
  · rename_i h'
    rw [h] at h'
    cases h'
    exact ⟨_, rfl⟩
  · rename_i hne
    exact absurd h (hne _)

theorem scanValue_obj {rest after : List Char} {values : List (Str × Json)}
    (hne : ∀ after, skipBlank rest ≠ '\x7d' :: after)
    (h : Gives (scanEntries (skipBlank rest)) values after) :
    Gives (scanValue ('\x7b' :: rest)) (ofEntries values) after := by
  rcases h with ⟨hlt, h⟩
  rw [scanValue]
  split
  · rename_i h'
    exact absurd h' (hne _)
  · simp only [h]
    exact ⟨_, rfl⟩

theorem scanItems_last {text rest after : List Char} {value : Json}
    (hvalue : Gives (scanValue text) value rest) (hrest : skipBlank rest = ']' :: after) :
    Gives (scanItems text) [value] after := by
  rcases hvalue with ⟨hlt, hvalue⟩
  rw [scanItems, hvalue]
  simp only
  -- Behind the value stands the bracket, so no other case is left.
  split
  · rename_i h
    rw [hrest] at h
    cases h
    exact ⟨_, rfl⟩
  · rename_i h
    rw [hrest] at h
    cases h
  · rename_i hne _
    exact absurd hrest (hne _)

theorem scanItems_more {text rest more after : List Char} {value : Json} {values : List Json}
    (hvalue : Gives (scanValue text) value rest) (hrest : skipBlank rest = ',' :: more)
    (hvalues : Gives (scanItems (skipBlank more)) values after) :
    Gives (scanItems text) (value :: values) after := by
  rcases hvalue with ⟨hlt, hvalue⟩
  rcases hvalues with ⟨hlt', hvalues⟩
  rw [scanItems, hvalue]
  simp only
  -- Behind the value stands a comma, so no other case is left.
  split
  · rename_i h
    rw [hrest] at h
    cases h
  · rename_i h
    rw [hrest] at h
    cases h
    simp only [hvalues]
    exact ⟨_, rfl⟩
  · rename_i hne
    exact absurd hrest (hne _)

section Entries

variable {name afterName afterColon rest : List Char} {units : List Nat} {value : Json}
  (hname : scanString ('"' :: name) name = .ok (units, afterName))
  (hcolon : skipBlank afterName = ':' :: afterColon)
  (hvalue : Gives (scanValue (skipBlank afterColon)) value rest)
include hname hcolon hvalue

theorem scanEntries_last {after : List Char} (hrest : skipBlank rest = '\x7d' :: after) :
    Gives (scanEntries ('"' :: name)) [(Str.ofUnits units, value)] after := by
  rcases hvalue with ⟨hlt, hvalue⟩
  rw [scanEntries]
  -- The name and the colon are there, and then the value is read.
  split
  · rename_i h
    rw [hname] at h
    cases h
  rename_i h
  rw [hname] at h
  cases h
  split
  · rename_i h
    rw [hcolon] at h
    cases h
    simp only [hvalue]
    split
    · rename_i h
      rw [hrest] at h
      cases h
      exact ⟨_, rfl⟩
    · rename_i h
      rw [hrest] at h
      cases h
    · rename_i hne _
      exact absurd hrest (hne _)
  · rename_i hne
    exact absurd hcolon (hne _)

/-- The name, the colon and the value are read as for a last entry, and what follows
    decides. -/
theorem scanEntries_more {more after : List Char} {values : List (Str × Json)}
    (hrest : skipBlank rest = ',' :: more)
    (hvalues : Gives (scanEntries (skipBlank more)) values after) :
    Gives (scanEntries ('"' :: name)) ((Str.ofUnits units, value) :: values) after := by
  rcases hvalue with ⟨hlt, hvalue⟩
  rcases hvalues with ⟨hlt', hvalues⟩
  rw [scanEntries]
  split
  · rename_i h
    rw [hname] at h
    cases h
  rename_i h
  rw [hname] at h
  cases h
  split
  · rename_i h
    rw [hcolon] at h
    cases h
    simp only [hvalue]
    split
    · rename_i h
      rw [hrest] at h
      cases h
    · rename_i h
      rw [hrest] at h
      cases h
      simp only [hvalues]
      exact ⟨_, rfl⟩
    · rename_i hne
      exact absurd hrest (hne _)
  · rename_i hne
    exact absurd hcolon (hne _)

end Entries

/-! ### Entries of different names -/

theorem insert_of_not_mem (name : Str) (value : Json) (entries : List (Str × Json))
    (h : name ∉ entries.map Prod.fst) : insert name value entries = entries ++ [(name, value)] := by
  induction entries with
  | nil => rfl
  | cons entry entries ih =>
      rw [List.map_cons, List.mem_cons, not_or] at h
      rw [insert, if_neg fun heq => h.1 heq.symm, ih h.2, List.cons_append]

/-- Entries are added at the end as long as their names are new. -/
theorem foldl_insert_of_nodup (entries : List (Str × Json)) :
    ∀ fields : List (Str × Json), ((fields ++ entries).map Prod.fst).Nodup →
      entries.foldl (fun fields entry => insert entry.1 entry.2 fields) fields =
        fields ++ entries := by
  induction entries with
  | nil =>
      intro fields _
      rw [List.foldl_nil, List.append_nil]
  | cons entry entries ih =>
      intro fields hnodup
      have hnew : entry.1 ∉ fields.map Prod.fst := by
        rw [List.map_append, List.map_cons] at hnodup
        intro hmem
        exact (List.nodup_append.1 hnodup).2.2 _ hmem _ List.mem_cons_self rfl
      -- The first entry goes to the end, and the others behind it.
      have happend : fields ++ entry :: entries = (fields ++ [entry]) ++ entries := by
        rw [List.append_assoc, List.singleton_append]
      rw [happend] at hnodup ⊢
      rw [List.foldl_cons, insert_of_not_mem _ _ _ hnew]
      exact ih _ hnodup

theorem ofEntries_of_nodup (entries : List (Str × Json)) (h : (entries.map Prod.fst).Nodup) :
    ofEntries entries = .obj entries := by
  rw [ofEntries, foldl_insert_of_nodup entries [] h, List.nil_append]

theorem nodup_text (entries : List (String × Json)) (h : (entries.map Prod.fst).Nodup) :
    ((entries.map fun e => (Str.text e.1, e.2)).map Prod.fst).Nodup := by
  rw [List.map_map]
  have hmap : (entries.map Prod.fst).map Str.text =
      entries.map (Prod.fst ∘ fun e => (Str.text e.1, e.2)) := List.map_map
  rw [← hmap]
  exact List.Pairwise.map Str.text (fun _ _ hne heq => hne (Str.text.inj heq)) h

/-! ### What was written -/

theorem renderAt_null (depth : Nat) : renderAt depth .null = ['n', 'u', 'l', 'l'] := by
  rw [renderAt.eq_def]

theorem renderAt_true (depth : Nat) : renderAt depth (.bool true) = ['t', 'r', 'u', 'e'] := by
  rw [renderAt.eq_def]

theorem renderAt_false (depth : Nat) :
    renderAt depth (.bool false) = ['f', 'a', 'l', 's', 'e'] := by
  rw [renderAt.eq_def]

/-- A new line is skipped together with its indentation. -/
theorem skipBlank_newline (depth : Nat) (text : List Char) :
    skipBlank (newline depth ++ text) = skipBlank text := by
  refine List.dropWhile_append_of_pos fun c hc => ?_
  rcases List.mem_cons.1 hc with rfl | hspace
  · rfl
  · rw [List.eq_of_mem_replicate hspace]
    rfl

theorem skipBlank_cons (c : Char) (text : List Char) (h : isBlank c = false) :
    skipBlank (c :: text) = c :: text :=
  List.dropWhile_cons_of_neg (by rw [h]; exact Bool.false_ne_true)

/-- The text of a value starts with no blank, no closing bracket and no byte order mark. -/
theorem renderAt_head (value : Json) (h : Plain value) (depth : Nat) :
    ∃ c text, renderAt depth value = c :: text ∧ isBlank c = false ∧ c ≠ ']' ∧
      c ≠ '\uFEFF' := by
  -- Each kind of value has its own first character.
  cases h with
  | null => exact ⟨_, _, by rw [renderAt], by decide, by decide, by decide⟩
  | bool b =>
      cases b with
      | false => exact ⟨_, _, by rw [renderAt], by decide, by decide, by decide⟩
      | true => exact ⟨_, _, by rw [renderAt], by decide, by decide, by decide⟩
  | text s => exact ⟨_, _, by rw [renderAt, quote], by decide, by decide, by decide⟩
  | arr items hitems =>
      cases items with
      | nil => exact ⟨_, _, by rw [renderAt], by decide, by decide, by decide⟩
      | cons item items => exact ⟨_, _, by rw [renderAt], by decide, by decide, by decide⟩
  | obj entries hnames hvalues =>
      cases entries with
      | nil => exact ⟨_, _, by rw [List.map_nil, renderAt], by decide, by decide, by decide⟩
      | cons entry entries =>
          exact ⟨_, _, by rw [List.map_cons, renderAt], by decide, by decide, by decide⟩

/-- Blanks are skipped up to a value, and not into it. -/
theorem skipBlank_renderAt (value : Json) (h : Plain value) (depth : Nat) (text : List Char) :
    skipBlank (renderAt depth value ++ text) = renderAt depth value ++ text := by
  rcases renderAt_head value h depth with ⟨c, rest, hrender, hblank, -, -⟩
  rw [hrender, List.cons_append]
  exact skipBlank_cons c _ hblank

/-- What an item of an array, or a value of an object, is written as is read as that
    value, whatever follows. -/
structure ReadsBack (depth : Nat) (value : Json) : Prop where
  plain : Plain value
  gives : ∀ after, Gives (scanValue (renderAt depth value ++ after)) value after

theorem ReadsBack.gives_behindBlank {depth : Nat} {value : Json} (h : ReadsBack depth value)
    (after : List Char) :
    Gives (scanValue (skipBlank (' ' :: (renderAt depth value ++ after)))) value after := by
  have hskip : skipBlank (' ' :: (renderAt depth value ++ after)) =
      renderAt depth value ++ after :=
    skipBlank_renderAt value h.plain depth after
  rw [hskip]
  exact h.gives after

/-- The items of an array are read one after the other. -/
theorem scanItems_renderItems (depth outer : Nat) (rest : List Char) (items : List Json) :
    ∀ item, (∀ value ∈ item :: items, ReadsBack depth value) →
      Gives (scanItems (renderAt depth item ++ (renderItems depth items ++
        (newline outer ++ ']' :: rest)))) (item :: items) rest := by
  -- By induction on the items behind the first one.
  induction items with
  | nil =>
      intro item hread
      refine scanItems_last ((hread item List.mem_cons_self).gives _) ?_
      rw [renderItems, List.nil_append, skipBlank_newline]
      exact skipBlank_cons ']' rest rfl
  | cons next items ih =>
      intro item hread
      have hnext : ∀ value ∈ next :: items, ReadsBack depth value :=
        fun value hmem => hread value (List.mem_cons_of_mem item hmem)
      rw [renderItems, List.cons_append, List.append_assoc, List.append_assoc]
      -- The blanks in front of the next item are skipped.
      refine scanItems_more ((hread item List.mem_cons_self).gives _)
        (skipBlank_cons ',' _ rfl) ?_
      rw [skipBlank_newline, skipBlank_renderAt next (hnext next List.mem_cons_self).plain]
      exact ih next hnext

/-- The name of an entry is read up to its quote, and a colon and a blank follow. -/
theorem scanString_renderEntry (depth : Nat) (name : String) (value : Json)
    (after : List Char) :
    ∃ text units, renderEntry depth (.text name, value) ++ after = '"' :: text ∧
      scanString ('"' :: text) text =
        .ok (units, ':' :: ' ' :: (renderAt depth value ++ after)) ∧
      Str.ofUnits units = .text name := by
  rcases scanString_quote name (':' :: ' ' :: (renderAt depth value ++ after)) with
    ⟨units, hunits, hname⟩
  refine ⟨_, units, ?_, hunits _, hname⟩
  rw [renderEntry, quote]
  simp only [List.cons_append, List.append_assoc, List.nil_append]

/-- The entries of an object are read one after the other. -/
theorem scanEntries_renderEntries (depth outer : Nat) (rest : List Char)
    (entries : List (String × Json)) :
    ∀ entry : String × Json, (∀ e ∈ entry :: entries, ReadsBack depth e.2) →
      Gives (scanEntries (renderEntry depth (.text entry.1, entry.2) ++
        (renderEntries depth (entries.map fun e => (.text e.1, e.2)) ++
          (newline outer ++ '\x7d' :: rest))))
        ((entry :: entries).map fun e => (.text e.1, e.2)) rest := by
  induction entries with
  | nil =>
      intro entry hread
      rcases scanString_renderEntry depth entry.1 entry.2 (newline outer ++ '\x7d' :: rest) with
        ⟨text, units, htext, hname, hunits⟩
      rw [List.map_nil, renderEntries, List.nil_append, htext, List.map_singleton, ← hunits]
      refine scanEntries_last hname (skipBlank_cons ':' _ rfl)
        ((hread entry List.mem_cons_self).gives_behindBlank _) ?_
      rw [skipBlank_newline]
      exact skipBlank_cons '\x7d' rest rfl
  | cons next entries ih =>
      intro entry hread
      have hnext : ∀ e ∈ next :: entries, ReadsBack depth e.2 :=
        fun e hmem => hread e (List.mem_cons_of_mem entry hmem)
      have hskip (text : List Char) : skipBlank ('"' :: text) = '"' :: text :=
        skipBlank_cons '"' text rfl
      -- The next entry begins with its quote, so the blanks in front of it end there.
      rw [List.map_cons, renderEntries, List.cons_append, List.append_assoc, List.append_assoc]
      rcases scanString_renderEntry depth next.1 next.2
          (renderEntries depth (entries.map fun e => (.text e.1, e.2)) ++
            (newline outer ++ '\x7d' :: rest)) with ⟨text', -, htext', -, -⟩
      rw [htext']
      rcases scanString_renderEntry depth entry.1 entry.2 (',' :: (newline depth ++ '"' :: text'))
        with ⟨text, units, htext, hname, hunits⟩
      rw [htext, List.map_cons, ← hunits]
      refine scanEntries_more hname (skipBlank_cons ':' _ rfl)
        ((hread entry List.mem_cons_self).gives_behindBlank _) (skipBlank_cons ',' _ rfl) ?_
      rw [skipBlank_newline, hskip, ← htext']
      exact ih next hnext

theorem scanValue_renderAt_text (depth : Nat) (s : String) (rest : List Char) :
    Gives (scanValue (renderAt depth (.str (.text s)) ++ rest)) (.str (.text s)) rest := by
  rcases scanString_quote s rest with ⟨units, hunits, hs⟩
  have hrender : renderAt depth (.str (.text s)) ++ rest =
      '"' :: (escape (.text s) ++ '"' :: rest) := by
    rw [renderAt, quote, List.cons_append, List.append_assoc, List.singleton_append]
  have hscan := scanValue_str (hunits ('"' :: (escape (.text s) ++ '"' :: rest)))
  rw [hs] at hscan
  rw [hrender]
  exact hscan

/-- An array is read if its items are. -/
theorem scanValue_renderAt_arr (depth : Nat) (items : List Json)
    (hread : ∀ item ∈ items, ReadsBack (depth + 1) item) (rest : List Char) :
    Gives (scanValue (renderAt depth (.arr items) ++ rest)) (.arr items) rest := by
  cases items with
  | nil =>
      rw [renderAt]
      exact scanValue_emptyArr (skipBlank_cons ']' rest rfl)
  | cons item items =>
      have hplain : Plain item := (hread item List.mem_cons_self).plain
      have hrender : renderAt depth (.arr (item :: items)) ++ rest =
          '[' :: (newline (depth + 1) ++ (renderAt (depth + 1) item ++
            (renderItems (depth + 1) items ++ (newline depth ++ ']' :: rest)))) := by
        rw [renderAt]
        simp only [List.cons_append, List.append_assoc, List.nil_append]
      have hskip := skipBlank_renderAt item hplain (depth + 1)
        (renderItems (depth + 1) items ++ (newline depth ++ ']' :: rest))
      rw [hrender]
      refine scanValue_arr ?_ ?_
      · -- The first item does not look like the end of the array.
        intro after h
        rcases renderAt_head item hplain (depth + 1) with ⟨c, text, htext, -, hc, -⟩
        rw [skipBlank_newline, hskip, htext, List.cons_append] at h
        exact hc (List.cons.inj h).1
      · rw [skipBlank_newline, hskip]
        exact scanItems_renderItems (depth + 1) depth rest items item hread

/-- An object is read if the values of its entries are. -/
theorem scanValue_renderAt_obj (depth : Nat) (entries : List (String × Json))
    (hnames : (entries.map Prod.fst).Nodup) (hread : ∀ e ∈ entries, ReadsBack (depth + 1) e.2)
    (rest : List Char) :
    Gives (scanValue (renderAt depth (.obj (entries.map fun e => (.text e.1, e.2))) ++ rest))
      (.obj (entries.map fun e => (.text e.1, e.2))) rest := by
  cases entries with
  | nil =>
      rw [List.map_nil, renderAt]
      exact scanValue_emptyObj (skipBlank_cons '\x7d' rest rfl)
  | cons entry entries =>
      have hrender : renderAt depth (.obj ((entry :: entries).map fun e => (.text e.1, e.2))) ++
          rest = '\x7b' :: (newline (depth + 1) ++
            (renderEntry (depth + 1) (.text entry.1, entry.2) ++
            (renderEntries (depth + 1) (entries.map fun e => (.text e.1, e.2)) ++
              (newline depth ++ '\x7d' :: rest)))) := by
        rw [List.map_cons, renderAt]
        simp only [List.cons_append, List.append_assoc, List.nil_append]
      have hscan := scanEntries_renderEntries (depth + 1) depth rest entries entry hread
      rcases scanString_renderEntry (depth + 1) entry.1 entry.2
          (renderEntries (depth + 1) (entries.map fun e => (.text e.1, e.2)) ++
            (newline depth ++ '\x7d' :: rest)) with ⟨text, -, htext, -, -⟩
      have hskip : skipBlank ('"' :: text) = '"' :: text := skipBlank_cons '"' text rfl
      -- No name is there twice, so no entry replaces another one.
      rw [hrender, htext, ← ofEntries_of_nodup _ (nodup_text _ hnames)]
      rw [htext] at hscan
      refine scanValue_obj ?_ ?_
      · -- The first entry starts with a quote, and not with the end of the object.
        intro after h
        rw [skipBlank_newline, hskip] at h
        cases h
      · rw [skipBlank_newline, hskip]
        exact hscan

/-- A value is read from what it was written as, whatever follows it. -/
theorem scanValue_renderAt (value : Json) (h : Plain value) :
    ∀ depth rest, Gives (scanValue (renderAt depth value ++ rest)) value rest := by
  -- By induction on the value, at any depth and with anything behind it.
  induction h with
  | null =>
      intro depth rest
      rw [renderAt_null]
      simp only [List.cons_append, List.nil_append]
      rw [Gives, scanValue]
      exact ⟨_, rfl⟩
  | bool b =>
      intro depth rest
      cases b with
      | false =>
          rw [renderAt_false]
          simp only [List.cons_append, List.nil_append]
          rw [Gives, scanValue]
          exact ⟨_, rfl⟩
      | true =>
          rw [renderAt_true]
          simp only [List.cons_append, List.nil_append]
          rw [Gives, scanValue]
          exact ⟨_, rfl⟩
  | text s => exact fun depth rest => scanValue_renderAt_text depth s rest
  | arr items hitems ih =>
      exact fun depth rest => scanValue_renderAt_arr depth items
        (fun item hitem => ⟨hitems item hitem, ih item hitem (depth + 1)⟩) rest
  | obj entries hnames hvalues ih =>
      exact fun depth rest => scanValue_renderAt_obj depth entries hnames
        (fun e he => ⟨hvalues e he, ih e he (depth + 1)⟩) rest

/-- The text of a value is read as that value, and so it is with a line feed behind it. -/
theorem read_render (value : Json) (h : Plain value) (blanks : List Char)
    (hblanks : skipBlank blanks = []) : read (render value ++ blanks) = .ok value := by
  rcases renderAt_head value h 0 with ⟨c, text, htext, -, -, hmark⟩
  have hgives : Gives (scanValue (skipBlank (render value ++ blanks))) value blanks := by
    rw [render, skipBlank_renderAt value h 0 blanks]
    exact scanValue_renderAt value h 0 blanks
  rcases hgives with ⟨hlt, hscan⟩
  rw [read, scanText]
  · rw [hscan]
    simp only [hblanks]
    exact rfl
  · -- A byte order mark would be refused, but there is none in front.
    intro tail heq
    rw [render, htext, List.cons_append] at heq
    exact hmark (List.cons.inj heq).1

end Json

end ClientPlan
