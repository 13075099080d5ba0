import Mathlib.Data.List.Nodup
import ClientPlan.CommandLine.Parser

/-!
# Requests on the Command Line

That every setting can be asked for, and is what is read.

A caller asks for settings by some options in any order, each with its values behind it.
The options that take any number of values go on up to the next option, and what is an
option is decided by its first character. So as long as no value starts with a hyphen,
the words fall apart into just the requests that they were made of
(`consume_of_spelled`). What a request changes is the setting of its own option
(`given_grant`). So as long as no two requests say different things about an option, it
does not matter in which order they are granted: each setting is what the request for it
says, or its default if there is none.

## Main definitions

* `Flag.spellings`: The words for an option.
* `Request`, `Spelled`: An option with its values, and the words of some requests.
* `Options.given`, `Options.requests`: What a caller has to ask for.
* `Options.withDefaults`: What a caller gets.
* `Options.grant`: The settings after a request.

## Theorems

* `option_of_spelling`, `classify_of_plain`: Options and values are told apart.
* `consume_of_spelled`: The words of some requests ask for these requests.
* `given_grant`: A request changes its own setting only.
* `foldl_grant_of_perm`: Granting what settings ask for gives these settings.
* `parse_of_requests`: Every setting can be asked for, in any order.
-/

namespace ClientPlan

/-- The words for an option: its letter behind a hyphen, and the full spelling. -/
def Flag.spellings (flag : Flag) : List String :=
  flag.letter?.toList.map (fun c => "-" ++ String.singleton c) ++ [flag.long]

namespace CommandLine

/-- An option with the values behind it. -/
structure Request where
  flag : Flag
  values : List String
  deriving DecidableEq, Repr

/-- A text that is a value wherever it stands. -/
def IsPlain (text : String) : Prop :=
  text.toList.head? ≠ some '-'

instance : DecidablePred IsPlain :=
  fun text => inferInstanceAs (Decidable (text.toList.head? ≠ some '-'))

/-- The words of some requests: one for each option, with the values behind it. -/
inductive Spelled : List Request → List String → Prop
  | nil : Spelled [] []
  | cons {r : Request} {given : List Request} {word : String} {words : List String} :
      word ∈ r.flag.spellings → Spelled given words →
        Spelled (r :: given) (word :: (r.values ++ words))

end CommandLine

namespace Options

open CommandLine (Request)

/-- What has been given to a switch: no values, if it is on. -/
def ifOn (on : Bool) : Option (List String) :=
  if on then some [] else none

/-- What has been given to an option, if anything has. -/
def given (o : Options) : Flag → Option (List String)
  | .help => none
  | .clean => some o.clean
  | .paths => some o.paths
  | .excludes => some o.excludes
  | .outputDir => o.outputDir.map fun dir => [dir]
  | .keepGoing => ifOn o.keepGoing
  | .verbose => ifOn o.verbose
  | .recursive => ifOn o.recursive

/-- What a caller has to give to an option, if anything: for an empty list the option is
    left out. -/
def toGive (o : Options) (flag : Flag) : Option (List String) :=
  (o.given flag).filter fun values => flag.arity ≠ .many ∨ values ≠ []

/-- The requests that ask for some settings. -/
def requests (o : Options) : List Request :=
  Flag.all.filterMap fun flag => (o.toGive flag).map (Request.mk flag)

/-- The settings with defaults for what is not asked for. -/
def withDefaults (o : Options) : Options where
  clean := if o.clean = [] then Options.default.clean else o.clean
  paths := if o.paths = [] then Options.default.paths else o.paths
  excludes := if o.excludes = [] then Options.default.excludes else o.excludes
  outputDir := o.outputDir.or Options.default.outputDir
  keepGoing := o.keepGoing || Options.default.keepGoing
  verbose := o.verbose || Options.default.verbose
  recursive := o.recursive || Options.default.recursive

/-- The settings after a request. -/
def grant (o : Options) (r : Request) : Options :=
  if r.flag.arity = .zero then o.turnOn r.flag else o.assign r.values r.flag

end Options

namespace CommandLine

/-- A request with as many values as its option takes, and for a setting. -/
def Request.IsComplete (r : Request) : Prop :=
  match r.flag.arity with
  | .zero => r.values = [] ∧ r.flag ≠ .help
  | .one => ∃ value, r.values = [value]
  | .many => r.values ≠ []

/-- A spelling is read as its option: it takes the values that follow it, and they begin
    behind it. -/
theorem option_of_spelling (flag : Flag) (word : String) (h : word ∈ flag.spellings) :
    word ≠ endOfOptions ∧ ∃ w, classify word = .ok w ∧
      (∀ o values, step o values w = take o flag values) ∧
      ∀ ws, runs (w :: ws) = ([], (w, (runs ws).1) :: (runs ws).2) := by
  have hread : ∀ word ∈ flag.spellings, word ≠ endOfOptions ∧
      (classify word = .ok (.long flag none) ∨ classify word = .ok (.short flag none)) := by
    cases flag <;> decide
  rcases hread word h with ⟨hend, hlong | hshort⟩
  · exact ⟨hend, _, hlong, fun _ _ => rfl, fun _ => rfl⟩
  · exact ⟨hend, _, hshort, fun _ _ => rfl, fun _ => rfl⟩

/-- A value is read as a value. -/
theorem classify_of_plain (text : String) (h : IsPlain text) :
    text ≠ endOfOptions ∧ classify text = .ok (.value text) := by
  constructor
  · rintro rfl
    exact h rfl
  · rw [classify]
    split
    · rename_i heq
      exact absurd (by rw [heq]; rfl) h
    · rename_i heq
      exact absurd (by rw [heq]; rfl) h
    · rfl

theorem classifyAll_values_append (values words : List String) (ws : List Word)
    (hvalues : ∀ value ∈ values, IsPlain value) (h : classifyAll words = .ok (ws, [])) :
    classifyAll (values ++ words) = .ok (values.map Word.value ++ ws, []) := by
  induction values with
  | nil => exact h
  | cons value values ih =>
      rw [List.forall_mem_cons] at hvalues
      rcases classify_of_plain value hvalues.1 with ⟨hend, hvalue⟩
      rw [List.cons_append, classifyAll, if_neg hend, hvalue, ih hvalues.2]
      rfl

theorem runs_values_append (values : List String) (ws : List Word) :
    runs (values.map Word.value ++ ws) = (values ++ (runs ws).1, (runs ws).2) := by
  induction values with
  | nil => rfl
  | cons value values ih =>
      rw [List.map_cons, List.cons_append, runs, ih]
      rfl

/-- An option takes the values of a complete request, all of them. -/
theorem take_of_complete (o : Options) (r : Request) (h : r.IsComplete) :
    take o r.flag r.values = .ok (o.grant r, []) := by
  rw [Request.IsComplete] at h
  unfold take Options.grant
  -- An option takes no value, one, or all that are there.
  split at h
  · rename_i hzero
    simp only [hzero, if_true, h.1, turnOnAll, if_neg h.2]
    rfl
  · rename_i hone
    rcases h with ⟨value, hvalue⟩
    simp only [hone, hvalue, reduceCtorEq, if_false]
  · rename_i hmany
    rcases hvalues : r.values with _ | ⟨value, values⟩
    · exact absurd hvalues h
    · simp only [hmany, reduceCtorEq, if_false]

/-- The words of some complete requests ask for these requests, in their order, and
    nothing is left over. -/
theorem consume_of_spelled {given : List Request} {words : List String} (h : Spelled given words)
    (hcomplete : ∀ r ∈ given, r.IsComplete)
    (hvalues : ∀ r ∈ given, ∀ value ∈ r.values, IsPlain value) :
    ∃ ws, classifyAll words = .ok (ws, []) ∧ (runs ws).1 = [] ∧
      ∀ o, consume o (runs ws).2 = .ok (given.foldl Options.grant o, []) := by
  -- By induction on the requests: the values of one end where the next option stands.
  induction h with
  | nil => exact ⟨[], rfl, rfl, fun _ => rfl⟩
  | @cons r given word words hword _ ih =>
      rw [List.forall_mem_cons] at hcomplete hvalues
      rcases ih hcomplete.2 hvalues.2 with ⟨ws, hclassify, hfront, hconsume⟩
      rcases option_of_spelling r.flag word hword with ⟨hend, w, hoption, hstep, hruns⟩
      refine ⟨w :: (r.values.map Word.value ++ ws), ?_, ?_, fun o => ?_⟩
      · rw [classifyAll, if_neg hend, hoption,
          classifyAll_values_append r.values words ws hvalues.1 hclassify]
      · rw [hruns]
      · -- Behind the values stands the next option, or nothing.
        rw [hruns, runs_values_append, hfront, List.append_nil, consume, hstep,
          take_of_complete o r hcomplete.1]
        simp only [hconsume, List.foldl_cons]
        rfl

/-- Words can be found for all requests. -/
theorem exists_spelled (given : List Request) : ∃ words, Spelled given words := by
  induction given with
  | nil => exact ⟨[], .nil⟩
  | cons r given ih =>
      rcases ih with ⟨words, hwords⟩
      exact ⟨_, .cons (List.mem_append_right _ (List.mem_singleton.2 rfl)) hwords⟩

end CommandLine

namespace Options

open CommandLine (Request)

theorem isSome_ifOn (on : Bool) : (ifOn on).isSome = on := by
  cases on <;> rfl

theorem ifOn_injective : Function.Injective ifOn := by
  intro a b h
  rw [← isSome_ifOn a, h, isSome_ifOn]

theorem eq_nil_of_ifOn {on : Bool} {values : List String} (h : ifOn on = some values) :
    values = [] := by
  cases on with
  | false => cases h
  | true => exact (Option.some.inj h).symm

/-- Settings are what has been given to the options. -/
theorem eq_of_given (o o' : Options) (h : ∀ flag, o.given flag = o'.given flag) : o = o' := by
  -- Each field can be told from what its option has been given.
  have hdirectory : o.outputDir = o'.outputDir :=
    Option.map_injective (fun _ _ heq => (List.cons.inj heq).1) (h .outputDir)
  have hclean : o.clean = o'.clean := Option.some.inj (h .clean)
  have hpaths : o.paths = o'.paths := Option.some.inj (h .paths)
  have hexcludes : o.excludes = o'.excludes := Option.some.inj (h .excludes)
  have hkeepGoing : o.keepGoing = o'.keepGoing := ifOn_injective (h .keepGoing)
  have hverbose : o.verbose = o'.verbose := ifOn_injective (h .verbose)
  have hrecursive : o.recursive = o'.recursive := ifOn_injective (h .recursive)
  cases o
  cases o'
  simp only [Options.mk.injEq]
  exact ⟨hclean, hpaths, hexcludes, hdirectory, hkeepGoing, hverbose, hrecursive⟩

/-- A request changes what has been given to its own option, and nothing else. -/
theorem given_grant (o : Options) (r : Request) (h : r.IsComplete) (flag : Flag) :
    (o.grant r).given flag = if flag = r.flag then some r.values else o.given flag := by
  rcases r with ⟨asked, values⟩
  cases asked with
  | help => exact absurd rfl h.2
  | clean => cases flag <;> rfl
  | paths => cases flag <;> rfl
  | excludes => cases flag <;> rfl
  | outputDir =>
      rcases h with ⟨dir, rfl⟩
      cases flag <;> rfl
  | keepGoing =>
      rcases h with ⟨rfl, -⟩
      cases flag <;> rfl
  | verbose =>
      rcases h with ⟨rfl, -⟩
      cases flag <;> rfl
  | recursive =>
      rcases h with ⟨rfl, -⟩
      cases flag <;> rfl

/-- After some requests an option has been given what all requests for it say, or what it
    had if there are none. -/
theorem given_foldl_grant (flag : Flag) (x : Option (List String)) (start : Options)
    (given : List Request) (hcomplete : ∀ r ∈ given, r.IsComplete)
    (hasked : ∀ r ∈ given, r.flag = flag → some r.values = x)
    (hleft : (∃ r ∈ given, r.flag = flag) ∨ start.given flag = x) :
    (given.foldl grant start).given flag = x := by
  induction given generalizing start with
  | nil =>
      rcases hleft with ⟨r, hr, -⟩ | hstart
      · cases hr
      · exact hstart
  | cons r given ih =>
      rw [List.forall_mem_cons] at hcomplete hasked
      refine ih (start.grant r) hcomplete.2 hasked.2 ?_
      -- A request for this option says what all of them say.
      rw [given_grant start r hcomplete.1]
      by_cases hflag : flag = r.flag
      · rw [if_pos hflag]
        exact Or.inr (hasked.1 hflag.symm)
      · -- A request for another option neither asks nor changes anything here.
        rw [if_neg hflag]
        rcases hleft with ⟨s, hs, hsflag⟩ | hstart
        · rcases List.mem_cons.1 hs with rfl | hs
          · exact absurd hsflag.symm hflag
          · exact Or.inl ⟨s, hs, hsflag⟩
        · exact Or.inr hstart

theorem mem_requests_iff (o : Options) (r : Request) :
    r ∈ o.requests ↔ o.toGive r.flag = some r.values := by
  rw [requests, List.mem_filterMap]
  constructor
  · rintro ⟨flag, -, hflag⟩
    rcases Option.map_eq_some_iff.1 hflag with ⟨values, hvalues, rfl⟩
    exact hvalues
  · intro h
    exact ⟨r.flag, by cases r.flag <;> decide, by rw [h]; rfl⟩

/-- What is requested has been given, and no list in it is empty. -/
theorem given_of_mem_requests (o : Options) (r : Request) (h : r ∈ o.requests) :
    o.given r.flag = some r.values ∧ (r.flag.arity = .many → r.values ≠ []) := by
  rw [mem_requests_iff, toGive, Option.filter_eq_some_iff] at h
  exact ⟨h.1, fun harity => (of_decide_eq_true h.2).resolve_left fun hne => hne harity⟩

/-- The requests for some settings are complete. -/
theorem isComplete_of_mem_requests (o : Options) (r : Request) (h : r ∈ o.requests) :
    r.IsComplete := by
  rcases o.given_of_mem_requests r h with ⟨hgiven, hmany⟩
  rcases r with ⟨flag, values⟩
  -- What has been given to an option is as many values as it takes.
  cases flag with
  | help => cases hgiven
  | clean => exact hmany rfl
  | paths => exact hmany rfl
  | excludes => exact hmany rfl
  | outputDir =>
      rcases Option.map_eq_some_iff.1 hgiven with ⟨dir, -, hdir⟩
      exact ⟨dir, hdir.symm⟩
  | keepGoing => exact ⟨eq_nil_of_ifOn hgiven, Flag.noConfusion⟩
  | verbose => exact ⟨eq_nil_of_ifOn hgiven, Flag.noConfusion⟩
  | recursive => exact ⟨eq_nil_of_ifOn hgiven, Flag.noConfusion⟩

/-- What is not given to an option is its default. -/
theorem given_withDefaults (o : Options) (flag : Flag) :
    o.withDefaults.given flag = (o.toGive flag).or (Options.default.given flag) := by
  rcases o with ⟨clean, paths, excludes, outputDir, keepGoing, verbose, recursive⟩
  cases flag with
  | help => rfl
  | clean => cases clean <;> rfl
  | paths => cases paths <;> rfl
  | excludes => cases excludes <;> rfl
  | outputDir => cases outputDir <;> rfl
  | keepGoing => cases keepGoing <;> rfl
  | verbose => cases verbose <;> rfl
  | recursive => cases recursive <;> rfl

/-- Granting the requests for some settings gives these settings, in any order. -/
theorem foldl_grant_of_perm (o : Options) {given : List Request} (h : given.Perm o.requests) :
    given.foldl grant Options.default = o.withDefaults := by
  -- Option by option, only the requests for it count, and they all say the same.
  refine eq_of_given _ _ fun flag => ?_
  rw [given_withDefaults]
  have hcomplete : ∀ r ∈ given, r.IsComplete :=
    fun r hr => o.isComplete_of_mem_requests r (h.subset hr)
  rcases hgive : o.toGive flag with _ | values
  · refine given_foldl_grant flag _ _ given hcomplete ?_ (Or.inr rfl)
    -- Nothing is asked of this option, so it has its default.
    rintro r hr rfl
    rw [h.mem_iff, mem_requests_iff, hgive] at hr
    cases hr
  · refine given_foldl_grant flag _ _ given hcomplete ?_ (Or.inl ⟨⟨flag, values⟩, ?_, rfl⟩)
    · rintro r hr rfl
      rw [h.mem_iff, mem_requests_iff, hgive] at hr
      exact hr.symm
    · rw [h.mem_iff, mem_requests_iff]
      exact hgive

/-- The values of the settings themselves, apart from defaults. -/
def values (o : Options) : List String :=
  o.clean ++ o.paths ++ o.excludes ++ o.outputDir.toList

/-- The values that are requested are those of the settings. -/
theorem mem_values_of_mem_requests (o : Options) (r : Request) (h : r ∈ o.requests) :
    ∀ value ∈ r.values, value ∈ o.values := by
  have hgiven := (o.given_of_mem_requests r h).1
  rcases r with ⟨flag, given⟩
  intro value hvalue
  simp only [values, List.mem_append, Option.mem_toList]
  -- Only the first four options have values, and a switch has none.
  cases flag with
  | help => cases hgiven
  | clean =>
      cases hgiven
      exact Or.inl (Or.inl (Or.inl hvalue))
  | paths =>
      cases hgiven
      exact Or.inl (Or.inl (Or.inr hvalue))
  | excludes =>
      cases hgiven
      exact Or.inl (Or.inr hvalue)
  | outputDir =>
      rcases Option.map_eq_some_iff.1 hgiven with ⟨dir, hdir, rfl⟩
      rw [List.mem_singleton.1 hvalue]
      exact Or.inr hdir
  | keepGoing =>
      cases eq_nil_of_ifOn hgiven
      cases hvalue
  | verbose =>
      cases eq_nil_of_ifOn hgiven
      cases hvalue
  | recursive =>
      cases eq_nil_of_ifOn hgiven
      cases hvalue

end Options

namespace CommandLine

/-- Whatever settings a caller wants, there are words for them, and in whatever order the
    options are given, each with its values behind it, the words are read as just these
    settings, with defaults for what is left out. No value may start with a hyphen. -/
theorem parse_of_requests (o : Options) (hplain : ∀ value ∈ o.values, IsPlain value)
    (given : List Request) (hgiven : given.Perm o.requests) :
    (∃ words, Spelled given words) ∧
      ∀ words, Spelled given words → parse words = .ok o.withDefaults := by
  refine ⟨exists_spelled given, fun words hwords => ?_⟩
  have hcomplete : ∀ r ∈ given, r.IsComplete :=
    fun r hr => o.isComplete_of_mem_requests r (hgiven.subset hr)
  have hvalues : ∀ r ∈ given, ∀ value ∈ r.values, IsPlain value :=
    fun r hr value hvalue =>
      hplain value (o.mem_values_of_mem_requests r (hgiven.subset hr) value hvalue)
  rcases consume_of_spelled hwords hcomplete hvalues with ⟨ws, hclassify, hfront, hconsume⟩
  simp only [parse, hclassify, hconsume, hfront, o.foldl_grant_of_perm hgiven, List.append_nil]

/-- Some settings with values that look like nothing in particular, asked for out of
    order and in both spellings. -/
theorem parse_of_requests_of_mixedOrder :
    let o : Options := ⟨["old.plan.json"], [], ["", "a=b", "c -d"], some "out", true, false, true⟩
    let given : List Request := [⟨.excludes, ["", "a=b", "c -d"]⟩, ⟨.recursive, []⟩,
      ⟨.outputDir, ["out"]⟩, ⟨.clean, ["old.plan.json"]⟩, ⟨.keepGoing, []⟩]
    let words := ["--excludes", "", "a=b", "c -d", "-r", "-o", "out", "--clean", "old.plan.json",
      "--keep-going"]
    (∀ value ∈ o.values, IsPlain value) ∧ given.Perm o.requests ∧ Spelled given words ∧
      parse words = .ok ⟨["old.plan.json"], ["**/*.conjure.json"], ["", "a=b", "c -d"], some "out",
        true, false, true⟩ := by
  intro o given words
  have hplain : ∀ value ∈ o.values, IsPlain value := by decide
  have hgiven : given.Perm o.requests := by decide
  have hwords : Spelled given words :=
    .cons (by decide) (.cons (by decide) (.cons (by decide) (.cons (by decide)
      (.cons (by decide) .nil))))
  exact ⟨hplain, hgiven, hwords, (parse_of_requests o hplain given hgiven).2 words hwords⟩

end CommandLine

end ClientPlan
