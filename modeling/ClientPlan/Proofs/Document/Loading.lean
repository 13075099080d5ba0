import ClientPlan.Proofs.Document.Acceptance
import ClientPlan.Proofs.Json.LongIntegers
import ClientPlan.Proofs.Path.Clean

/-!
# Loaded Files

What becomes of a definition file.

A file gives services if each step of loading succeeds: its bytes are read, they are a
text, the text is read as a value, and the value is a document. If a step fails, the
failure is reported under the path of the file, with two exceptions. A path with a NUL
character is no path of a file, and digits that are too many for an integer are not
reported at all, though the text that holds them gives no value. Nothing else is left:
`load_outcome` lists what loading can end with, for any file system and any path.

## Main definitions

* `HoldsText`, `Holds`: The text and the value that a file holds.
* `Refused`: The step at which a file is refused, and why.
* `StartsWithPath`: A report in front of which the path stands.

## Theorems

* `load_ne_nulInPath`: A path without a NUL character can be asked for its content.
* `load_outcome`: Services, a report on the file, or one of the two exceptions.
* `exists_load_unreported`: Too many digits are an exception indeed.
-/

namespace ClientPlan

namespace FileSystem

theorem read_ne_nulInPath (fs : FileSystem) (cwd p : Path) (h : '\x00' ∉ p) :
    fs.read cwd p ≠ .error .nulInPath := by
  rw [read, if_neg h]
  rcases fs.resolve cwd p with reason | a
  · exact fun hread => Fault.noConfusion (Except.error.inj hread)
  · rcases hentry : fs.at? a with _ | _ | content
    · simp only [hentry, ne_eq, Except.error.injEq, reduceCtorEq, not_false_eq_true]
    · simp only [hentry, ne_eq, Except.error.injEq, reduceCtorEq, not_false_eq_true]
    · simp only [hentry, ne_eq, reduceCtorEq, not_false_eq_true]

end FileSystem

namespace Document

theorem parse_ne_nulInPath (p : Path) (bytes : List UInt8) :
    parse p bytes ≠ .error .nulInPath := by
  unfold parse
  rcases Utf8.decode bytes with fault | text
  · exact fun hparse => LoadFailure.noConfusion (Except.error.inj hparse)
  · simp only
    split
    · exact fun hparse => LoadFailure.noConfusion (Except.error.inj hparse)
    · exact fun hparse => LoadFailure.noConfusion (Except.error.inj hparse)
    · split
      · exact fun hparse => LoadFailure.noConfusion (Except.error.inj hparse)
      · simp only [ne_eq, reduceCtorEq, not_false_eq_true]

/-- A file whose path holds no NUL character can be asked for its content. -/
theorem load_ne_nulInPath (fs : FileSystem) (cwd p : Path) (h : '\x00' ∉ p) :
    load fs cwd p ≠ .error .nulInPath := by
  -- A path that is cleaned gains no characters but slashes and dots.
  have hclean : '\x00' ∉ Path.clean p := by
    intro hmem
    rcases Path.mem_clean p _ hmem with hslash | hdot | hmem
    · exact absurd hslash (by decide)
    · exact absurd hdot (by decide)
    · exact h hmem
  have hread := fs.read_ne_nulInPath cwd _ hclean
  unfold load
  rcases hcontent : fs.read cwd (Path.clean p) with (⟨reason, path⟩ | _) | bytes
  · simp only [hcontent, ne_eq, Except.error.injEq, reduceCtorEq, not_false_eq_true]
  · exact absurd hcontent hread
  · simp only [hcontent]
    exact parse_ne_nulInPath _ bytes

/-- The file that a path leads to holds a text. -/
def HoldsText (fs : FileSystem) (cwd path : Path) (text : List Char) : Prop :=
  ∃ bytes, fs.read cwd (Path.clean path) = .ok bytes ∧ Utf8.decode bytes = .ok text

/-- The file that a path leads to holds a text that is read as a value. -/
def Holds (fs : FileSystem) (cwd path : Path) (value : Json) : Prop :=
  ∃ text, HoldsText fs cwd path text ∧ Json.read (Text.unifyNewlines text) = .ok value

/-- A file holds one value at most. -/
theorem Holds.unique {fs : FileSystem} {cwd path : Path} {v w : Json} (hv : Holds fs cwd path v)
    (hw : Holds fs cwd path w) : v = w := by
  rcases hv with ⟨text, ⟨bytes, hread, hdecode⟩, hvalue⟩
  rcases hw with ⟨text', ⟨bytes', hread', hdecode'⟩, hvalue'⟩
  rw [hread, Except.ok.injEq] at hread'
  rw [← hread', hdecode, Except.ok.injEq] at hdecode'
  rw [← hdecode', hvalue, Except.ok.injEq] at hvalue'
  exact hvalue'

/-- The file that a path leads to is refused: it cannot be read, holds no text, no value
    or no document. -/
inductive Refused (fs : FileSystem) (cwd path : Path) : Defect → Prop where
  | unreadable (reason : FileSystem.Reason) (p : Path)
      (hread : fs.read cwd (Path.clean path) = .error (.refused reason p)) :
      Refused fs cwd path (.unreadable reason)
  | noText (bytes : List UInt8) (fault : Utf8.Fault)
      (hread : fs.read cwd (Path.clean path) = .ok bytes)
      (hdecode : Utf8.decode bytes = .error fault) : Refused fs cwd path (.noText fault)
  | noJson (text : List Char) (expected : Json.Expectation) (offset : Nat)
      (htext : HoldsText fs cwd path text)
      (hjson : Json.read (Text.unifyNewlines text) = .error (.malformed expected offset)) :
      Refused fs cwd path (.noJson (Text.unifyNewlines text) expected offset)
  | invalid (value : Json) (problems : List Problem) (hvalue : Holds fs cwd path value)
      (hdocument : ¬ IsDocument .standard value)
      (hproblems : definitionsOf value = .error problems) :
      Refused fs cwd path (.invalid problems)

/-- The report on a file starts with its path. -/
def StartsWithPath (path : Path) (e : DefinitionError) : Prop :=
  ∃ wording, e.message = String.ofList path ++ ": " ++ wording

/-- Loading ends with the services of a document, with a report that starts with the path
    and names the step that has failed, or, without a report, with a NUL character in the
    path or with digits in the text that are too many for an integer. -/
theorem load_outcome (fs : FileSystem) (cwd path : Path) :
    (∃ services value, load fs cwd path = .ok services ∧ Holds fs cwd path value ∧
        IsDocument .standard value ∧ definitionsOf value = .ok services) ∨
      (∃ e, load fs cwd path = .error (.definition e) ∧ StartsWithPath (Path.clean path) e ∧
        Refused fs cwd path e.defect) ∨
      (load fs cwd path = .error .nulInPath ∧ '\x00' ∈ path) ∨
      ∃ n text, load fs cwd path = .error (.tooManyDigits n) ∧ HoldsText fs cwd path text ∧
        Json.read (Text.unifyNewlines text) = .error (.tooManyDigits n) ∧
        Json.LongRun text n := by
  rcases hread : fs.read cwd (Path.clean path) with (⟨reason, p⟩ | _) | bytes
  · refine Or.inr (Or.inl ⟨⟨some (Path.clean path), .unreadable reason⟩, ?_, ⟨_, rfl⟩, ?_⟩)
    · rw [load, hread]
    · exact Refused.unreadable reason p hread
  · have hload : load fs cwd path = .error .nulInPath := by rw [load, hread]
    refine Or.inr (Or.inr (Or.inl ⟨hload, ?_⟩))
    by_contra hnul
    exact load_ne_nulInPath fs cwd path hnul hload
  have hload : load fs cwd path = parse (Path.clean path) bytes := by rw [load, hread]
  rw [hload]
  unfold parse
  rcases hdecode : Utf8.decode bytes with fault | text
  · exact Or.inr (Or.inl ⟨_, rfl, ⟨_, rfl⟩, Refused.noText bytes fault hread hdecode⟩)
  -- From here on the file holds a text.
  have htext : HoldsText fs cwd path text := ⟨bytes, hread, hdecode⟩
  simp only
  rcases hjson : Json.read (Text.unifyNewlines text) with (⟨expected, offset⟩ | n) | value
  · exact Or.inr (Or.inl ⟨_, rfl, ⟨_, rfl⟩, Refused.noJson text expected offset htext hjson⟩)
  · have hrun := Json.longRun_of_unifyNewlines text n (Json.longRun_of_read _ n hjson)
    exact Or.inr (Or.inr (Or.inr ⟨n, text, rfl, htext, hjson, hrun⟩))
  -- And it holds a value, which is a document or not.
  have hvalue : Holds fs cwd path value := ⟨text, htext, hjson⟩
  have hreads := reads_definitionsOf_iff .standard value
  simp only
  rcases hdefinitions : definitionsOf value with problems | services
  · have hdocument : ¬ IsDocument .standard value := by
      rw [← hreads, hdefinitions, Checked.Reads]
      simp only [reduceCtorEq, exists_false, not_false_eq_true]
    exact Or.inr (Or.inl ⟨_, rfl, ⟨_, rfl⟩,
      Refused.invalid value problems hvalue hdocument hdefinitions⟩)
  · have hdocument : IsDocument .standard value := hreads.1 ⟨services, hdefinitions⟩
    exact Or.inl ⟨services, value, rfl, hvalue, hdocument, hdefinitions⟩

/-- A directory with a file that is one integer with a digit too many. -/
def oneDigitTooMany : FileSystem where
  entries := [
    (["w".toList], .directory),
    (["w".toList, "a.conjure.json".toList], .file (List.replicate 4301 49))]

set_option maxRecDepth 100000 in
/-- Loading a file can end with neither services nor a report on it. -/
theorem exists_load_unreported :
    ¬ ∀ (fs : FileSystem) (cwd path : Path), fs.WellFormed → '\x00' ∉ path →
      (∃ services, load fs cwd path = .ok services) ∨
        ∃ e, load fs cwd path = .error (.definition e) := by
  intro h
  have hload : load oneDigitTooMany "/w".toList "a.conjure.json".toList =
      .error (.tooManyDigits 4301) := by
    decide +kernel
  rcases h oneDigitTooMany "/w".toList "a.conjure.json".toList (by decide +kernel) (by decide)
    with ⟨services, hok⟩ | ⟨e, herror⟩
  · rw [hload] at hok
    cases hok
  · rw [hload] at herror
    cases herror

end Document

end ClientPlan
