import ClientPlan.Proofs.Generation.Spellings
import ClientPlan.Proofs.Glob.Literal

/-!
# Files That Are Named

When a file is found that a path names.

A path that leads to a file is not taken for a file, it is expanded like a pattern. Without
wildcards that makes no difference. With them the names of the path have to match
themselves, which only a closed pair of brackets can prevent. Then the path stands for the
file, whatever else it may stand for, and the file is among the definition files unless it is
excluded. It is listed under the path that was given, if that is tidy; otherwise repeated
slashes may have been dropped from it.

## Theorems

* `exists_discover_ok`: The search fails over NUL characters only.
* `exists_stands_of_isFile`, `mem_searched_of_isFile`: What a path stands for that leads to a
  file.
* `named_file_found`: A file that is named is found.
* `exists_named_file_missed`: Brackets may be in the way of that.
-/

namespace ClientPlan

namespace Discovery

section Success

variable (s : Glob.Search) (h : s.fs.WellFormed) (root : Path)
include h

theorem exists_searched_ok (path : Path) (hnul : '\x00' ∉ Path.join root path) :
    ∃ found, searched s root path = .ok found := by
  rcases hdir : s.fs.directory? s.cwd (Path.join root path) with _ | a
  · rcases Glob.exists_expand_ok_of_notMem s h false _ hnul with ⟨paths, hpaths⟩
    simp only [searched, hdir, hpaths]
    exact ⟨_, rfl⟩
  · exact ⟨_, searched_of_directory s root path a hdir⟩

theorem exists_excludedBy_ok (exclusion : Path) (hnul : '\x00' ∉ Path.join root exclusion) :
    ∃ excluded, excludedBy s root exclusion = .ok excluded := by
  by_cases hfile : s.fs.isFile s.cwd (Path.join root exclusion) = true
  · exact ⟨_, if_pos hfile⟩
  · rcases Glob.exists_expand_ok_of_notMem s h false _ hnul with ⟨paths, hpaths⟩
    exact ⟨paths, (if_neg hfile).trans hpaths⟩

/-- The search fails over NUL characters only. -/
theorem exists_discover_ok (paths exclusions : List Path)
    (hnul : ∀ path ∈ paths ++ exclusions, '\x00' ∉ Path.join root path) :
    ∃ sources, discover s root paths exclusions = .ok sources := by
  -- Each entry is looked up on its own, so none of them is in the way of another one.
  refine exists_discover_ok_iff.2 ⟨fun exclusion hexclusion => ?_, fun path hpath => ?_⟩
  · exact exists_excludedBy_ok s h root exclusion
      (hnul _ (List.mem_append_right paths hexclusion))
  · exact exists_searched_ok s h root path (hnul _ (List.mem_append_left exclusions hpath))

/-- What a path stands for that leads to a file, and whose names match themselves. -/
theorem exists_stands_of_isFile (p : Path) (hfile : s.fs.isFile s.cwd p = true)
    (hself : ∀ name ∈ Path.names p, '[' ∈ name → Glob.fits name name = true) :
    ∃ q, s.Stands false p q ∧ s.fs.isFile s.cwd q = true ∧
      Path.address s.cwd q = Path.address s.cwd p ∧ Path.names q = Path.names p ∧
      (Path.IsTidy p ∨ Glob.isPattern p = false → q = p) := by
  rcases (FileSystem.isFile_iff _ _ _).1 hfile with ⟨a, content, hresolve, hentry⟩
  rcases (FileSystem.resolve_eq_ok_iff _ _ _ a).1 hresolve with ⟨-, hshort, hwalk⟩
  have hlast := lastName_ne_nil_of_file s.fs h s.cwd p a content hwalk hentry
  have hnames : ∀ name ∈ Path.names p, Glob.fits name name = true := by
    intro name hname
    by_cases hbracket : '[' ∈ name
    · exact hself name hname hbracket
    · exact Glob.fits_self name hbracket
  rcases Glob.Search.exists_stands h false p a (.file content) hnames hlast hshort hwalk hentry
    rfl with ⟨q, hstands, hwalk', hsublist, hsame⟩
  have hlast' := lastName_ne_nil_of_file s.fs h s.cwd q a content hwalk' hentry
  have hresolve' : s.fs.resolve s.cwd q = .ok a := by
    refine (FileSystem.resolve_eq_ok_iff _ _ _ a).2
      ⟨?_, FileSystem.isTooLong_of_sublist hsublist hshort, hwalk'⟩
    rintro rfl
    exact hlast' rfl
  have haddress : Path.address s.cwd q = Path.address s.cwd p :=
    (FileSystem.resolve_eq_ok _ _ _ a hresolve').symm.trans
      (FileSystem.resolve_eq_ok _ _ _ a hresolve)
  refine ⟨q, hstands, (FileSystem.isFile_iff _ _ _).2 ⟨a, content, hresolve', hentry⟩,
    haddress, hsame, ?_⟩
  rintro (htidy | hplain)
  · -- Two tidy paths that start alike lead to the file.
    rcases hstands.tidy h htidy with ⟨htidy', hstart⟩
    exact htidy'.eq_of_address htidy hlast' hlast hstart s.cwd haddress
  · cases hstands with
    | itself _ _ => rfl
    | beneath wild _ _ _ => exact absurd (hplain.symm.trans wild) Bool.false_ne_true
    | within wild _ _ _ => exact absurd (hplain.symm.trans wild) Bool.false_ne_true

/-- What is found by a path that leads to a file, and whose names match themselves. -/
theorem mem_searched_of_isFile (path : Path)
    (hfile : s.fs.isFile s.cwd (Path.join root path) = true)
    (hself : ∀ name ∈ Path.names (Path.join root path), '[' ∈ name →
      Glob.fits name name = true) :
    ∃ found, searched s root path = .ok found ∧ ∃ p ∈ found,
      Path.address s.cwd p = Path.address s.cwd (Path.join root path) ∧
      Path.names p = Path.names (Path.join root path) ∧
      (Path.IsTidy (Path.join root path) ∨ Glob.isPattern (Path.join root path) = false →
        p = Path.join root path) := by
  rcases exists_stands_of_isFile s h _ hfile hself with ⟨p, hstands, hfile', hsame⟩
  -- The path of a file is no directory, so it is expanded.
  have hdir := FileSystem.directory?_of_isFile s.fs s.cwd _ hfile
  have hleads := FileSystem.Leads.of_isFile hfile
  rcases Glob.exists_expand_ok_of_notMem s h false (Path.join root path)
    (FileSystem.nul_notMem_of_leads s.fs h s.cwd _ hleads) with ⟨paths, hpaths⟩
  refine ⟨paths.filter fun p => s.fs.isFile s.cwd p, ?_, p, ?_, hsame⟩
  · simp only [searched, hdir, hpaths]
    rfl
  · exact List.mem_filter.2 ⟨(Glob.mem_expand_iff s h false _ paths hpaths p).2 hstands, hfile'⟩

/-- A file that a path names is found unless it is excluded, if the names in the path match
    themselves as far as they hold brackets. There is a result as long as there are no NUL
    characters. -/
theorem named_file_found (paths exclusions : List Path) (path : Path) (hpath : path ∈ paths)
    (hfile : s.fs.isFile s.cwd (Path.join root path) = true)
    (hself : ∀ name ∈ Path.names (Path.join root path), '[' ∈ name →
      Glob.fits name name = true) :
    ((∀ path ∈ paths ++ exclusions, '\x00' ∉ Path.join root path) →
        ∃ sources, discover s root paths exclusions = .ok sources) ∧
      ∀ sources, discover s root paths exclusions = .ok sources → ∃ p,
        Path.address s.cwd p = Path.address s.cwd (Path.join root path) ∧
        Path.names p = Path.names (Path.join root path) ∧
        (Path.IsTidy (Path.join root path) ∨ Glob.isPattern (Path.join root path) = false →
          p = Path.join root path) ∧
        (p ∈ sources ∨ ∃ exclusion ∈ exclusions, ∃ excluded,
          excludedBy s root exclusion = .ok excluded ∧ p ∈ excluded) := by
  refine ⟨exists_discover_ok s h root paths exclusions, fun sources hsources => ?_⟩
  rcases mem_searched_of_isFile s h root path hfile hself with
    ⟨found, hfound, p, hp, haddress, hnames, hspelling⟩
  refine ⟨p, haddress, hnames, hspelling, ?_⟩
  rw [mem_discover_iff s root paths exclusions sources hsources, or_iff_not_imp_right]
  -- It is found in any case, so only an exclusion can keep it out.
  exact fun hexcluded => ⟨⟨path, hpath, found, hfound, hp⟩, hexcluded⟩

end Success

/-- Files with wildcards in their names, and one with a closed pair of brackets. -/
def wildNames : FileSystem where
  entries := [
    (["w".toList], .directory),
    (["w".toList, "*".toList], .directory),
    (["w".toList, "*".toList, "what?[.conjure.json".toList], .file []),
    (["w".toList, "d".toList], .directory),
    (["w".toList, "d".toList, "what![.conjure.json".toList], .file []),
    (["w".toList, "[a].conjure.json".toList], .file [])]

/-- A search among these files. -/
def amongWild : Glob.Search where
  fs := wildNames
  cwd := "/w".toList
  recursive := false

theorem named_file_found_of_openBracket :
    let paths := ["*/what?[.conjure.json".toList]
    let exclusions := ["d/*".toList]
    let start := "/w/*/what?[.conjure.json".toList
    (amongWild.fs.WellFormed ∧ amongWild.fs.isFile amongWild.cwd start = true ∧
        (∀ name ∈ Path.names start, '[' ∈ name → Glob.fits name name = true) ∧
        ∀ path ∈ paths ++ exclusions, '\x00' ∉ Path.join "/w".toList path) ∧
      ∃ sources, discover amongWild "/w".toList paths exclusions = .ok sources ∧
        start ∈ sources := by
  intro paths exclusions start
  have hfs : amongWild.fs.WellFormed := by decide
  have hfile : amongWild.fs.isFile amongWild.cwd start = true := by decide +kernel
  have hself : ∀ name ∈ Path.names start, '[' ∈ name → Glob.fits name name = true := by
    decide +kernel
  have hnul : ∀ path ∈ paths ++ exclusions, '\x00' ∉ Path.join "/w".toList path := by
    decide +kernel
  have hexcluded : excludedBy amongWild "/w".toList "d/*".toList =
      .ok ["/w/d/what![.conjure.json".toList] := eq_ok_of_toOption (by decide +kernel)
  have htidy : Path.IsTidy start := by decide
  refine ⟨⟨hfs, hfile, hself, hnul⟩, ?_⟩
  -- The bracket is never closed, so it stands for itself.
  rcases named_file_found amongWild hfs "/w".toList paths exclusions
    "*/what?[.conjure.json".toList List.mem_cons_self hfile hself with ⟨hresult, hfound⟩
  rcases hresult hnul with ⟨sources, hsources⟩
  refine ⟨sources, hsources, ?_⟩
  rcases hfound sources hsources with ⟨p, -, -, hspelling, hp⟩
  have hstart : p = start := hspelling (.inl htidy)
  rw [hstart] at hp
  rcases hp with hp | ⟨exclusion, hexclusion, excluded, hok, hp⟩
  · exact hp
  · rw [List.mem_singleton.1 hexclusion, hexcluded, Except.ok.injEq] at hok
    rw [← hok] at hp
    exact absurd hp (by decide +kernel)

/-- A file with a closed pair of brackets in its name is not found under this name. -/
theorem exists_named_file_missed :
    ¬ ∀ (s : Glob.Search) (root : Path) (paths sources : List Path), s.fs.WellFormed →
      discover s root paths [] = .ok sources → ∀ path ∈ paths,
        s.fs.isFile s.cwd (Path.join root path) = true →
          ∃ p ∈ sources, Path.address s.cwd p = Path.address s.cwd (Path.join root path) := by
  intro h
  rcases h amongWild "/w".toList ["[a].conjure.json".toList] [] (by decide)
    (eq_ok_of_toOption (by decide +kernel)) _ List.mem_cons_self (by decide +kernel) with
    ⟨p, hp, -⟩
  cases hp

end Discovery

end ClientPlan
