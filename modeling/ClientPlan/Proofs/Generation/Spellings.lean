import ClientPlan.Proofs.Generation.Sources
import ClientPlan.Proofs.Path.Tidy

/-!
# The Spellings of Definition Files

When a definition file is found under one path only, and when an exclusion means it.

The paths of definition files are compared as they are spelled, once to list each of them
once and once to leave out what is excluded. Both are right as long as there is one
spelling for each file. A search adds nothing to the spelling that it starts from but the
names of entries, so what is found from a tidy path is tidy too, and two tidy paths that
start alike do not lead to one file. This holds for all ways to come upon a file: in a
directory, below one, and by a pattern.

Whatever else is found under several spellings is therefore the doing of paths that are
not tidy: of `./a` beside `a`, say. A path is `Stray` if no tidy one stands for it.

## Main definitions

* `Stray`: A path that is found by no path that is tidy.

## Theorems

* `Search.Finds.exists_names`, `Search.Stands.tidy`: What a tidy pattern stands for.
* `tidy_of_mem_searched`: What is found from a tidy path.
* `file_of_mem_searched`: What is found is a file.
* `tidy_of_mem_discover`: The path of a definition file.
* `spelled_alike_of_same_file`, `exists_file_found_twice`: One file under two paths.
* `left_out_of_excluded`, `exists_excluded_file_found`: A file that is excluded under another
  path.
-/

namespace ClientPlan

namespace Glob

variable {s : Search} {onlyDirectories : Bool}

/-- What is found in a directory is reached by names that lead down. -/
theorem Search.Finds.exists_names (hfs : s.fs.WellFormed) {dir p : Path} {part : Name}
    (hpart : part ≠ [] → Path.IsStep part) (h : s.Finds onlyDirectories dir part p) :
    ∃ names, p = Path.ofSegments names ∧ ∀ name ∈ names, Path.IsStep name := by
  -- Nothing, the part itself, or names of entries.
  cases h with
  | here _ _ _ => exact ⟨[], rfl, List.forall_mem_nil _⟩
  | entry _ named _ => exact ⟨[p], rfl, List.forall_mem_singleton.2 (hpart named)⟩
  | start _ _ _ => exact ⟨[], rfl, List.forall_mem_nil _⟩
  | @below _ names _ _ _ _ _ there _ _ _ =>
      refine ⟨names, rfl, fun name hname => FileSystem.isStep_of_isName name ?_⟩
      exact hfs.isName _ (by rw [there, Option.isSome_some]) name (List.mem_append_right _ hname)
  | child _ _ _ there _ _ _ =>
      refine ⟨[p], rfl, List.forall_mem_singleton.2 (FileSystem.isStep_of_isName p ?_)⟩
      exact hfs.isName _ (by rw [there, Option.isSome_some]) p
        (List.mem_append_right _ List.mem_cons_self)

/-- What a tidy pattern stands for is tidy, and starts as the pattern does. -/
theorem Search.Stands.tidy (hfs : s.fs.WellFormed) {pattern p : Path}
    (h : s.Stands onlyDirectories pattern p) (hpattern : Path.IsTidy pattern) :
    Path.IsTidy p ∧ Path.isAbsolute p = Path.isAbsolute pattern := by
  -- One step from a tidy directory, by the last part of the pattern.
  have hstep {onlyDirectories : Bool} {pattern dir p : Path} (hpattern : Path.IsTidy pattern)
      (hdir : Path.IsTidy dir ∧ Path.isAbsolute dir = Path.isAbsolute (Path.directory pattern))
      (found : s.Finds onlyDirectories dir (Path.lastName pattern) p) :
      Path.IsTidy (Path.join dir p) ∧
        Path.isAbsolute (Path.join dir p) = Path.isAbsolute pattern := by
    rcases found.exists_names hfs hpattern.isStep_lastName with ⟨names, rfl, hnames⟩
    refine ⟨hdir.1.join names hnames, ?_⟩
    rw [Path.isAbsolute_join_of_relative _ _ (Path.not_slash_head_ofSegments names hnames),
      hdir.2, Path.isAbsolute_directory]
  induction h with
  | itself _ _ => exact ⟨hpattern, rfl⟩
  | beneath _ _ _ found ih => exact hstep hpattern (ih hpattern.directory) found
  | within _ _ _ found => exact hstep hpattern ⟨hpattern.directory, rfl⟩ found

end Glob

namespace Discovery

section Searches

variable (s : Glob.Search) (h : s.fs.WellFormed) (root path : Path) (found : List Path)
  (hfound : searched s root path = .ok found) (p : Path) (hp : p ∈ found)
include h hfound hp

/-- What is found from a tidy path is tidy, and starts as the path does. -/
theorem tidy_of_mem_searched (htidy : Path.IsTidy (Path.join root path)) :
    Path.IsTidy p ∧ Path.isAbsolute p = Path.isAbsolute (Path.join root path) := by
  rcases hdir : s.fs.directory? s.cwd (Path.join root path) with _ | a
  · simp only [searched, hdir] at hfound
    rcases hexpand : s.expand false (Path.join root path) with fault | paths
    · rw [hexpand] at hfound
      cases hfound
    · rw [hexpand] at hfound
      cases hfound
      have hstands := (Glob.mem_expand_iff s h false _ paths hexpand p).1 (List.mem_filter.1 hp).1
      exact hstands.tidy h htidy
  · -- The path is put together from the directory and the names of entries.
    rcases (mem_searched_of_directory_iff s h root path a hdir found hfound p).1 hp with
      ⟨names, content, hentry, -, -, rfl⟩
    have hnames : ∀ name ∈ names, Path.IsStep name := fun name hname =>
      FileSystem.isStep_of_isName name
        (h.isName _ (by rw [hentry, Option.isSome_some]) name (List.mem_append_right a hname))
    exact ⟨htidy.join names hnames, Path.isAbsolute_join_of_relative _ _
      (Path.not_slash_head_ofSegments names hnames)⟩

/-- What is found is a file. -/
theorem file_of_mem_searched :
    ∃ a content, s.fs.walk [] (Path.segments (Path.join s.cwd p)) = .ok a ∧
      s.fs.at? a = some (.file content) := by
  rcases hdir : s.fs.directory? s.cwd (Path.join root path) with _ | a
  · simp only [searched, hdir] at hfound
    rcases hexpand : s.expand false (Path.join root path) with fault | paths
    · rw [hexpand] at hfound
      cases hfound
    · rw [hexpand] at hfound
      cases hfound
      -- Among what a pattern stands for, only files are kept.
      rcases (FileSystem.isFile_iff _ _ _).1 (List.mem_filter.1 hp).2 with
        ⟨a, content, hresolve, hentry⟩
      exact ⟨a, content, ((FileSystem.resolve_eq_ok_iff _ _ _ a).1 hresolve).2.2, hentry⟩
  · rcases walk_of_mem_searched s h root path a found hdir hfound p hp with
      ⟨names, content, hwalk, hentry, -⟩
    exact ⟨_, content, hwalk, hentry⟩

end Searches

/-- The path of a file ends in a name. -/
theorem lastName_ne_nil_of_file (fs : FileSystem) (h : fs.WellFormed) (cwd p : Path) (a : Address)
    (content : List UInt8) (hwalk : fs.walk [] (Path.segments (Path.join cwd p)) = .ok a)
    (hentry : fs.at? a = some (.file content)) : Path.lastName p ≠ [] := by
  rcases h.lastName_of_walk cwd p a content hwalk hentry with ⟨front, rfl⟩
  exact (h.isName _ (by rw [hentry, Option.isSome_some]) _
    (List.mem_append_right front List.mem_cons_self)).1

/-- A path that is found by no path that is tidy. -/
def Stray (s : Glob.Search) (root : Path) (paths : List Path) (p : Path) : Prop :=
  ∀ path ∈ paths, ∀ found, searched s root path = .ok found → p ∈ found →
    ¬Path.IsTidy (Path.join root path)

/-- The path of a definition file ends in a name, and is tidy unless it is stray. -/
theorem tidy_of_mem_discover (s : Glob.Search) (h : s.fs.WellFormed) (root : Path)
    (paths exclusions sources : List Path)
    (hdiscover : discover s root paths exclusions = .ok sources) (p : Path) (hp : p ∈ sources) :
    Path.lastName p ≠ [] ∧ (Path.IsTidy p ∨ Stray s root paths p) := by
  rcases ((mem_discover_iff s root paths exclusions sources hdiscover p).1 hp).1 with
    ⟨path, hpath, found, hfound, hmem⟩
  rcases file_of_mem_searched s h root path found hfound p hmem with ⟨a, content, hwalk, hentry⟩
  refine ⟨lastName_ne_nil_of_file s.fs h s.cwd p a content hwalk hentry, ?_⟩
  -- What is not found astray comes from a path that is tidy.
  by_cases hstray : Stray s root paths p
  · exact Or.inr hstray
  · simp only [Stray, not_forall, not_not] at hstray
    rcases hstray with ⟨path, -, found, hfound, hmem, htidy⟩
    exact Or.inl (tidy_of_mem_searched s h root path found hfound p hmem htidy).1

/-- Two definition files are one file only if it is found under two spellings, because one of
    the paths starts at the root and the other one does not, or one of them is stray. -/
theorem spelled_alike_of_same_file (s : Glob.Search) (h : s.fs.WellFormed) (root : Path)
    (paths exclusions sources : List Path)
    (hdiscover : discover s root paths exclusions = .ok sources) :
    sources.Pairwise fun p q => Path.address s.cwd p = Path.address s.cwd q →
      Path.isAbsolute p ≠ Path.isAbsolute q ∨ Stray s root paths p ∨ Stray s root paths q := by
  have hfile := tidy_of_mem_discover s h root paths exclusions sources hdiscover
  have hascending := discover_ascending s root paths exclusions sources hdiscover
  refine hascending.imp_of_mem fun {p q} hp hq hless hsame => ?_
  by_contra hcontra
  simp only [not_or, not_not] at hcontra
  rcases hcontra with ⟨hstart, hp', hq'⟩
  rcases hfile p hp with ⟨hlast, htidy⟩
  rcases hfile q hq with ⟨hlast', htidy'⟩
  have heq := (htidy.resolve_right hp').eq_of_address (htidy'.resolve_right hq') hlast hlast'
    hstart s.cwd hsame
  -- No path comes before itself.
  rw [heq, comesBefore_irrefl] at hless
  cases hless

/-- A directory with two definition files in it. -/
def twoFiles : FileSystem where
  entries := [
    (["w".toList], .directory),
    (["w".toList, "d".toList], .directory),
    (["w".toList, "d".toList, "a.conjure.json".toList], .file []),
    (["w".toList, "d".toList, "b.conjure.json".toList], .file [])]

/-- A search among the two files, from the directory above them. -/
def amongTwo (recursive : Bool) : Glob.Search where
  fs := twoFiles
  cwd := "/w".toList
  recursive := recursive

theorem eq_ok_of_toOption {ε α : Type} {e : Except ε α} {x : α} (h : e.toOption = some x) :
    e = .ok x := by
  rcases e with fault | y
  · cases h
  · cases h
    rfl

/-- Several ways to the files give one path for each of them, as long as they are tidy. -/
theorem spelled_alike_of_overlapping :
    let paths := ["d".toList, "/w/d/a.conjure.json".toList, "**/b*".toList, "./d/b*".toList]
    let sources := ["/w/./d/b.conjure.json".toList, "/w/d/a.conjure.json".toList,
      "/w/d/b.conjure.json".toList]
    ((amongTwo true).fs.WellFormed ∧
        discover (amongTwo true) "/w".toList paths [] = .ok sources) ∧
      sources.Pairwise fun p q => Path.address "/w".toList p = Path.address "/w".toList q →
        Path.isAbsolute p ≠ Path.isAbsolute q ∨ Stray (amongTwo true) "/w".toList paths p ∨
          Stray (amongTwo true) "/w".toList paths q := by
  intro paths sources
  have hfs : (amongTwo true).fs.WellFormed := by decide
  have hdiscover : discover (amongTwo true) "/w".toList paths [] = .ok sources :=
    eq_ok_of_toOption (by decide +kernel)
  exact ⟨⟨hfs, hdiscover⟩,
    spelled_alike_of_same_file (amongTwo true) hfs "/w".toList paths [] sources hdiscover⟩

/-- A file that is named in two ways is found twice. -/
theorem exists_file_found_twice :
    ¬ ∀ (s : Glob.Search) (root : Path) (paths exclusions sources : List Path), s.fs.WellFormed →
      discover s root paths exclusions = .ok sources →
        sources.Pairwise fun p q => Path.address s.cwd p ≠ Path.address s.cwd q := by
  intro h
  have hpairwise := h (amongTwo false) "/w/d".toList
    ["a.conjure.json".toList, "./a.conjure.json".toList] []
    ["/w/d/./a.conjure.json".toList, "/w/d/a.conjure.json".toList] (by decide)
    (eq_ok_of_toOption (by decide +kernel))
  exact absurd hpairwise (by decide)

/-- A file that is excluded is left out, unless it is found under another spelling: one that
    starts differently or is stray, or any if the exclusion itself is not tidy. -/
theorem left_out_of_excluded (s : Glob.Search) (h : s.fs.WellFormed) (root : Path)
    (paths exclusions sources : List Path)
    (hdiscover : discover s root paths exclusions = .ok sources) (exclusion : Path)
    (hexclusion : exclusion ∈ exclusions)
    (hfile : s.fs.isFile s.cwd (Path.join root exclusion) = true) :
    Path.join root exclusion ∉ sources ∧
      ∀ p ∈ sources, Path.address s.cwd p = Path.address s.cwd (Path.join root exclusion) →
        Path.isAbsolute p ≠ Path.isAbsolute (Path.join root exclusion) ∨
          ¬Path.IsTidy (Path.join root exclusion) ∨ Stray s root paths p := by
  have hexcluded : excludedBy s root exclusion = .ok [Path.join root exclusion] := if_pos hfile
  have hout : Path.join root exclusion ∉ sources := by
    rw [mem_discover_iff s root paths exclusions sources hdiscover, not_and, not_not]
    exact fun _ => ⟨exclusion, hexclusion, _, hexcluded, List.mem_cons_self⟩
  refine ⟨hout, fun p hp hsame => ?_⟩
  by_contra hcontra
  simp only [not_or, not_not] at hcontra
  rcases hcontra with ⟨hstart, htidy, hstray⟩
  rcases (FileSystem.isFile_iff _ _ _).1 hfile with ⟨a, content, hresolve, hentry⟩
  have hwalk := ((FileSystem.resolve_eq_ok_iff _ _ _ a).1 hresolve).2.2
  rcases tidy_of_mem_discover s h root paths exclusions sources hdiscover p hp with
    ⟨hlast, htidy'⟩
  -- The two would be spelled alike.
  have heq := (htidy'.resolve_right hstray).eq_of_address htidy hlast
    (lastName_ne_nil_of_file s.fs h s.cwd _ a content hwalk hentry) hstart s.cwd hsame
  exact hout (heq ▸ hp)

/-- The file is left out of its directory, but not where it is named by a path that is not
    tidy. -/
theorem left_out_of_directory :
    let paths := ["d".toList, "./d/a.conjure.json".toList]
    let sources := ["/w/./d/a.conjure.json".toList, "/w/d/b.conjure.json".toList]
    ((amongTwo false).fs.WellFormed ∧
        discover (amongTwo false) "/w".toList paths ["d/a.conjure.json".toList] = .ok sources ∧
        twoFiles.isFile "/w".toList (Path.join "/w".toList "d/a.conjure.json".toList) = true) ∧
      "/w/d/a.conjure.json".toList ∉ sources ∧
      ∀ p ∈ sources, Path.address "/w".toList p =
          Path.address "/w".toList "/w/d/a.conjure.json".toList →
        Path.isAbsolute p ≠ Path.isAbsolute "/w/d/a.conjure.json".toList ∨
          ¬Path.IsTidy "/w/d/a.conjure.json".toList ∨
          Stray (amongTwo false) "/w".toList paths p := by
  intro paths sources
  have hfs : (amongTwo false).fs.WellFormed := by decide
  have hdiscover : discover (amongTwo false) "/w".toList paths ["d/a.conjure.json".toList] =
      .ok sources := eq_ok_of_toOption (by decide +kernel)
  have hfile : twoFiles.isFile "/w".toList
      (Path.join "/w".toList "d/a.conjure.json".toList) = true := by decide +kernel
  exact ⟨⟨hfs, hdiscover, hfile⟩, left_out_of_excluded (amongTwo false) hfs "/w".toList paths _
    sources hdiscover "d/a.conjure.json".toList List.mem_cons_self hfile⟩

/-- A file that is excluded by its name is found in the directory that a path stands for. -/
theorem exists_excluded_file_found :
    ¬ ∀ (s : Glob.Search) (root : Path) (paths exclusions sources : List Path), s.fs.WellFormed →
      discover s root paths exclusions = .ok sources → ∀ p ∈ sources, ∀ exclusion ∈ exclusions,
        s.fs.isFile s.cwd (Path.join root exclusion) = true →
          Path.address s.cwd p ≠ Path.address s.cwd (Path.join root exclusion) := by
  intro h
  refine h (amongTwo false) "/w/d".toList [".".toList] ["a.conjure.json".toList]
    ["/w/d/./a.conjure.json".toList, "/w/d/./b.conjure.json".toList] (by decide)
    (eq_ok_of_toOption (by decide +kernel)) _ List.mem_cons_self _ List.mem_cons_self
    (by decide +kernel) (by decide)

end Discovery

end ClientPlan
