import ClientPlan.Proofs.Generation.Spellings

/-!
# Searching Directories

Which files are found when every path stands for a directory.

A search that is not recursive finds the definition files in the directories, and a
recursive one those at any depth below them. Both go by the entries of the file system,
so they find every such file, hidden or not, in hidden directories or not, and never a
directory, whatever its name ends in. What they list are paths that are put together
from the path of the directory and the names from there on, so each of them leads to the
file that it is listed for.

The system takes no path that is too long, and here the two searches differ. One that is
not recursive asks what each path that it lists leads to, so it passes over a file whose
own path is too long. A recursive search asks each directory for its entries, so it
passes over what is in a directory whose path is too long.

## Main definitions

* `IsSought`: The files that a search of some directories is to find.

## Theorems

* `discover_of_directories`: What is found, in terms of addresses.
* `directories_searched`: The files that are found are those that are sought.
* `exists_file_out_of_reach`: A file in a directory can be missed.
-/

namespace ClientPlan

namespace Discovery

/-- The files that a search of some directories is to find: those with the names of
    definitions that it gets to from one of the directories. -/
def IsSought (s : Glob.Search) (root : Path) (paths : List Path) (a : Address) : Prop :=
  (∃ content, s.fs.at? a = some (.file content)) ∧ a.getLast?.any isDefinition = true ∧
    ∃ path ∈ paths, ∃ names, a = Path.address s.cwd (Path.join root path) ++ names ∧
      Reaches s.recursive (Path.join root path) names

/-- What is found from several directories, without exclusions: for each path a file that was
    sought, and a path for each of these files. -/
theorem discover_of_directories (s : Glob.Search) (h : s.fs.WellFormed) (root : Path)
    (paths sources : List Path)
    (hpaths : ∀ path ∈ paths, s.fs.isDirectory s.cwd (Path.join root path) = true)
    (hsources : discover s root paths [] = .ok sources) (a : Address) :
    (∃ p ∈ sources, s.fs.walk [] (Path.segments (Path.join s.cwd p)) = .ok a) ↔
      IsSought s root paths a := by
  have hbase := fun path hpath =>
    FileSystem.directory?_of_isDirectory s.fs s.cwd (Path.join root path) (hpaths path hpath)
  constructor
  · rintro ⟨p, hp, hwalk⟩
    rcases ((mem_discover_iff s root paths [] sources hsources p).1 hp).1 with
      ⟨path, hpath, found, hfound, hmem⟩
    have hdir := hbase path hpath
    rcases (mem_searched_of_directory_iff s h root path _ hdir found hfound p).1 hmem with
      ⟨names, content, hentry, hname, hreaches, rfl⟩
    -- The path leads to the entry that it was put together for.
    rw [walk_of_entry s.fs h s.cwd _ _ names hdir hreaches.ne_nil
      (by rw [hentry, Option.isSome_some]), Except.ok.injEq] at hwalk
    rw [← hwalk]
    refine ⟨⟨content, hentry⟩, ?_, path, hpath, names, rfl, hreaches⟩
    rw [List.getLast?_append_of_ne_nil _ hreaches.ne_nil]
    exact hname
  · rintro ⟨⟨content, hentry⟩, hname, path, hpath, names, rfl, hreaches⟩
    have hdir := hbase path hpath
    rw [List.getLast?_append_of_ne_nil _ hreaches.ne_nil] at hname
    refine ⟨Path.join (Path.join root path) (Path.ofSegments names), ?_,
      walk_of_entry s.fs h s.cwd _ _ names hdir hreaches.ne_nil
        (by rw [hentry, Option.isSome_some])⟩
    have hsearched := searched_of_directory s root path _ hdir
    rw [mem_discover_iff s root paths [] sources hsources]
    refine ⟨⟨path, hpath, _, hsearched, ?_⟩, ?_⟩
    · exact (mem_searched_of_directory_iff s h root path _ hdir _ hsearched _).2
        ⟨names, content, hentry, hname, hreaches, rfl⟩
    · rintro ⟨exclusion, hexclusion, -⟩
      exact absurd hexclusion List.not_mem_nil

/-- The files that are found from directories are those that are sought, and their paths are
    listed in ascending order. -/
theorem directories_searched (s : Glob.Search) (h : s.fs.WellFormed) (root : Path)
    (paths : List Path)
    (hpaths : ∀ path ∈ paths, s.fs.isDirectory s.cwd (Path.join root path) = true) :
    ∃ sources, discover s root paths [] = .ok sources ∧ Ascending sources ∧
      (∀ p ∈ sources, s.fs.Leads s.cwd p) ∧
      ∀ a, (∃ p ∈ sources, s.fs.walk [] (Path.segments (Path.join s.cwd p)) = .ok a) ↔
        IsSought s root paths a := by
  have hsearched : ∀ path ∈ paths, ∃ found, searched s root path = .ok found := fun path hpath =>
    ⟨_, searched_of_directory s root path _
      (FileSystem.directory?_of_isDirectory s.fs s.cwd (Path.join root path) (hpaths path hpath))⟩
  rcases exists_discover_ok_iff.2 ⟨List.forall_mem_nil _, hsearched⟩ with ⟨sources, hsources⟩
  exact ⟨sources, hsources, discover_ascending s root paths [] sources hsources,
    leads_of_mem_discover s h root paths [] sources hsources,
    discover_of_directories s h root paths sources hpaths hsources⟩

/-- A definition file in a directory whose name looks like that of one, in a hidden
    directory. -/
def nested : FileSystem where
  entries := [
    (["w".toList], .directory),
    (["w".toList, "d".toList], .directory),
    (["w".toList, "d".toList, ".h".toList], .directory),
    (["w".toList, "d".toList, ".h".toList, "x.conjure.json".toList], .directory),
    (["w".toList, "d".toList, ".h".toList, "x.conjure.json".toList, "b.conjure.json".toList],
      .file [])]

/-- From overlapping directories the file is found, and not the directory that it is in. -/
theorem directories_searched_of_nested :
    let s : Glob.Search := ⟨nested, "/w".toList, true⟩
    let paths := ["d/.h".toList, "d".toList]
    let directory := ["w".toList, "d".toList, ".h".toList, "x.conjure.json".toList]
    (nested.WellFormed ∧
        ∀ path ∈ paths, nested.isDirectory "/w".toList (Path.join "/w".toList path) = true) ∧
      ∃ sources, discover s "/w".toList paths [] = .ok sources ∧ Ascending sources ∧
        (∃ p ∈ sources, nested.walk [] (Path.segments (Path.join "/w".toList p)) =
          .ok (directory ++ ["b.conjure.json".toList])) ∧
        ¬∃ p ∈ sources, nested.walk [] (Path.segments (Path.join "/w".toList p)) =
          .ok directory := by
  intro s paths directory
  have hfs : nested.WellFormed := by decide
  have hpaths : ∀ path ∈ paths,
      nested.isDirectory "/w".toList (Path.join "/w".toList path) = true :=
    List.forall_mem_cons.2
      ⟨by decide +kernel, List.forall_mem_singleton.2 (by decide +kernel)⟩
  rcases directories_searched s hfs "/w".toList paths hpaths with
    ⟨sources, hsources, hascending, -, hsought⟩
  -- Below the second path a name that starts with a dot is searched like any other.
  refine ⟨⟨hfs, hpaths⟩, sources, hsources, hascending, (hsought _).2 ?_, fun hfound => ?_⟩
  · exact ⟨⟨[], by decide +kernel⟩, by decide +kernel, "d".toList, by decide +kernel,
      [".h".toList, "x.conjure.json".toList, "b.conjure.json".toList], by decide +kernel,
      by decide +kernel⟩
  · rcases ((hsought directory).1 hfound).1 with ⟨content, hcontent⟩
    have hdirectory : nested.at? directory = some .directory := by decide +kernel
    rw [hdirectory] at hcontent
    cases hcontent

/-- A directory with one definition file. -/
def oneFile : FileSystem where
  entries := [
    (["w".toList], .directory),
    (["w".toList, List.replicate 200 'a' ++ definitionEnding], .file [])]

set_option maxRecDepth 10000 in
/-- A file in a directory is missed if the path that is put together for it is too long. -/
theorem exists_file_out_of_reach :
    ¬ ∀ (s : Glob.Search) (root : Path) (paths sources : List Path), s.fs.WellFormed →
      (∀ path ∈ paths, s.fs.isDirectory s.cwd (Path.join root path) = true) →
      discover s root paths [] = .ok sources → ∀ path ∈ paths, ∀ name content,
        s.fs.at? (Path.address s.cwd (Path.join root path) ++ [name]) = some (.file content) →
        isDefinition name = true →
          ∃ p ∈ sources, s.fs.walk [] (Path.segments (Path.join s.cwd p)) =
            .ok (Path.address s.cwd (Path.join root path) ++ [name]) := by
  intro h
  -- The directory is spelled with thousands of slashes behind its name.
  rcases h ⟨oneFile, "/w".toList, false⟩ "/w".toList [Path.here ++ List.replicate 3900 '/'] []
    (by decide +kernel) (List.forall_mem_singleton.2 (by decide +kernel))
    (eq_ok_of_toOption (by decide +kernel)) _ List.mem_cons_self
    (List.replicate 200 'a' ++ definitionEnding) [] (by decide +kernel) (by decide +kernel) with
    ⟨p, hp, -⟩
  cases hp

end Discovery

end ClientPlan
