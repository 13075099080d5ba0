import ClientPlan.Proofs.Document.Loading
import ClientPlan.Proofs.Generation.Order
import ClientPlan.Proofs.Glob.Persistence
import ClientPlan.Proofs.Path.Clean

/-!
# Where Definition Files Are Found

The files that a search comes upon, and that their paths lead to them.

A directory is searched by looking at its entries, or at all that are below it, and a
path is put together for each of them. Every name on the way is that of an entry, so
the path leads to the file it was put together for. The files that a pattern stands
for are asked for under their paths, which lead to them for this reason. So no path of
a definition file holds a NUL character, and the file can be asked for its content
(`Document.load_ne_nulInPath`).

## Main definitions

* `Reaches`: How far a search gets from a directory.

## Theorems

* `mem_inDirectory_iff`, `mem_belowDirectory_iff`: What is found in and below a
  directory.
* `mem_searched_of_directory_iff`: What is found from a directory, in one way or the other.
* `walk_of_entry`: The path that is put together for an entry.
* `mem_discover_iff`: What is found and not excluded.
* `leads_of_mem_discover`: The paths of definition files lead to them.
-/

namespace ClientPlan

namespace Discovery

open FileSystem (isTooLong)

/-- Whether a search from the path of a directory gets to what stands under some names from
    there. A recursive search enters the directories on the way, any other one looks at what
    stands right there. -/
def Reaches (recursive : Bool) (start : Path) (names : Address) : Prop :=
  if recursive then
    names ≠ [] ∧ isTooLong (Path.directory (Path.join start (Path.ofSegments names))) = false
  else names.length = 1 ∧ isTooLong (Path.join start (Path.ofSegments names)) = false

instance (recursive : Bool) (start : Path) (names : Address) :
    Decidable (Reaches recursive start names) :=
  inferInstanceAs (Decidable (if recursive then _ else _))

theorem Reaches.ne_nil {recursive : Bool} {start : Path} {names : Address}
    (h : Reaches recursive start names) : names ≠ [] := by
  unfold Reaches at h
  split at h
  · exact h.1
  · rintro rfl
    exact absurd h.1 (by decide)

/-- The definition files in a directory are the files with such names. -/
theorem mem_inDirectory_iff (s : Glob.Search) (h : s.fs.WellFormed) (dir : Path) (a : Address)
    (p : Path) :
    p ∈ inDirectory s dir a ↔ ∃ name content, s.fs.at? (a ++ [name]) = some (.file content) ∧
      isDefinition name = true ∧ isTooLong (Path.join dir name) = false ∧
      p = Path.join dir name := by
  simp only [inDirectory, List.mem_filter, List.mem_map, decide_eq_true_eq, Bool.not_eq_true',
    ne_eq]
  constructor
  · rintro ⟨⟨⟨name, entry⟩, ⟨hmem, hfile, hname⟩, rfl⟩, hshort⟩
    -- Among the entries only files are kept.
    cases entry with
    | directory => exact absurd rfl hfile
    | file content =>
        exact ⟨name, content, (h.mem_children_iff a _ _).1 hmem, hname, hshort, rfl⟩
  · rintro ⟨name, content, hentry, hname, hshort, rfl⟩
    exact ⟨⟨(name, .file content), ⟨(h.mem_children_iff a _ _).2 hentry, Entry.noConfusion, hname⟩,
      rfl⟩, hshort⟩

/-- The definition files below a directory are the files with such last names, as far as
    the search gets. -/
theorem mem_belowDirectory_iff (s : Glob.Search) (h : s.fs.WellFormed) (dir : Path) (a : Address)
    (p : Path) :
    p ∈ belowDirectory s dir a ↔ ∃ names content, names ≠ [] ∧
      s.fs.at? (a ++ names) = some (.file content) ∧
      names.getLast?.any isDefinition = true ∧
      isTooLong (Path.directory (Path.join dir (Path.ofSegments names))) = false ∧
      p = Path.join dir (Path.ofSegments names) := by
  simp only [belowDirectory, FileSystem.reached, List.mem_filter, List.mem_map,
    decide_eq_true_eq, Bool.not_eq_true', ne_eq]
  constructor
  · rintro ⟨⟨names, entry⟩, ⟨⟨hmem, hshort⟩, hfile, hname⟩, rfl⟩
    -- What is below the directory has some names more.
    rcases (h.mem_below_iff a _ _).1 hmem with ⟨hne, hentry⟩
    cases entry with
    | directory => exact absurd rfl hfile
    | file content => exact ⟨names, content, hne, hentry, hname, hshort, rfl⟩
  · rintro ⟨names, content, hne, hentry, hname, hshort, rfl⟩
    exact ⟨(names, .file content), ⟨⟨(h.mem_below_iff a _ _).2 ⟨hne, hentry⟩, hshort⟩,
      Entry.noConfusion, hname⟩, rfl⟩

/-- The path that is put together for an entry below a directory leads to it. -/
theorem walk_of_entry (fs : FileSystem) (h : fs.WellFormed) (cwd dir : Path) (a names : Address)
    (hdir : fs.directory? cwd dir = some a) (hne : names ≠ [])
    (hentry : (fs.at? (a ++ names)).isSome = true) :
    fs.walk [] (Path.segments (Path.join cwd (Path.join dir (Path.ofSegments names)))) =
      .ok (a ++ names) := by
  rw [FileSystem.directory?_eq_some_iff, FileSystem.resolve_eq_ok_iff] at hdir
  have hstep := fun name hname => FileSystem.isStep_of_isName name
    (h.isName _ hentry name (List.mem_append_right a hname))
  refine (FileSystem.walk_join_iff fs cwd dir _ _
    (Path.not_slash_head_ofSegments names hstep)).2 ⟨a, hdir.1.2.2, hdir.2, ?_⟩
  rw [Path.segments_ofSegments names hne fun name hname => (hstep name hname).2.2.2]
  exact h.walk_down a names hentry

theorem searched_of_directory (s : Glob.Search) (root path : Path) (a : Address)
    (h : s.fs.directory? s.cwd (Path.join root path) = some a) :
    searched s root path = .ok (if s.recursive then belowDirectory s (Path.join root path) a
      else inDirectory s (Path.join root path) a) := by
  simp only [searched, h]

/-- What is found from a directory are the definition files that the search gets to. -/
theorem mem_searched_of_directory_iff (s : Glob.Search) (h : s.fs.WellFormed)
    (root path : Path) (base : Address)
    (hdir : s.fs.directory? s.cwd (Path.join root path) = some base) (found : List Path)
    (hfound : searched s root path = .ok found) (p : Path) :
    p ∈ found ↔ ∃ names content, s.fs.at? (base ++ names) = some (.file content) ∧
      names.getLast?.any isDefinition = true ∧ Reaches s.recursive (Path.join root path) names ∧
      p = Path.join (Path.join root path) (Path.ofSegments names) := by
  rw [searched_of_directory s root path base hdir, Except.ok.injEq] at hfound
  rw [← hfound]
  unfold Reaches
  by_cases hrecursive : s.recursive = true
  · simp only [hrecursive, if_true]
    rw [mem_belowDirectory_iff s h]
    constructor
    · rintro ⟨names, content, hne, hentry, hname, hshort, rfl⟩
      exact ⟨names, content, hentry, hname, ⟨hne, hshort⟩, rfl⟩
    · rintro ⟨names, content, hentry, hname, ⟨hne, hshort⟩, rfl⟩
      exact ⟨names, content, hne, hentry, hname, hshort, rfl⟩
  · simp only [hrecursive, Bool.false_eq_true, if_false]
    rw [mem_inDirectory_iff s h]
    -- What is in the directory stands there under a single name.
    constructor
    · rintro ⟨name, content, hentry, hname, hshort, rfl⟩
      exact ⟨[name], content, hentry, hname, ⟨rfl, hshort⟩, rfl⟩
    · rintro ⟨names, content, hentry, hname, ⟨hone, hshort⟩, rfl⟩
      rcases List.length_eq_one_iff.1 hone with ⟨name, rfl⟩
      exact ⟨name, content, hentry, hname, hshort, rfl⟩

/-- What is found in or below a directory is a file with the name of a definition, and
    its path leads to it. -/
theorem walk_of_mem_searched (s : Glob.Search) (h : s.fs.WellFormed) (root path : Path)
    (a : Address) (found : List Path) (hdir : s.fs.directory? s.cwd (Path.join root path) = some a)
    (hfound : searched s root path = .ok found) (p : Path) (hp : p ∈ found) :
    ∃ names content, s.fs.walk [] (Path.segments (Path.join s.cwd p)) = .ok (a ++ names) ∧
      s.fs.at? (a ++ names) = some (.file content) ∧
      names.getLast?.any isDefinition = true := by
  rcases (mem_searched_of_directory_iff s h root path a hdir found hfound p).1 hp with
    ⟨names, content, hentry, hname, hreaches, rfl⟩
  exact ⟨names, content, walk_of_entry s.fs h s.cwd _ a names hdir hreaches.ne_nil
    (by rw [hentry, Option.isSome_some]), hentry, hname⟩

theorem leads_of_mem_searched (s : Glob.Search) (h : s.fs.WellFormed) (root path : Path)
    (found : List Path) (hfound : searched s root path = .ok found) (p : Path) (hp : p ∈ found) :
    s.fs.Leads s.cwd p := by
  rcases hdir : s.fs.directory? s.cwd (Path.join root path) with _ | a
  · -- The files of a pattern have been asked for.
    unfold searched at hfound
    simp only [hdir] at hfound
    rcases hexpand : s.expand false (Path.join root path) with fault | paths
    · rw [hexpand] at hfound
      cases hfound
    · rw [hexpand] at hfound
      cases hfound
      exact FileSystem.Leads.of_isFile (List.mem_filter.1 hp).2
  · -- In a directory, the names of the entry lead on from it.
    rcases walk_of_mem_searched s h root path a found hdir hfound p hp with ⟨names, -, hwalk, -⟩
    exact ⟨_, hwalk⟩

/-- The stages of a search that succeeds. -/
theorem discover_eq_ok (s : Glob.Search) (root : Path) (paths exclusions sources : List Path)
    (h : discover s root paths exclusions = .ok sources) :
    ∃ excluded found, gather (excludedBy s root) exclusions = .ok excluded ∧
      gather (searched s root) paths = .ok found ∧
      sources = sortDistinct (found.filter fun p => p ∉ excluded) := by
  unfold discover at h
  rcases hexcluded : gather (excludedBy s root) exclusions with fault | excluded
  · simp only [hexcluded, reduceCtorEq] at h
  rcases hfound : gather (searched s root) paths with fault | found
  · simp only [hexcluded, hfound, reduceCtorEq] at h
  simp only [hexcluded, hfound, Except.ok.injEq] at h
  exact ⟨excluded, found, rfl, rfl, h.symm⟩

/-- A definition file is one that some path stands for, and no exclusion. -/
theorem mem_discover_iff (s : Glob.Search) (root : Path) (paths exclusions sources : List Path)
    (h : discover s root paths exclusions = .ok sources) (p : Path) :
    p ∈ sources ↔ (∃ path ∈ paths, ∃ found, searched s root path = .ok found ∧ p ∈ found) ∧
      ¬∃ exclusion ∈ exclusions, ∃ excluded,
        excludedBy s root exclusion = .ok excluded ∧ p ∈ excluded := by
  rcases discover_eq_ok s root paths exclusions sources h with
    ⟨excluded, found, hexcluded, hfound, rfl⟩
  rw [mem_sortDistinct, List.mem_filter, decide_eq_true_eq, gather_eq_ok _ _ _ hfound,
    gather_eq_ok _ _ _ hexcluded]

/-- The paths of definition files lead to them. -/
theorem leads_of_mem_discover (s : Glob.Search) (h : s.fs.WellFormed) (root : Path)
    (paths exclusions sources : List Path) (hdiscover : discover s root paths exclusions = .ok sources)
    (p : Path) (hp : p ∈ sources) : s.fs.Leads s.cwd p := by
  rcases ((mem_discover_iff s root paths exclusions sources hdiscover p).1 hp).1 with
    ⟨path, -, found, hfound, hmem⟩
  exact leads_of_mem_searched s h root path found hfound p hmem

end Discovery

end ClientPlan
