import ClientPlan.Proofs.Generation.NamedFiles
import ClientPlan.Proofs.Glob.Recursion

/-!
# Searches That Are Asked for More

What becomes of the definition files when a search is asked for more or for less.

What one path stands for has nothing to do with the other ones, and neither has an
exclusion. So only the entries themselves count, not their order nor how often they are
given, more paths find more files, and more exclusions leave out more. It does not matter
which of the entries a search fails over, as it fails in one way only.

A search that becomes recursive looks for the files of a directory in another way, and
two stars mean something else to it. Both ways find every file that the other search has
found, and they put together the same path for it. The exclusions must not stand for more,
though, and that they do not without two stars among their names.

## Theorems

* `discover_subset`: Searches that find more and exclude less.
* `discover_eq_error`: The one way in which a search fails.
* `discover_congr`: The order of the entries.
* `searched_recursive`, `excludedBy_recursive`: One entry in a recursive search.
* `discover_recursive`: A search that becomes recursive.
* `discover_monotone`: All changes of a search together.
-/

namespace ClientPlan

namespace Discovery

section Entries

variable {s s' : Glob.Search} {root : Path} {paths paths' exclusions exclusions' : List Path}

/-- A search that finds more and excludes less gives more. -/
theorem discover_subset {sources sources' : List Path}
    (h : discover s root paths exclusions = .ok sources)
    (h' : discover s' root paths' exclusions' = .ok sources')
    (hpaths : ∀ path ∈ paths, ∀ found, searched s root path = .ok found →
      path ∈ paths' ∧ ∃ found', searched s' root path = .ok found' ∧ found ⊆ found')
    (hexclusions : ∀ exclusion ∈ exclusions', ∀ excluded,
      excludedBy s' root exclusion = .ok excluded →
        exclusion ∈ exclusions ∧
          ∃ excluded', excludedBy s root exclusion = .ok excluded' ∧ excluded ⊆ excluded') :
    sources ⊆ sources' := by
  intro p hp
  rw [mem_discover_iff s root paths exclusions sources h] at hp
  rw [mem_discover_iff s' root paths' exclusions' sources' h']
  rcases hp with ⟨⟨path, hpath, found, hfound, hmem⟩, hkept⟩
  rcases hpaths path hpath found hfound with ⟨hpath', found', hfound', hsubset⟩
  refine ⟨⟨path, hpath', found', hfound', hsubset hmem⟩, ?_⟩
  -- What is left out now would have been left out before.
  rintro ⟨exclusion, hexclusion, excluded, hexcluded, hmem'⟩
  rcases hexclusions exclusion hexclusion excluded hexcluded with
    ⟨hexclusion', excluded', hexcluded', hsubset'⟩
  exact hkept ⟨exclusion, hexclusion', excluded', hexcluded', hsubset' hmem'⟩

theorem searched_eq_error {path : Path} {fault : FileSystem.Fault}
    (h : searched s root path = .error fault) : fault = .nulInPath := by
  unfold searched at h
  rcases hdir : s.fs.directory? s.cwd (Path.join root path) with _ | a
  · simp only [hdir] at h
    rcases hexpand : s.expand false (Path.join root path) with reason | found
    · rw [hexpand] at h
      exact (Except.error.inj h).symm.trans (Glob.expand_eq_error s false _ reason hexpand)
    · rw [hexpand] at h
      cases h
  · simp only [hdir, reduceCtorEq] at h

theorem excludedBy_eq_error {exclusion : Path} {fault : FileSystem.Fault}
    (h : excludedBy s root exclusion = .error fault) : fault = .nulInPath := by
  unfold excludedBy at h
  simp only at h
  split at h
  · cases h
  · exact Glob.expand_eq_error s false _ fault h

/-- A search that fails has met a NUL character, in whichever entry. -/
theorem discover_eq_error {fault : FileSystem.Fault}
    (h : discover s root paths exclusions = .error fault) : fault = .nulInPath := by
  unfold discover at h
  rcases hexcluded : gather (excludedBy s root) exclusions with reason | excluded
  · simp only [hexcluded, Except.error.injEq] at h
    rcases gather_eq_error _ exclusions reason hexcluded with ⟨exclusion, -, herror⟩
    exact h ▸ excludedBy_eq_error herror
  rcases hfound : gather (searched s root) paths with reason | found
  · simp only [hexcluded, hfound, Except.error.injEq] at h
    rcases gather_eq_error _ paths reason hfound with ⟨path, -, herror⟩
    exact h ▸ searched_eq_error herror
  · simp only [hexcluded, hfound, reduceCtorEq] at h

/-- Fewer paths find no more. -/
theorem discover_of_paths_subset {sources : List Path}
    (h : discover s root paths exclusions = .ok sources) (hsubset : paths' ⊆ paths) :
    ∃ fewer, discover s root paths' exclusions = .ok fewer ∧ fewer ⊆ sources := by
  rcases exists_discover_ok_iff.1 ⟨sources, h⟩ with ⟨hexclusions, hpaths⟩
  rcases exists_discover_ok_iff.2 ⟨hexclusions, fun path hpath => hpaths path (hsubset hpath)⟩ with
    ⟨fewer, hfewer⟩
  exact ⟨fewer, hfewer, discover_subset hfewer h
    (fun _ hpath found hfound => ⟨hsubset hpath, found, hfound, List.Subset.refl found⟩)
    fun _ hexclusion excluded hexcluded =>
      ⟨hexclusion, excluded, hexcluded, List.Subset.refl excluded⟩⟩

/-- Fewer exclusions leave out no more. -/
theorem discover_of_exclusions_subset {sources : List Path}
    (h : discover s root paths exclusions = .ok sources) (hsubset : exclusions' ⊆ exclusions) :
    ∃ more, discover s root paths exclusions' = .ok more ∧ sources ⊆ more := by
  rcases exists_discover_ok_iff.1 ⟨sources, h⟩ with ⟨hexclusions, hpaths⟩
  rcases exists_discover_ok_iff.2
    ⟨fun exclusion hexclusion => hexclusions exclusion (hsubset hexclusion), hpaths⟩ with
    ⟨more, hmore⟩
  exact ⟨more, hmore, discover_subset h hmore
    (fun _ hpath found hfound => ⟨hpath, found, hfound, List.Subset.refl found⟩)
    fun _ hexclusion excluded hexcluded =>
      ⟨hsubset hexclusion, excluded, hexcluded, List.Subset.refl excluded⟩⟩

/-- Searches for the same entries give the same, whatever their order. -/
theorem discover_congr (hpaths : ∀ path, path ∈ paths' ↔ path ∈ paths)
    (hexclusions : ∀ exclusion, exclusion ∈ exclusions' ↔ exclusion ∈ exclusions) :
    discover s root paths' exclusions' = discover s root paths exclusions := by
  have hok : (∃ sources, discover s root paths' exclusions' = .ok sources) ↔
      ∃ sources, discover s root paths exclusions = .ok sources := by
    rw [exists_discover_ok_iff, exists_discover_ok_iff]
    simp only [hpaths, hexclusions]
  rcases h' : discover s root paths' exclusions' with fault' | sources'
  · rcases h : discover s root paths exclusions with fault | sources
    · rw [discover_eq_error h', discover_eq_error h]
    · rcases hok.2 ⟨sources, h⟩ with ⟨other, hother⟩
      rw [h'] at hother
      cases hother
  · rcases hok.1 ⟨sources', h'⟩ with ⟨sources, h⟩
    rw [h, Except.ok.injEq]
    -- Ascending lists are the same if they have the same members.
    refine ascending_unique sources' sources (discover_ascending s root _ _ _ h')
      (discover_ascending s root _ _ _ h) fun p => ?_
    rw [mem_discover_iff s root _ _ _ h', mem_discover_iff s root _ _ _ h]
    simp only [hpaths, hexclusions]

end Entries

section Recursion

variable {fs : FileSystem} (hfs : fs.WellFormed) {cwd root : Path}
include hfs

/-- What a path stands for is found in a recursive search too, under the same paths. -/
theorem searched_recursive {path : Path} {found : List Path}
    (h : searched ⟨fs, cwd, false⟩ root path = .ok found) :
    ∃ found', searched ⟨fs, cwd, true⟩ root path = .ok found' ∧ found ⊆ found' := by
  rcases hdir : fs.directory? cwd (Path.join root path) with _ | a
  · simp only [searched, hdir] at h ⊢
    rcases hexpand : Glob.Search.expand ⟨fs, cwd, false⟩ false (Path.join root path) with
      fault | paths
    · rw [hexpand] at h
      cases h
    rw [hexpand] at h
    cases h
    rcases Glob.exists_expand_ok ⟨fs, cwd, false⟩ ⟨fs, cwd, true⟩ hfs false _ paths hexpand with
      ⟨paths', hexpand'⟩
    refine ⟨paths'.filter fun p => fs.isFile cwd p, by rw [hexpand']; rfl, ?_⟩
    intro p hp
    rcases List.mem_filter.1 hp with ⟨hmem, hfile⟩
    refine List.mem_filter.2 ⟨?_, hfile⟩
    rw [Glob.mem_expand_iff _ hfs false _ paths hexpand] at hmem
    exact (Glob.mem_expand_iff _ hfs false _ paths' hexpand' p).2 (hmem.recursive hfs)
  · have hrecursive := searched_of_directory ⟨fs, cwd, true⟩ root path a hdir
    refine ⟨_, hrecursive, fun p hp => ?_⟩
    rw [mem_searched_of_directory_iff ⟨fs, cwd, false⟩ hfs root path a hdir found h] at hp
    rw [mem_searched_of_directory_iff ⟨fs, cwd, true⟩ hfs root path a hdir _ hrecursive]
    rcases hp with ⟨names, content, hentry, hname, ⟨hone, hshort⟩, rfl⟩
    -- What is in a directory is below it, under a single name.
    exact ⟨names, content, hentry, hname, ⟨List.ne_nil_of_length_pos (by omega),
      FileSystem.isTooLong_of_sublist (Path.directory_prefix _).sublist hshort⟩, rfl⟩

/-- An exclusion without two stars among its names stands for nothing more in a recursive
    search, and fails in both or in neither. -/
theorem excludedBy_recursive {exclusion : Path}
    (hnames : Glob.anyDepth ∉ Path.names (Path.join root exclusion)) {excluded : List Path}
    (h : excludedBy ⟨fs, cwd, false⟩ root exclusion = .ok excluded) :
    ∃ excluded', excludedBy ⟨fs, cwd, true⟩ root exclusion = .ok excluded' ∧
      excluded' ⊆ excluded := by
  unfold excludedBy at h ⊢
  simp only at h ⊢
  -- A file is excluded as it is named, and otherwise it is a pattern.
  by_cases hfile : fs.isFile cwd (Path.join root exclusion) = true
  · rw [if_pos hfile] at h ⊢
    exact ⟨_, rfl, by rw [Except.ok.inj h]; exact List.Subset.refl excluded⟩
  · rw [if_neg hfile] at h ⊢
    rcases Glob.exists_expand_ok ⟨fs, cwd, false⟩ ⟨fs, cwd, true⟩ hfs false _ excluded h with
      ⟨excluded', h'⟩
    refine ⟨excluded', h', fun p hp => ?_⟩
    rw [Glob.mem_expand_iff _ hfs false _ excluded' h'] at hp
    exact (Glob.mem_expand_iff _ hfs false _ excluded h p).2 (hp.of_recursive hnames)

/-- A search that becomes recursive loses nothing if no two stars are among the names of the
    root and of the exclusions. -/
theorem discover_recursive {paths exclusions sources : List Path}
    (hroot : Glob.anyDepth ∉ Path.names root)
    (hexclusions : ∀ exclusion ∈ exclusions, Glob.anyDepth ∉ Path.names exclusion)
    (h : discover ⟨fs, cwd, false⟩ root paths exclusions = .ok sources) :
    ∃ more, discover ⟨fs, cwd, true⟩ root paths exclusions = .ok more ∧ sources ⊆ more := by
  have hnames : ∀ exclusion ∈ exclusions,
      Glob.anyDepth ∉ Path.names (Path.join root exclusion) := by
    intro exclusion hexclusion
    rw [Path.names_join]
    split
    · exact hexclusions exclusion hexclusion
    · rw [List.mem_append]
      exact not_or.2 ⟨hroot, hexclusions exclusion hexclusion⟩
  rcases exists_discover_ok_iff.1 ⟨sources, h⟩ with ⟨hexcluded, hfound⟩
  have hrecursive : ∀ exclusion ∈ exclusions, ∃ excluded excluded',
      excludedBy ⟨fs, cwd, false⟩ root exclusion = .ok excluded ∧
        excludedBy ⟨fs, cwd, true⟩ root exclusion = .ok excluded' ∧ excluded' ⊆ excluded := by
    intro exclusion hexclusion
    rcases hexcluded exclusion hexclusion with ⟨excluded, hbefore⟩
    rcases excludedBy_recursive hfs (hnames exclusion hexclusion) hbefore with
      ⟨excluded', hafter, hsubset⟩
    exact ⟨excluded, excluded', hbefore, hafter, hsubset⟩
  -- The recursive search succeeds wherever the other one does.
  have hok : ∃ more, discover ⟨fs, cwd, true⟩ root paths exclusions = .ok more := by
    refine exists_discover_ok_iff.2 ⟨fun exclusion hexclusion => ?_, fun path hpath => ?_⟩
    · rcases hrecursive exclusion hexclusion with ⟨-, excluded', -, hafter, -⟩
      exact ⟨excluded', hafter⟩
    · rcases hfound path hpath with ⟨found, hsearched⟩
      rcases searched_recursive hfs hsearched with ⟨found', hsearched', -⟩
      exact ⟨found', hsearched'⟩
  rcases hok with ⟨more, hmore⟩
  refine ⟨more, hmore, discover_subset h hmore
    (fun path hpath found hsearched => ⟨hpath, searched_recursive hfs hsearched⟩) ?_⟩
  -- What is excluded now was excluded before.
  intro exclusion hexclusion excluded' hafter
  rcases hrecursive exclusion hexclusion with ⟨excluded, other, hbefore, hother, hsubset⟩
  rw [hafter, Except.ok.injEq] at hother
  exact ⟨hexclusion, excluded, hbefore, hother ▸ hsubset⟩

end Recursion

/-- There is a result unless a NUL character is in the way. It depends on which paths and which
    exclusions are given only, it grows with the paths and shrinks with the exclusions, and it
    does not shrink when the search becomes recursive. -/
theorem discover_monotone (fs : FileSystem) (hfs : fs.WellFormed) (cwd root : Path)
    (paths exclusions : List Path) :
    let find := fun recursive => discover ⟨fs, cwd, recursive⟩ root
    ((∀ path ∈ paths ++ exclusions, '\x00' ∉ Path.join root path) →
        ∀ recursive, ∃ sources, find recursive paths exclusions = .ok sources) ∧
      (∀ recursive paths' exclusions', (∀ path, path ∈ paths' ↔ path ∈ paths) →
        (∀ exclusion, exclusion ∈ exclusions' ↔ exclusion ∈ exclusions) →
          find recursive paths' exclusions' = find recursive paths exclusions) ∧
      (∀ recursive sources, find recursive paths exclusions = .ok sources →
        (∀ paths', paths' ⊆ paths →
          ∃ fewer, find recursive paths' exclusions = .ok fewer ∧ fewer ⊆ sources) ∧
        ∀ exclusions', exclusions' ⊆ exclusions →
          ∃ more, find recursive paths exclusions' = .ok more ∧ sources ⊆ more) ∧
      (Glob.anyDepth ∉ Path.names root →
        (∀ exclusion ∈ exclusions, Glob.anyDepth ∉ Path.names exclusion) →
          ∀ sources, find false paths exclusions = .ok sources →
            ∃ more, find true paths exclusions = .ok more ∧ sources ⊆ more) := by
  intro find
  refine ⟨?_, ?_, ?_, ?_⟩
  · exact fun hnul recursive => exists_discover_ok ⟨fs, cwd, recursive⟩ hfs root paths exclusions hnul
  · exact fun recursive paths' exclusions' hpaths hexclusions =>
      discover_congr hpaths hexclusions
  · exact fun recursive sources hsources =>
      ⟨fun paths' hsubset => discover_of_paths_subset hsources hsubset,
        fun exclusions' hsubset => discover_of_exclusions_subset hsources hsubset⟩
  · exact fun hroot hexclusions sources hsources =>
      discover_recursive hfs hroot hexclusions hsources

/-- Definition files in two directories, one of which is in the other. -/
def tiers : FileSystem where
  entries := [
    (["w".toList], .directory),
    (["w".toList, "d".toList], .directory),
    (["w".toList, "d".toList, "a.conjure.json".toList], .file []),
    (["w".toList, "d".toList, "c.conjure.json".toList], .file []),
    (["w".toList, "d".toList, "e".toList], .directory),
    (["w".toList, "d".toList, "e".toList, "b.conjure.json".toList], .file [])]

/-- Two stars stand for one name, and for more in a recursive search, which so finds the same
    file and another one. -/
theorem discover_monotone_of_tiers :
    let root := "/w".toList
    let paths := ["d/**".toList, "d".toList]
    let exclusions := ["d/c*".toList]
    let sources := ["/w/d/a.conjure.json".toList]
    (tiers.WellFormed ∧ Glob.anyDepth ∉ Path.names root ∧
        (∀ exclusion ∈ exclusions, Glob.anyDepth ∉ Path.names exclusion) ∧
        discover ⟨tiers, root, false⟩ root paths exclusions = .ok sources) ∧
      (∃ more, discover ⟨tiers, root, true⟩ root paths exclusions = .ok more ∧
        sources ⊆ more) ∧
      (∃ fewer, discover ⟨tiers, root, false⟩ root ["d/**".toList] exclusions = .ok fewer ∧
        fewer ⊆ sources) ∧
      discover ⟨tiers, root, false⟩ root ["d".toList, "d/**".toList, "d".toList] exclusions =
        .ok sources := by
  intro root paths exclusions sources
  have hfs : tiers.WellFormed := by decide
  have hroot : Glob.anyDepth ∉ Path.names root := by decide
  have hexclusions : ∀ exclusion ∈ exclusions, Glob.anyDepth ∉ Path.names exclusion :=
    List.forall_mem_singleton.2 (by decide)
  have hsources : discover ⟨tiers, root, false⟩ root paths exclusions = .ok sources :=
    eq_ok_of_toOption (by decide +kernel)
  -- Each of the three other searches is compared with the first one.
  rcases discover_monotone tiers hfs root root paths exclusions with
    ⟨-, hcongr, hsubset, hrecursive⟩
  refine ⟨⟨hfs, hroot, hexclusions, hsources⟩, hrecursive hroot hexclusions sources hsources,
    (hsubset false sources hsources).1 _ ?_, ?_⟩
  · exact List.cons_subset.2 ⟨List.mem_cons_self, List.nil_subset _⟩
  · rw [← hsources]
    refine hcongr false _ exclusions (fun path => ?_) fun exclusion => Iff.rfl
    simp only [paths, List.mem_cons, List.not_mem_nil, or_false]
    exact ⟨fun h => h.elim Or.inr id, fun h => h.elim (Or.inr ∘ Or.inl) Or.inl⟩

end Discovery

end ClientPlan
