import ClientPlan.Proofs.Generation.Rewriting
import ClientPlan.Proofs.Generation.Sources

/-!
# Finding Definition Files Again

Which definition files are found after plans have been written.

The file system has grown then by directories and by files under the names of plans. No
such name is that of a definition, so the files that are found in and below directories
are the same as before, with the same content. An exclusion that is a pattern finds
what it has found before, among the paths of these files, since they have led somewhere
before.

An exclusion could still mean something else now: it is taken literally if it leads to a
file, and that file may be new. A path that does not go up leads to a new file only
under the name of a plan, so as a pattern it has excluded no definition file before
(`suffix_of_new_file`). A path that goes up may lead to an old file through a directory
that is new, and this is the one case that has to be ruled out.

## Main definitions

* `Located`: A path that leads to a file with the name of a definition.

## Theorems

* `not_isPlanAddress`: Definition files are not touched by plans.
* `searched_grown`, `exists_mem_searched_grown_iff`: What is found in and below
  directories.
* `excludedBy_grown`: What an exclusion stands for.
* `discover_grown`: The definition files are the same as before.
-/

namespace ClientPlan

namespace Discovery

open FileSystem (Grown)
open Generation (IsPlanAddress)

/-- No name is that of a plan and that of a definition. -/
theorem not_isDefinition_of_ending (name : Name) (h : Output.ending <:+ name) :
    ¬isDefinition name = true := by
  intro hdefinition
  rw [isDefinition, List.isSuffixOf_iff_suffix] at hdefinition
  have hboth := List.suffix_of_suffix_length_le h hdefinition (by decide)
  exact absurd hboth (by decide)

/-- The ending of plan files holds no wildcard. -/
theorem isPlain_of_mem_ending (c : Char) (h : c ∈ Output.ending) : Glob.IsPlain c := by
  have hall : Output.ending.all (fun c => decide (Glob.IsPlain c)) = true := by
    decide
  exact of_decide_eq_true (List.all_eq_true.1 hall c h)

/-- A file with the name of a definition does not have the address of a plan. -/
theorem not_isPlanAddress (b : Address) (h : b.getLast?.any isDefinition = true) :
    ¬IsPlanAddress b := by
  rintro ⟨a, name, rfl⟩
  rw [List.getLast?_concat, Option.any_some] at h
  exact not_isDefinition_of_ending _ (List.suffix_append name Output.ending) h

/-- Whether a path leads to a file at an address with the name of a definition. -/
structure Located (fs : FileSystem) (cwd p : Path) (b : Address) : Prop where
  walk : fs.walk [] (Path.segments (Path.join cwd p)) = .ok b
  file : ∃ content, fs.at? b = some (.file content)
  definition : b.getLast?.any isDefinition = true

/-- The path of a definition file ends in its name. -/
theorem Located.lastName {fs : FileSystem} (hfs : fs.WellFormed) {cwd p : Path} {b : Address}
    (h : Located fs cwd p b) : isDefinition (Path.lastName p) = true := by
  rcases h.file with ⟨content, hcontent⟩
  rcases hfs.lastName_of_walk cwd p b content h.walk hcontent with ⟨front, rfl⟩
  have hname := h.definition
  rwa [List.getLast?_concat, Option.any_some] at hname

/-- What is found in or below a directory is located. -/
theorem located_of_mem_searched (s : Glob.Search) (hfs : s.fs.WellFormed) (root path : Path)
    (found : List Path) (hdir : s.fs.isDirectory s.cwd (Path.join root path) = true)
    (hfound : searched s root path = .ok found) (p : Path) (hp : p ∈ found) :
    ∃ b, Located s.fs s.cwd p b := by
  rcases (FileSystem.isDirectory_iff s.fs s.cwd _).1 hdir with ⟨a, ha⟩
  rcases walk_of_mem_searched s hfs root path a found ha hfound p hp with
    ⟨names, content, hwalk, hfile, hname⟩
  refine ⟨a ++ names, hwalk, ⟨content, hfile⟩, ?_⟩
  -- The last name is that of a definition, so there is one.
  have hne : names ≠ [] := by
    rintro rfl
    cases hname
  rw [List.getLast?_append_of_ne_nil a hne]
  exact hname

/-- What is found in or below directories is located. -/
theorem located_of_mem_discover (s : Glob.Search) (hfs : s.fs.WellFormed) (root : Path)
    (paths exclusions sources : List Path)
    (hpaths : ∀ path ∈ paths, s.fs.isDirectory s.cwd (Path.join root path) = true)
    (hdiscover : discover s root paths exclusions = .ok sources) (p : Path) (hp : p ∈ sources) :
    ∃ b, Located s.fs s.cwd p b := by
  rcases ((mem_discover_iff s root paths exclusions sources hdiscover p).1 hp).1 with
    ⟨path, hpath, found, hfound, hmem⟩
  exact located_of_mem_searched s hfs root path found (hpaths path hpath) hfound p hmem

section Growth

variable {fs fs' : FileSystem} (h : Grown IsPlanAddress fs fs') (hfs : fs.WellFormed)
  (hfs' : fs'.WellFormed) (cwd : Path) (recursive : Bool) (root : Path)
include h hfs hfs'

/-- The files in and below a directory with the names of definitions are the same as
    before. -/
theorem searched_grown (path : Path)
    (hdir : fs.isDirectory cwd (Path.join root path) = true) :
    ∃ found found', searched ⟨fs, cwd, recursive⟩ root path = .ok found ∧
      searched ⟨fs', cwd, recursive⟩ root path = .ok found' ∧ ∀ p, p ∈ found' ↔ p ∈ found := by
  rcases (FileSystem.isDirectory_iff fs cwd _).1 hdir with ⟨a, ha⟩
  have ha' := h.directory? cwd _ a ha
  have hbefore := searched_of_directory ⟨fs, cwd, recursive⟩ root path a ha
  have hafter := searched_of_directory ⟨fs', cwd, recursive⟩ root path a ha'
  refine ⟨_, _, hbefore, hafter, fun p => ?_⟩
  rw [mem_searched_of_directory_iff ⟨fs', cwd, recursive⟩ hfs' root path a ha' _ hafter,
    mem_searched_of_directory_iff ⟨fs, cwd, recursive⟩ hfs root path a ha _ hbefore]
  refine exists_congr fun names => exists_congr fun content => ?_
  rw [and_left_comm, and_left_comm (a := fs.at? _ = _)]
  refine and_congr_right fun hname => and_congr_left fun hreached => ?_
  -- A file with the name of a definition is not one that has been added.
  refine h.content _ content (not_isPlanAddress _ ?_)
  rw [List.getLast?_append_of_ne_nil a hreached.1.ne_nil]
  exact hname

/-- A path that does not go up leads to a file that was not there before only under the
    name of a plan. -/
theorem suffix_of_new_file (p : Path) (hup : Path.up ∉ Path.segments (Path.join cwd p))
    (hnew : fs'.isFile cwd p = true) (hold : ¬fs.isFile cwd p = true) :
    Output.ending <:+ Path.lastName p := by
  rcases (FileSystem.isFile_iff fs' cwd p).1 hnew with ⟨a, content, hresolve, hfile⟩
  rcases (FileSystem.resolve_eq_ok_iff fs' cwd p a).1 hresolve with ⟨hp, hshort, hwalk⟩
  rcases h.others a content hfile with ⟨above, name, hplan⟩ | hbefore
  · rcases hfs'.lastName_of_walk cwd p a content hwalk hfile with ⟨front, hfront⟩
    rw [hplan] at hfront
    rw [← (List.cons.inj (List.append_inj' hfront rfl).2).1]
    exact List.suffix_append name Output.ending
  · -- The file was there, and so was everything on the way to it.
    have hwalk' := h.walk_of_notMem_up hfs _ a hup hwalk (by rw [hbefore, Option.isSome_some])
    exact absurd ((FileSystem.isFile_iff fs cwd p).2 ⟨a, content,
      (FileSystem.resolve_eq_ok_iff fs cwd p a).2 ⟨hp, hshort, hwalk'⟩, hbefore⟩) hold

/-- An exclusion stands for the same definition files as before, unless it is a pattern
    that goes up and leads to a file only now. -/
theorem excludedBy_grown (exclusion : Path) (excluded : List Path)
    (hclimbs : Glob.isPattern (Path.join root exclusion) = true →
      Path.up ∈ Path.segments (Path.join cwd (Path.join root exclusion)) →
        fs'.isFile cwd (Path.join root exclusion) = true →
          fs.isFile cwd (Path.join root exclusion) = true)
    (hexcluded : excludedBy ⟨fs, cwd, recursive⟩ root exclusion = .ok excluded) :
    ∃ excluded', excludedBy ⟨fs', cwd, recursive⟩ root exclusion = .ok excluded' ∧
      ∀ p b, Located fs cwd p b → (p ∈ excluded' ↔ p ∈ excluded) := by
  unfold excludedBy at hexcluded ⊢
  simp only at hexcluded ⊢
  by_cases hold : fs.isFile cwd (Path.join root exclusion) = true
  · rw [if_pos hold] at hexcluded
    rw [if_pos (h.isFile cwd _ hold)]
    exact ⟨excluded, hexcluded, fun _ _ _ => Iff.rfl⟩
  rw [if_neg hold] at hexcluded
  have hstands := Glob.mem_expand_iff _ hfs false _ excluded hexcluded
  by_cases hnew : fs'.isFile cwd (Path.join root exclusion) = true
  · rw [if_pos hnew]
    refine ⟨_, rfl, fun p b hp => ?_⟩
    -- The new file is not a definition file, as that would have been there before.
    have hother : p ≠ Path.join root exclusion := by
      rintro rfl
      rcases (FileSystem.isFile_iff fs' cwd _).1 hnew with ⟨a, -, hresolve, -⟩
      rcases (FileSystem.resolve_eq_ok_iff fs' cwd _ a).1 hresolve with ⟨hne, hshort, -⟩
      rcases hp.file with ⟨content, hcontent⟩
      exact hold ((FileSystem.isFile_iff fs cwd _).2 ⟨b, content,
        (FileSystem.resolve_eq_ok_iff fs cwd _ b).2 ⟨hne, hshort, hp.walk⟩, hcontent⟩)
    rw [List.mem_singleton, hstands]
    refine iff_of_false hother fun hmatch => ?_
    by_cases hwild : Glob.isPattern (Path.join root exclusion) = true
    · by_cases hup : Path.up ∈ Path.segments (Path.join cwd (Path.join root exclusion))
      · exact hold (hclimbs hwild hup hnew)
      · have hending := suffix_of_new_file h hfs hfs' cwd _ hup hnew hold
        have hmatched := hmatch.suffix_lastName hfs Output.ending (by decide)
          isPlain_of_mem_ending hending
        exact not_isDefinition_of_ending _ hmatched (hp.lastName hfs)
    · cases hmatch with
      | itself _ _ => exact hother rfl
      | beneath wild _ _ _ => exact hwild wild
      | within wild _ _ _ => exact hwild wild
  · rw [if_neg hnew]
    rcases Glob.exists_expand_ok _ ⟨fs', cwd, recursive⟩ hfs' false _ excluded hexcluded with
      ⟨excluded', hexcluded'⟩
    refine ⟨excluded', hexcluded', fun p b hp => ?_⟩
    rw [Glob.mem_expand_iff _ hfs' false _ excluded' hexcluded', hstands]
    exact ⟨fun hmatch => hmatch.of_grown h hfs' ⟨b, hp.walk⟩, fun hmatch => hmatch.grown h⟩

/-- The files in and below some directories are the same as before. -/
theorem exists_mem_searched_grown_iff (paths : List Path)
    (hpaths : ∀ path ∈ paths, fs.isDirectory cwd (Path.join root path) = true) (p : Path) :
    (∃ path ∈ paths, ∃ found, searched ⟨fs', cwd, recursive⟩ root path = .ok found ∧
        p ∈ found) ↔
      ∃ path ∈ paths, ∃ found, searched ⟨fs, cwd, recursive⟩ root path = .ok found ∧
        p ∈ found := by
  refine exists_congr fun path => and_congr_right fun hpath => ?_
  rcases searched_grown h hfs hfs' cwd recursive root path (hpaths path hpath) with
    ⟨found, found', hfound, hfound', hmem⟩
  simp only [hfound, hfound', Except.ok.injEq, exists_eq_left', hmem]

/-- A search in and below directories fails only if that for an exclusion does. -/
theorem exists_discover_grown (paths exclusions : List Path)
    (hpaths : ∀ path ∈ paths, fs.isDirectory cwd (Path.join root path) = true)
    (hexclusions : ∀ exclusion ∈ exclusions,
      ∃ excluded, excludedBy ⟨fs', cwd, recursive⟩ root exclusion = .ok excluded) :
    ∃ sources', discover ⟨fs', cwd, recursive⟩ root paths exclusions = .ok sources' := by
  refine exists_discover_ok_iff.2 ⟨hexclusions, fun path hpath => ?_⟩
  rcases searched_grown h hfs hfs' cwd recursive root path (hpaths path hpath) with
    ⟨-, found', -, hfound', -⟩
  exact ⟨found', hfound'⟩

/-- The definition files that some directories stand for, and no exclusion, are the same
    as before. -/
theorem discover_grown (paths exclusions sources : List Path)
    (hpaths : ∀ path ∈ paths, fs.isDirectory cwd (Path.join root path) = true)
    (hexclusions : ∀ exclusion ∈ exclusions,
      Glob.isPattern (Path.join root exclusion) = true →
        Path.up ∈ Path.segments (Path.join cwd (Path.join root exclusion)) →
          fs'.isFile cwd (Path.join root exclusion) = true →
            fs.isFile cwd (Path.join root exclusion) = true)
    (hdiscover : discover ⟨fs, cwd, recursive⟩ root paths exclusions = .ok sources) :
    discover ⟨fs', cwd, recursive⟩ root paths exclusions = .ok sources := by
  -- Each exclusion stands for some paths before, and for some now.
  have hexcludes : ∀ exclusion ∈ exclusions, ∃ excluded excluded',
      excludedBy ⟨fs, cwd, recursive⟩ root exclusion = .ok excluded ∧
        excludedBy ⟨fs', cwd, recursive⟩ root exclusion = .ok excluded' ∧
          ∀ p b, Located fs cwd p b → (p ∈ excluded' ↔ p ∈ excluded) := by
    intro exclusion hmem
    rcases (exists_discover_ok_iff.1 ⟨sources, hdiscover⟩).1 exclusion hmem with ⟨some, hsome⟩
    rcases excludedBy_grown h hfs hfs' cwd recursive root exclusion some
      (hexclusions exclusion hmem) hsome with ⟨some', hsome', hsame⟩
    exact ⟨some, some', hsome, hsome', hsame⟩
  rcases exists_discover_grown h hfs hfs' cwd recursive root paths exclusions hpaths
    (fun exclusion hmem => by
      rcases hexcludes exclusion hmem with ⟨-, some', -, hsome', -⟩
      exact ⟨some', hsome'⟩) with ⟨sources', hdiscover'⟩
  -- Both lists ascend, so it is enough that they hold the same paths.
  rw [hdiscover']
  refine congrArg Except.ok (ascending_unique _ _ (discover_ascending _ root paths exclusions _
    hdiscover') (discover_ascending _ root paths exclusions _ hdiscover) fun p => ?_)
  rw [mem_discover_iff _ root paths exclusions _ hdiscover',
    mem_discover_iff _ root paths exclusions _ hdiscover,
    exists_mem_searched_grown_iff h hfs hfs' cwd recursive root paths hpaths p]
  refine and_congr_right fun hfound => not_congr (exists_congr fun exclusion =>
    and_congr_right fun hmem => ?_)
  rcases hfound with ⟨path, hpath, found, hsearched, hp⟩
  rcases located_of_mem_searched _ hfs root path found (hpaths path hpath) hsearched p hp with
    ⟨b, hlocated⟩
  rcases hexcludes exclusion hmem with ⟨some, some', hsome, hsome', hsame⟩
  simp only [hsome, hsome', Except.ok.injEq, exists_eq_left', hsame p b hlocated]

end Growth

end Discovery

end ClientPlan
