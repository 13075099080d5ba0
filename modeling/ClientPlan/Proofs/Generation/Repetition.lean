import ClientPlan.Proofs.Generation.Interruption
import ClientPlan.Proofs.Generation.Rediscovery

/-!
# Runs That Are Repeated

What a second run with the same settings does after the first one.

What the first run has left behind differs from what it has found by plan files and
directories at most. So the second one finds the same definition files and reads the
same from them, plans the same services and decides on the same plan files. It either
stops at the same failures, or writes all plans once more, which changes nothing. Its
log and its end are those of the first run.

This holds if the paths are directories and the exclusions go on to mean the same. An
exclusion that is taken for a pattern at first, and for the name of a file after a run
has made the directory that leads there, no longer excludes what it has excluded
(`exists_run_not_repeated`).

## Theorems

* `walk_clean`: A path and its clean spelling lead to the same file.
* `load_of_located`: A definition file gives the same services as before.
* `run_repeats`: The second run is like the first one.
* `exists_run_not_repeated`: A second run can find other definition files.
-/

namespace ClientPlan

namespace FileSystem

/-- The steps of a path lead where the path leads. -/
theorem walk_steps (fs : FileSystem) (cwd p : Path) (a : Address) (hne : Path.lastName p ≠ [])
    (hhere : Path.lastName p ≠ Path.here) :
    fs.walk [] (Path.steps (Path.join cwd p)) = .ok a ↔
      fs.walk [] (Path.segments (Path.join cwd p)) = .ok a := by
  rcases Path.exists_segments_lastName (Path.join cwd p) with ⟨start, hstart⟩
  rw [Path.lastName_join] at hstart
  rw [Path.steps, hstart]
  exact walk_filter_iff fs start _ [] a ⟨hne, hhere⟩

/-- A path and its clean spelling lead to the same file. -/
theorem walk_clean (fs : FileSystem) (cwd p : Path) (a : Address) (hne : Path.lastName p ≠ [])
    (hhere : Path.lastName p ≠ Path.here) :
    fs.walk [] (Path.segments (Path.join cwd (Path.clean p))) = .ok a ↔
      fs.walk [] (Path.segments (Path.join cwd p)) = .ok a := by
  have hlast := Path.lastName_clean p hne hhere
  have hsteps : Path.steps p ≠ [] := by
    rcases Path.exists_steps_lastName p hne hhere with ⟨front, hfront⟩
    rw [hfront]
    exact List.append_ne_nil_of_right_ne_nil front (List.cons_ne_nil _ [])
  rw [← walk_steps fs cwd _ a (by rwa [hlast]) (by rwa [hlast]), Path.steps_join_clean cwd p hsteps,
    walk_steps fs cwd p a hne hhere]

/-- A file has the same content in two file systems if the path leads to it in both. -/
theorem read_of_walk (fs fs' : FileSystem) (cwd p : Path) (a : Address)
    (h : fs.walk [] (Path.segments (Path.join cwd p)) = .ok a)
    (h' : fs'.walk [] (Path.segments (Path.join cwd p)) = .ok a) (hat : fs'.at? a = fs.at? a) :
    fs'.read cwd p = fs.read cwd p := by
  -- What a path leads to depends on its walk alone.
  have hresolve : fs'.resolve cwd p = fs.resolve cwd p := by
    rw [resolve, resolve, h, h']
  unfold read
  rw [hresolve]
  split
  · rfl
  · rcases hp : fs.resolve cwd p with reason | b
    · rfl
    · have hb : b = a := by
        rw [resolve_eq_ok_iff, h] at hp
        exact (Except.ok.inj hp.2.2).symm
      simp only [hb, hat]

end FileSystem

namespace Generation

open Discovery (Located)

/-- A definition file gives the same services after plans have been written. -/
theorem load_of_located {fs fs' : FileSystem} (h : FileSystem.Grown IsPlanAddress fs fs')
    (hfs : fs.WellFormed) (cwd source : Path) (b : Address) (hsource : Located fs cwd source b) :
    Document.load fs' cwd source = Document.load fs cwd source := by
  have hname := hsource.lastName hfs
  -- The name is that of a definition, so the path does not end in a slash or a dot.
  have hne : Path.lastName source ≠ [] := by
    intro hnil
    rw [hnil] at hname
    exact absurd hname (by decide)
  have hhere : Path.lastName source ≠ Path.here := by
    intro hhere
    rw [hhere] at hname
    exact absurd hname (by decide)
  have hwalk := (fs.walk_clean cwd source b hne hhere).2 hsource.walk
  rcases hsource.file with ⟨content, hcontent⟩
  -- Only plans have been added, and this is none.
  have hsame := (h.content b content (Discovery.not_isPlanAddress b hsource.definition)).2 hcontent
  have hread := fs.read_of_walk fs' cwd _ b hwalk (h.walk _ [] b hwalk)
    (hsame.trans hcontent.symm)
  rw [Document.load, Document.load, hread]

/-- A survey depends on what the files give. -/
theorem survey_of_load (fs fs' : FileSystem) (cwd : Path) (sources : List Path)
    (h : ∀ source ∈ sources, Document.load fs' cwd source = Document.load fs cwd source) :
    survey fs' cwd sources = survey fs cwd sources := by
  induction sources with
  | nil => rfl
  | cons source sources ih =>
      rw [survey, survey, h source List.mem_cons_self,
        ih fun other hother => h other (List.mem_cons_of_mem source hother)]

/-- The last stage leaves a file system that has grown by plans at most. -/
theorem finish_grown (fs : FileSystem) (cwd : Path) (keepGoing : Bool) (d : Decision)
    (hfs : fs.WellFormed)
    (h : ∀ crash, (finish fs cwd keepGoing d).ending ≠ .crashed crash) :
    (finish fs cwd keepGoing d).fs.WellFormed ∧
      FileSystem.Grown IsPlanAddress fs (finish fs cwd keepGoing d).fs := by
  unfold finish at h ⊢
  -- Nothing is written, or all plans are.
  by_cases hstop : d.failures ≠ [] ∧ (!keepGoing) = true
  · simp only [if_pos hstop]
    exact ⟨hfs, FileSystem.Grown.refl fs⟩
  · simp only [if_neg hstop] at h ⊢
    rcases hwrite : writeAll fs cwd d.outputs with ⟨after, log, _ | fault⟩
    · exact ⟨writeAll_wellFormed fs after cwd d.outputs log hfs hwrite,
        (writeAll_written fs after cwd d.outputs log hwrite).grown⟩
    · rw [hwrite] at h
      exact absurd rfl (h (.files fault))

/-- The last stage does the same again in the file system that it has left behind. -/
theorem finish_again (fs : FileSystem) (cwd : Path) (keepGoing : Bool) (d : Decision)
    (hfs : fs.WellFormed)
    (h : ∀ crash, (finish fs cwd keepGoing d).ending ≠ .crashed crash) :
    finish (finish fs cwd keepGoing d).fs cwd keepGoing d = finish fs cwd keepGoing d := by
  unfold finish at h ⊢
  by_cases hstop : d.failures ≠ [] ∧ (!keepGoing) = true
  · simp only [if_pos hstop]
  · simp only [if_neg hstop] at h ⊢
    rcases hwrite : writeAll fs cwd d.outputs with ⟨after, log, _ | fault⟩
    · simp only [writeAll_again fs after cwd d.outputs log hfs hwrite]
    · rw [hwrite] at h
      exact absurd rfl (h (.files fault))

/-- The stages behind the search for definition files leave a file system that has grown
    by plans at most, and do the same again in it. -/
theorem generate_again (fs : FileSystem) (cwd : Path) (o : Options) (sources : List Path)
    (hfs : fs.WellFormed) (hsources : ∀ source ∈ sources, ∃ b, Located fs cwd source b)
    (h : ∀ crash, (generate fs cwd o sources).ending ≠ .crashed crash) :
    (generate fs cwd o sources).fs.WellFormed ∧
      FileSystem.Grown IsPlanAddress fs (generate fs cwd o sources).fs ∧
      generate (generate fs cwd o sources).fs cwd o sources = generate fs cwd o sources := by
  rcases hcrash : (survey fs cwd sources).crash with _ | crash
  · have hfinish : ∀ crash, (finish fs cwd o.keepGoing
        (settle cwd o.outputPath sources (survey fs cwd sources))).ending ≠ .crashed crash := by
      simpa only [generate, hcrash] using h
    have hleft : (generate fs cwd o sources).fs = (finish fs cwd o.keepGoing
        (settle cwd o.outputPath sources (survey fs cwd sources))).fs := by
      simp only [generate, hcrash]
    rcases finish_grown fs cwd o.keepGoing _ hfs hfinish with ⟨hwell, hgrown⟩
    rw [hleft]
    refine ⟨hwell, hgrown, ?_⟩
    -- The survey is the same, and so is what is decided on.
    have hsurvey := survey_of_load fs _ cwd sources fun source hsource => by
      rcases hsources source hsource with ⟨b, hlocated⟩
      exact load_of_located hgrown hfs cwd source b hlocated
    have hagain := finish_again fs cwd o.keepGoing _ hfs hfinish
    simp only [generate, hsurvey, hcrash, hagain]
  · exact absurd (by simp only [generate, hcrash]) (h crash)

/-- A run over directories leaves all files alone that have the name of a definition. A
    second one with the same settings finds the same definition files, reports the same,
    ends in the same way and leaves the file system as it is, provided that no exclusion
    is a pattern that goes up and leads to a file only after the first run. -/
theorem run_repeats (fs : FileSystem) (cwd root : Path) (o : Options) (hfs : fs.WellFormed)
    (hclean : o.clean = [])
    (hpaths : ∀ path ∈ o.paths, fs.isDirectory cwd (Path.join root path.toList) = true)
    (h : ∀ crash, (run fs cwd root o).ending ≠ .crashed crash) :
    (∀ (b : Address) (content : List UInt8), b.getLast?.any Discovery.isDefinition = true →
        ((run fs cwd root o).fs.at? b = some (.file content) ↔
          fs.at? b = some (.file content))) ∧
      ((∀ exclusion ∈ o.excludes,
          Glob.isPattern (Path.join root exclusion.toList) = true →
            Path.up ∈ Path.segments (Path.join cwd (Path.join root exclusion.toList)) →
              (run fs cwd root o).fs.isFile cwd (Path.join root exclusion.toList) = true →
                fs.isFile cwd (Path.join root exclusion.toList) = true) →
        ∃ sources,
          Discovery.discover ⟨fs, cwd, o.recursive⟩ root (o.paths.map String.toList)
            (o.excludes.map String.toList) = .ok sources ∧
          Discovery.discover ⟨(run fs cwd root o).fs, cwd, o.recursive⟩ root
            (o.paths.map String.toList) (o.excludes.map String.toList) = .ok sources ∧
          run (run fs cwd root o).fs cwd root o = run fs cwd root o) := by
  have hdirs : ∀ path ∈ o.paths.map String.toList,
      fs.isDirectory cwd (Path.join root path) = true := by
    intro path hpath
    rcases List.mem_map.1 hpath with ⟨word, hword, rfl⟩
    exact hpaths word hword
  have hrun := run_of_clean_nil fs cwd root o hclean
  -- A run that is no crash has discovered its sources.
  rcases hdiscover : Discovery.discover ⟨fs, cwd, o.recursive⟩ root (o.paths.map String.toList)
    (o.excludes.map String.toList) with fault | sources
  · rw [hrun, hdiscover] at h
    exact absurd rfl (h (.files fault))
  simp only [hdiscover] at hrun
  have hsources : ∀ source ∈ sources, ∃ b, Located fs cwd source b :=
    Discovery.located_of_mem_discover ⟨fs, cwd, o.recursive⟩ hfs root _ _ sources hdirs hdiscover
  rw [hrun] at h ⊢
  rcases generate_again fs cwd o sources hfs hsources h with ⟨hwell, hgrown, hagain⟩
  refine ⟨fun b content hb => hgrown.content b content (Discovery.not_isPlanAddress b hb), ?_⟩
  intro hexcludes
  -- The second discovery sees what the first run has added, and leaves it out.
  have hdiscover' := Discovery.discover_grown hgrown hfs hwell cwd o.recursive root _
    (o.excludes.map String.toList) sources hdirs (by
      intro exclusion hexclusion
      rcases List.mem_map.1 hexclusion with ⟨word, hword, rfl⟩
      exact hexcludes word hword) hdiscover
  refine ⟨sources, rfl, hdiscover', ?_⟩
  rw [run_of_clean_nil _ cwd root o hclean, hdiscover']
  exact hagain

/-- A directory with two definition files, in which a plan of an earlier run stands. -/
def plannedBefore : FileSystem where
  entries := [
    (["w".toList], .directory),
    (["w".toList, "x".toList], .directory),
    (["w".toList, "x".toList, "a.conjure.json".toList],
      .file (Utf8.encode (Document.encode [⟨"A", none, []⟩]).render)),
    (["w".toList, "x".toList, "b.conjure.json".toList],
      .file (Utf8.encode (Document.encode [⟨"B", none, []⟩]).render)),
    (["w".toList, "x".toList, "B.plan.json".toList], .file [])]

/-- The settings for planning one of the two definition files. -/
def exceptFirst : Options :=
  { Options.default with paths := ["x"], excludes := ["x/a*"] }

theorem run_repeats_of_plannedBefore :
    (plannedBefore.WellFormed ∧ exceptFirst.clean = [] ∧
        ∀ crash, (run plannedBefore "/w".toList "/w".toList exceptFirst).ending ≠ .crashed crash) ∧
      run (run plannedBefore "/w".toList "/w".toList exceptFirst).fs "/w".toList "/w".toList
        exceptFirst = run plannedBefore "/w".toList "/w".toList exceptFirst := by
  have hfs : plannedBefore.WellFormed := by
    decide
  have hending : (run plannedBefore "/w".toList "/w".toList exceptFirst).ending = .finished := by
    decide +kernel
  have hregular : ∀ crash,
      (run plannedBefore "/w".toList "/w".toList exceptFirst).ending ≠ .crashed crash := by
    intro crash
    rw [hending]
    exact Ending.noConfusion
  have hpaths : ∀ path ∈ exceptFirst.paths,
      plannedBefore.isDirectory "/w".toList (Path.join "/w".toList path.toList) = true := by
    intro path hpath
    rw [List.mem_singleton.1 hpath]
    decide +kernel
  -- Its exclusion does not go up, so nothing else has to be known of it.
  rcases (run_repeats plannedBefore "/w".toList "/w".toList exceptFirst hfs rfl hpaths
    hregular).2 (by
      intro exclusion hexclusion _ hup
      rw [List.mem_singleton.1 hexclusion] at hup
      exact absurd hup (by decide)) with ⟨-, -, -, hagain⟩
  exact ⟨⟨hfs, rfl, hregular⟩, hagain⟩

/-- Two directories, one of them with two definition files. -/
def besideDefinitions : FileSystem where
  entries := [
    (["w".toList], .directory),
    (["w".toList, "d".toList], .directory),
    (["w".toList, "x".toList], .directory),
    (["w".toList, "x".toList, "a.conjure.json".toList],
      .file (Utf8.encode (Document.encode [⟨"A", none, []⟩]).render)),
    (["w".toList, "x".toList, "b.conjure.json".toList],
      .file (Utf8.encode (Document.encode [⟨"B", none, []⟩]).render))]

/-- Settings that exclude a definition file by a pattern, and write the plans into a
    directory with the name that the pattern begins with. -/
def intoPattern : Options :=
  { Options.default with
    paths := ["d/../x"], excludes := ["[d]/../x/a.conjure.json"], outputDir := some "[d]" }

/-- A second run with the same settings can find other definition files. -/
theorem exists_run_not_repeated :
    ¬ ∀ (fs : FileSystem) (cwd root : Path) (o : Options), fs.WellFormed → o.clean = [] →
      (∀ path ∈ o.paths, fs.isDirectory cwd (Path.join root path.toList) = true) →
        (run fs cwd root o).ending = .finished →
          (run (run fs cwd root o).fs cwd root o).fs = (run fs cwd root o).fs := by
  intro h
  have hpaths : ∀ path ∈ intoPattern.paths,
      besideDefinitions.isDirectory "/w".toList (Path.join "/w".toList path.toList) = true := by
    intro path hpath
    rw [List.mem_singleton.1 hpath]
    decide +kernel
  -- The first run makes the directory that the pattern begins with.
  have hsame := h besideDefinitions "/w".toList "/w".toList intoPattern (by decide) rfl hpaths
    (by decide +kernel)
  exact absurd hsame (by decide +kernel)

end Generation

end ClientPlan
