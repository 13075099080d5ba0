import ClientPlan.Proofs.Generation.Effect
import ClientPlan.Proofs.Generation.Files
import ClientPlan.Proofs.Path.Below
import ClientPlan.Proofs.Planning.Positions

/-!
# Where Plans Are Written

The files that a run can change, by the names of services.

A plan file is found by going along the name of its service from a directory: that
of the definition file, or one below the output directory. A name is a path like any
other. If it never climbs above where it starts, the file is in or below that
directory; a name that starts at the root has nothing to do with it, and a name that
goes up leaves it. No other file is changed, whether a run finishes or not.

## Main definitions

* `Placed`: Where the plan file of an output is.

## Theorems

* `address_file_of_relative`, `address_file_of_inward`: The file of a name in a
  directory, and of one that stays below it.
* `exists_address_directory`: The directory of a plan is below the output directory.
* `placed_of_mem_outputs`: Every output is placed by its name.
* `writePlan_file`, `writeAll_file`, `removeAll_file`: The files after each stage,
  whether it succeeds or not.
* `run_fs`: The stages of a run, by the files that they leave behind.
* `run_files_placed`: The files after a run.
* `exists_run_file_outside`: A run can write outside its output directory.
-/

namespace ClientPlan

namespace Output

/-- A name that does not start at the root is followed from its directory. -/
theorem address_file_of_relative (cwd dir name : Path) (h : Path.isAbsolute name = false) :
    Path.address cwd (Path.join dir name ++ ending) =
      (Path.segments (name ++ ending)).foldl Path.further (Path.address cwd dir) := by
  have hending : Path.isAbsolute ending = false := by decide
  rw [Path.join_append dir name ending h hending, Path.address_join cwd dir _
    (Path.isAbsolute_append_of_not name ending h hending)]

/-- A name that never climbs above its directory leads to a file below it. -/
theorem address_file_of_inward (cwd dir name : Path) (h : Path.Inward name) :
    Path.address cwd (Path.join dir name ++ ending) =
      Path.address cwd dir ++ Path.normalSegments false (Path.segments (Path.directory name)) ++
        [Path.lastName name ++ ending] := by
  have hslash : '/' ∉ ending := by decide
  have hlast : Path.lastName name ++ ending ≠ [] :=
    List.append_ne_nil_of_right_ne_nil _ (by decide)
  have hno : '/' ∉ Path.lastName name ++ ending := by
    rw [List.mem_append, not_or]
    exact ⟨Path.slash_notMem_lastName name, hslash⟩
  -- The names of the file are those of the name's directory, and a last one.
  have hnames : Path.names (name ++ ending) =
      Path.names (Path.directory name) ++ [Path.lastName name ++ ending] := by
    rw [Path.names_directory_append_lastName, Path.directory_append name ending hslash,
      Path.lastName_append name ending hslash, Path.names_of_no_slash _ hno, if_neg hlast]
  rw [address_file_of_relative cwd dir name h.1, ← Path.foldl_further_filter, ← Path.names, hnames,
    List.foldl_append, Path.names, Path.foldl_further_filter,
    Path.foldl_further_of_notMem_up _ _ h.2]
  exact further_ending _ _

/-- What the directories of some sources have in common begins the address of each. -/
theorem commonNames_prefix_address (cwd source : Path) (sources : List Path)
    (hcwd : Path.isAbsolute cwd = true) (hsource : source ∈ sources) :
    Path.commonNames (sources.map fun p => Path.absolute cwd (Path.directory p)) <+:
      Path.address cwd (Path.directory source) := by
  have hmem : Path.absolute cwd (Path.directory source) ∈
      sources.map fun p => Path.absolute cwd (Path.directory p) :=
    List.mem_map_of_mem hsource
  have hbegins := Path.commonNames_prefix _ _ hmem
  rwa [Path.names_absolute cwd _ hcwd] at hbegins

/-- The directory of a plan is the output directory, or one below it. -/
theorem exists_address_directory (cwd outputDir source : Path) (sources : List Path)
    (hcwd : Path.isAbsolute cwd = true) (hsource : source ∈ sources) (hdir : outputDir ≠ []) :
    ∃ sub, Path.address cwd (directory cwd outputDir (Generation.commonBase cwd sources) source) =
      Path.address cwd outputDir ++ sub := by
  unfold directory
  rw [if_neg hdir]
  rcases hbase : Generation.commonBase cwd sources with _ | base
  · exact ⟨[], (List.append_nil _).symm⟩
  simp only
  split
  · exact ⟨[], (List.append_nil _).symm⟩
  · -- What the directories have in common begins that of the source, so no step goes up.
    have hbegins := commonNames_prefix_address cwd source sources hcwd hsource
    have hstep := fun name hname =>
      Path.isStep_of_mem_address cwd (Path.directory source) name (hbegins.subset hname)
    rw [← Path.address_commonDirectory cwd base _ hbase hstep] at hbegins
    rcases Path.descends_directory_relative cwd source base hcwd hbegins with ⟨hrelative, hdown⟩
    refine ⟨Path.names (Path.directory (Path.relative cwd (Path.absolute cwd source) base)), ?_⟩
    rw [Path.address_join cwd outputDir _ hrelative, ← Path.foldl_further_filter, ← Path.names,
      Path.foldl_further_of_isStep _ _ hdown]

end Output

namespace Generation

/-- Where the plan file of an output is. -/
structure Placed (cwd : Path) (o : Options) (out : Output) : Prop where
  /-- A name that starts at the root is the path of its file. -/
  rooted : Path.isAbsolute out.planned.name.toList = true →
    out.file = out.planned.name.toList ++ Output.ending
  /-- Any other name is followed from the directory of the definition file, or from
      one in or below the output directory. -/
  followed : Path.isAbsolute out.planned.name.toList = false →
    ∃ dir, (o.outputPath = [] → dir = Path.address cwd (Path.directory out.planned.source)) ∧
      (o.outputPath ≠ [] → Path.address cwd o.outputPath <+: dir) ∧
      Path.address cwd out.file =
        (Path.segments (out.planned.name.toList ++ Output.ending)).foldl Path.further dir
  /-- Without an output directory, a name that does not climb stays in or below the
      directory of the definition file. -/
  beside : Path.Inward out.planned.name.toList → o.outputPath = [] →
    Path.address cwd out.file = Path.address cwd (Path.directory out.planned.source) ++
      Path.normalSegments false (Path.segments (Path.directory out.planned.name.toList)) ++
      [Path.lastName out.planned.name.toList ++ Output.ending]
  /-- A name without slashes is a file in that directory. -/
  plain : '/' ∉ out.planned.name.toList → o.outputPath = [] →
    Path.address cwd out.file = Path.address cwd (Path.directory out.planned.source) ++
      [out.planned.name.toList ++ Output.ending]
  /-- With an output directory, a name that does not climb stays in or below it. -/
  below : Path.Inward out.planned.name.toList → o.outputPath ≠ [] →
    ∃ sub, Path.address cwd out.file = Path.address cwd o.outputPath ++ sub ++
      [Path.lastName out.planned.name.toList ++ Output.ending]

theorem placed_of_mem_outputs (cwd : Path) (o : Options) (sources : List Path)
    (planned : List PlannedService) (out : Output) (hcwd : Path.isAbsolute cwd = true)
    (h : out ∈ Output.outputs (Output.assign cwd o.outputPath (commonBase cwd sources) planned))
    (hsource : out.planned.source ∈ sources) : Placed cwd o out := by
  have hpath := (Output.mem_outputs_assignAfter planned [] out h).2
  rw [Output.pathOf] at hpath
  -- The file is found by going along the name from the directory of the output.
  have hfile : out.file = Path.join (Output.directory cwd o.outputPath (commonBase cwd sources)
      out.planned.source) out.planned.name.toList ++ Output.ending := by
    rw [Output.file, hpath]
  have hbeside : ∀ hdir : o.outputPath = [], Output.directory cwd o.outputPath
      (commonBase cwd sources) out.planned.source = Path.directory out.planned.source :=
    fun hdir => if_pos hdir
  constructor
  case rooted =>
    intro habsolute
    rw [hfile, Path.join, if_pos habsolute]
  case followed =>
    intro hrelative
    refine ⟨_, ?_, ?_, by rw [hfile, Output.address_file_of_relative cwd _ _ hrelative]⟩
    · intro hdir
      rw [hbeside hdir]
    · intro hdir
      rcases Output.exists_address_directory cwd o.outputPath out.planned.source sources hcwd
        hsource hdir with ⟨sub, hsub⟩
      rw [hsub]
      exact List.prefix_append _ sub
  case beside =>
    intro hinward hdir
    rw [hfile, Output.address_file_of_inward cwd _ _ hinward, hbeside hdir]
  case plain =>
    intro hslash hdir
    rcases Path.inward_of_no_slash _ hslash with ⟨hinward, hnil⟩
    rw [hfile, Output.address_file_of_inward cwd _ _ hinward, hbeside hdir, hnil,
      List.append_nil, Path.lastName_of_no_slash _ hslash]
  case below =>
    intro hinward hdir
    rcases Output.exists_address_directory cwd o.outputPath out.planned.source sources hcwd hsource
      hdir with ⟨sub, hsub⟩
    rw [hfile, Output.address_file_of_inward cwd _ _ hinward, hsub]
    exact ⟨_, by rw [List.append_assoc (Path.address cwd o.outputPath)]⟩

/-- A file that is there after a plan was written, or could not be written, has been
    there before or is the plan file. -/
theorem writePlan_file (fs : FileSystem) (cwd : Path) (out : Output) (b : Address)
    (content : List UInt8) (h : (writePlan fs cwd out).1.at? b = some (.file content)) :
    fs.at? b = some (.file content) ∨
      (b = Path.address cwd out.file ∧ content = out.planned.plan.bytes) := by
  rcases writePlan_entry fs cwd out b with hsame | ⟨-, hdirectory⟩ | ⟨haddress, hfile⟩
  · exact Or.inl (hsame.symm.trans h)
  · rw [hdirectory] at h
    cases h
  · rw [hfile] at h
    cases h
    exact Or.inr ⟨haddress.symm, rfl⟩

theorem writeAll_file (fs : FileSystem) (cwd : Path) (outputs : List Output) (b : Address)
    (content : List UInt8) (h : (writeAll fs cwd outputs).1.at? b = some (.file content)) :
    fs.at? b = some (.file content) ∨
      ∃ out ∈ outputs, b = Path.address cwd out.file ∧ content = out.planned.plan.bytes := by
  induction outputs generalizing fs with
  | nil => exact Or.inl h
  | cons out outputs ih =>
      rw [writeAll] at h
      have hfirst := writePlan_file fs cwd out b content
      rcases hwrite : writePlan fs cwd out with ⟨next, _ | fault⟩
      · rw [hwrite] at hfirst
        simp only [hwrite] at h
        -- The file comes from a later plan, from this one, or from before.
        rcases ih next h with hbefore | ⟨other, hother, hb, hcontent⟩
        · rcases hfirst hbefore with hbefore | ⟨hb, hcontent⟩
          · exact Or.inl hbefore
          · exact Or.inr ⟨out, List.mem_cons_self, hb, hcontent⟩
        · exact Or.inr ⟨other, List.mem_cons_of_mem out hother, hb, hcontent⟩
      · rw [hwrite] at hfirst
        simp only [hwrite] at h
        rcases hfirst h with hbefore | ⟨hb, hcontent⟩
        · exact Or.inl hbefore
        · exact Or.inr ⟨out, List.mem_cons_self, hb, hcontent⟩

/-- Removing files leaves no new ones behind. -/
theorem removeAll_file (fs : FileSystem) (cwd : Path) (paths : List Path) (b : Address)
    (entry : Entry) (h : (removeAll fs cwd paths).1.at? b = some entry) :
    fs.at? b = some entry := by
  induction paths generalizing fs with
  | nil => exact h
  | cons p paths ih =>
      rw [removeAll] at h
      rcases hremove : fs.remove cwd p with fault | next
      · rwa [hremove] at h
      · rw [hremove] at h
        have hnext := ih next h
        -- One entry is gone, and all others are as they were.
        rcases FileSystem.remove_eq_ok fs next cwd p hremove with ⟨hne, rfl, -⟩
        rw [FileSystem.at?_erase fs _ b hne] at hnext
        split at hnext
        · cases hnext
        · exact hnext

/-- A plan that comes from a definition file is that of a service in it. -/
theorem exists_services_of_mem_plansIn (fs : FileSystem) (cwd source : Path) (p : PlannedService)
    (h : p ∈ plansIn fs cwd source) :
    p.source = source ∧ ∃ services, Document.load fs cwd source = .ok services ∧
      p.plan.service ∈ services := by
  unfold plansIn at h
  rcases hload : Document.load fs cwd source with failure | services
  · rw [hload] at h
    cases h
  · rw [hload] at h
    rcases List.mem_filterMap.1 h with ⟨s, hs, hplan⟩
    rcases hservice : s.plan with error | plan
    · rw [hservice] at hplan
      cases hplan
    · rw [hservice] at hplan
      cases hplan
      refine ⟨rfl, services, rfl, ?_⟩
      -- A plan keeps the service that it was made for.
      rw [s.service_of_plan plan hservice]
      exact hs

theorem finish_fs (fs : FileSystem) (cwd : Path) (keepGoing : Bool) (d : Decision) :
    (finish fs cwd keepGoing d).fs = fs ∨
      (finish fs cwd keepGoing d).fs = (writeAll fs cwd d.outputs).1 := by
  unfold finish
  split
  · exact Or.inl rfl
  · rcases writeAll fs cwd d.outputs with ⟨written, log, _ | fault⟩
    · exact Or.inr rfl
    · exact Or.inr rfl

/-- The stages behind the search leave the file system alone, or write outputs. -/
theorem generate_fs (fs : FileSystem) (cwd : Path) (o : Options) (sources : List Path) :
    (generate fs cwd o sources).fs = fs ∨ (generate fs cwd o sources).fs =
      (writeAll fs cwd (Output.outputs (assignments fs cwd o sources))).1 := by
  rcases hcrash : (survey fs cwd sources).crash with _ | crash
  · have houtputs : (settle cwd o.outputPath sources (survey fs cwd sources)).outputs =
        Output.outputs (assignments fs cwd o sources) := by
      simp only [settle, (survey_eq_flatMap fs cwd sources hcrash).1, assignments]
    simp only [generate, hcrash, ← houtputs]
    exact finish_fs fs cwd o.keepGoing _
  · simp only [generate, hcrash]
    exact Or.inl trivial

/-- A run stops while or after it cleans up, or leaves the rest to the later stages. -/
theorem run_fs (fs : FileSystem) (cwd root : Path) (o : Options) :
    (∃ obsolete, (run fs cwd root o).fs = (removeAll fs cwd obsolete).1) ∨
      ∃ obsolete cleaned sources, removeAll fs cwd obsolete = (cleaned, none) ∧
        Discovery.discover ⟨cleaned, cwd, o.recursive⟩ root (o.paths.map String.toList)
          (o.excludes.map String.toList) = .ok sources ∧
        (run fs cwd root o).fs = (generate cleaned cwd o sources).fs := by
  unfold run
  rcases cleanPaths ⟨fs, cwd, o.recursive⟩ root (o.clean.map String.toList) with fault | obsolete
  · exact Or.inl ⟨[], rfl⟩
  -- If the clean-up or the search fails, nothing but the clean-up has happened.
  rcases hremove : removeAll fs cwd obsolete with ⟨cleaned, _ | fault⟩
  · rcases hdiscover : Discovery.discover ⟨cleaned, cwd, o.recursive⟩ root
      (o.paths.map String.toList) (o.excludes.map String.toList) with fault | sources
    · exact Or.inl ⟨obsolete, by simp only [hremove, hdiscover]⟩
    · exact Or.inr ⟨obsolete, cleaned, sources, hremove, hdiscover,
        by simp only [hremove, hdiscover]⟩
  · exact Or.inl ⟨obsolete, by simp only [hremove]⟩

/-- An output comes from a service in one of the definition files. -/
theorem exists_service_of_mem_outputs (fs : FileSystem) (cwd : Path) (o : Options)
    (sources : List Path) (out : Output)
    (h : out ∈ Output.outputs (assignments fs cwd o sources)) :
    out.planned.source ∈ sources ∧ ∃ services,
      Document.load fs cwd out.planned.source = .ok services ∧
        out.planned.plan.service ∈ services := by
  rcases List.mem_flatMap.1 (Output.mem_outputs_assignAfter _ [] out h).1 with
    ⟨source, hsource, hplan⟩
  rcases exists_services_of_mem_plansIn fs cwd source _ hplan with ⟨rfl, hservices⟩
  exact ⟨hsource, hservices⟩

/-- Whether or not a run finishes, a file that is there afterwards was there before,
    or it is the plan file of a service in a definition file that was found, in the
    place that the name of the service says. -/
theorem run_files_placed (fs : FileSystem) (cwd root : Path) (o : Options)
    (hcwd : Path.isAbsolute cwd = true) (b : Address) (content : List UInt8)
    (h : (run fs cwd root o).fs.at? b = some (.file content)) :
    fs.at? b = some (.file content) ∨
      ∃ obsolete cleaned sources out services,
        removeAll fs cwd obsolete = (cleaned, none) ∧
        Discovery.discover ⟨cleaned, cwd, o.recursive⟩ root (o.paths.map String.toList)
          (o.excludes.map String.toList) = .ok sources ∧
        out ∈ Output.outputs (assignments cleaned cwd o sources) ∧
        out.planned.source ∈ sources ∧
        Document.load cleaned cwd out.planned.source = .ok services ∧
        out.planned.plan.service ∈ services ∧
        b = Path.address cwd out.file ∧ content = out.planned.plan.bytes ∧
        Placed cwd o out := by
  rcases run_fs fs cwd root o with ⟨obsolete, hfs⟩ |
    ⟨obsolete, cleaned, sources, hremove, hdiscover, hfs⟩
  · rw [hfs] at h
    exact Or.inl (removeAll_file fs cwd obsolete b _ h)
  -- Whatever is left after the clean-up was there before.
  have hremoved := removeAll_file fs cwd obsolete b (.file content)
  rw [hremove] at hremoved
  rw [hfs] at h
  rcases generate_fs cleaned cwd o sources with hsame | hwritten
  · rw [hsame] at h
    exact Or.inl (hremoved h)
  · rw [hwritten] at h
    rcases writeAll_file cleaned cwd _ b content h with hbefore | ⟨out, hout, hb, hcontent⟩
    · exact Or.inl (hremoved hbefore)
    · rcases exists_service_of_mem_outputs cleaned cwd o sources out hout with
        ⟨hsource, services, hload, hservice⟩
      have hplaced := placed_of_mem_outputs cwd o sources _ out hcwd hout hsource
      exact Or.inr ⟨obsolete, cleaned, sources, out, services, hremove, hdiscover, hout, hsource,
        hload, hservice, hb, hcontent, hplaced⟩

/-- A directory with a definition file that declares two services. The name of the
    second one goes up. -/
def climbing : FileSystem where
  entries := [
    (["w".toList], .directory),
    (["w".toList, "defs".toList], .directory),
    (["w".toList, "defs".toList, "a.conjure.json".toList],
      .file (Utf8.encode (Document.encode [⟨"Store", none, []⟩, ⟨"../Store", none, []⟩]).render))]

/-- The settings for planning one directory and writing to another one. -/
def intoPlans : Options :=
  { Options.default with paths := ["defs"], outputDir := some "plans" }

theorem run_files_placed_of_climbing :
    Path.isAbsolute "/w".toList = true ∧
      (run climbing "/w".toList "/w".toList intoPlans).fs.at?
        ["w".toList, "plans".toList, "Store.plan.json".toList] =
          some (.file (ServicePlan.mk ⟨"Store", none, []⟩ []).bytes) ∧
      ∃ obsolete cleaned sources out services,
        removeAll climbing "/w".toList obsolete = (cleaned, none) ∧
        Discovery.discover ⟨cleaned, "/w".toList, false⟩ "/w".toList ["defs".toList] [] =
          .ok sources ∧
        out ∈ Output.outputs (assignments cleaned "/w".toList intoPlans sources) ∧
        out.planned.source ∈ sources ∧
        Document.load cleaned "/w".toList out.planned.source = .ok services ∧
        out.planned.plan.service ∈ services ∧
        ["w".toList, "plans".toList, "Store.plan.json".toList] =
          Path.address "/w".toList out.file ∧
        (ServicePlan.mk ⟨"Store", none, []⟩ []).bytes = out.planned.plan.bytes ∧
        Placed "/w".toList intoPlans out := by
  have hafter : (run climbing "/w".toList "/w".toList intoPlans).fs.at?
      ["w".toList, "plans".toList, "Store.plan.json".toList] =
        some (.file (ServicePlan.mk ⟨"Store", none, []⟩ []).bytes) := by
    decide +kernel
  refine ⟨by decide, hafter, ?_⟩
  rcases run_files_placed climbing "/w".toList "/w".toList intoPlans (by decide) _ _ hafter with
    hbefore | hplaced
  · exact absurd hbefore (by decide +kernel)
  · exact hplaced

/-- A run with an output directory can write a file that is not below it. -/
theorem exists_run_file_outside :
    ¬ ∀ (fs : FileSystem) (cwd root : Path) (o : Options) (b : Address) (content : List UInt8),
      Path.isAbsolute cwd = true → o.outputPath ≠ [] →
        (run fs cwd root o).fs.at? b = some (.file content) →
          fs.at? b = some (.file content) ∨ Path.address cwd o.outputPath <+: b := by
  intro h
  -- The name climbs out of the output directory.
  have hafter : (run climbing "/w".toList "/w".toList intoPlans).fs.at?
      ["w".toList, "Store.plan.json".toList] =
        some (.file (ServicePlan.mk ⟨"../Store", none, []⟩ []).bytes) := by
    decide +kernel
  rcases h climbing "/w".toList "/w".toList intoPlans _ _ (by decide) (by decide) hafter with
    hbefore | hbelow
  · exact absurd hbefore (by decide +kernel)
  · exact absurd hbelow (by decide)

end Generation

end ClientPlan
