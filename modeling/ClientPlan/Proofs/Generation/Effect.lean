import ClientPlan.CommandLine.Program
import ClientPlan.Document.ToJson
import ClientPlan.Proofs.Generation.Removal
import ClientPlan.Proofs.Generation.Writing

/-!
# The Effect of a Run

What a run does to the file system, and how it ends.

The stages of a run hand their results on, so what each of them contributes can be
said without the others: what is cleaned up, which definition files are found in
what is left, which plans and failures these files give, and which files the
plans are written to. Only the last stage looks at whether anything has failed.
If nothing ends the run early, `run_effect` puts these together: either nothing
is touched but what was cleaned up, or exactly the plan files are written, and
the exit code tells whether anything has failed.

## Main definitions

* `plansIn`, `failuresIn`: What one definition file gives.
* `assignments`: What becomes of the plans of some definition files.
* `failures`: All failures of a run.
* `Effect`: What a run does that nothing ends early.

## Theorems

* `survey_eq_flatMap`: The survey puts together what each file gives.
* `settle_survey`: What is decided on when the files are surveyed.
* `finish_effect`: The stage that writes or does not.
* `run_eq_generate`: The stages before the definition files are read.
* `run_effect`: The whole run.
-/

namespace ClientPlan

namespace Generation

/-- The plans of the services in one definition file. -/
def plansIn (fs : FileSystem) (cwd source : Path) : List PlannedService :=
  match Document.load fs cwd source with
  | .ok services => plannedOf source services
  | .error _ => []

/-- The failures in one definition file: that of loading it, or those of the
    endpoints in it. -/
def failuresIn (fs : FileSystem) (cwd source : Path) : List Failure :=
  match Document.load fs cwd source with
  | .ok services => failuresOf source services
  | .error (.definition error) => [.load error]
  | .error _ => []

/-- Whether loading a definition file ends with its services or with a report on
    it. -/
def LoadsOrReports (fs : FileSystem) (cwd source : Path) : Prop :=
  (∃ services, Document.load fs cwd source = .ok services) ∨
    ∃ error, Document.load fs cwd source = .error (.definition error)

/-- What becomes of the plans of some definition files. -/
def assignments (fs : FileSystem) (cwd : Path) (o : Options) (sources : List Path) :
    List Assignment :=
  Output.assign cwd o.outputPath (commonBase cwd sources) (sources.flatMap (plansIn fs cwd))

/-- The failures in some definition files, and then the collisions of their
    plans. -/
def failures (fs : FileSystem) (cwd : Path) (o : Options) (sources : List Path) :
    List Failure :=
  sources.flatMap (failuresIn fs cwd) ++
    (Output.collisions (assignments fs cwd o sources)).map Failure.collision

/-- A survey that nothing has ended puts together what each file gives. -/
theorem survey_eq_flatMap (fs : FileSystem) (cwd : Path) (sources : List Path)
    (h : (survey fs cwd sources).crash = none) :
    (survey fs cwd sources).planned = sources.flatMap (plansIn fs cwd) ∧
      (survey fs cwd sources).failures = sources.flatMap (failuresIn fs cwd) ∧
      ∀ source ∈ sources, LoadsOrReports fs cwd source := by
  induction sources with
  | nil => exact ⟨rfl, rfl, fun _ hsource => by cases hsource⟩
  | cons source sources ih =>
      simp only [survey] at h ⊢
      simp only [List.flatMap_cons, List.forall_mem_cons, plansIn, failuresIn, LoadsOrReports]
      -- A file adds its own results in front, or ends the survey.
      rcases hload : Document.load fs cwd source with (error | _ | count) | services
      · simp only [hload] at h
        rcases ih h with ⟨hplanned, hfailures, hload'⟩
        refine ⟨hplanned, ?_, Or.inr ⟨error, rfl⟩, hload'⟩
        simp only [Survey.withError, hfailures, List.singleton_append]
      · simp only [hload, reduceCtorEq] at h
      · simp only [hload, reduceCtorEq] at h
      · simp only [hload] at h
        rcases ih h with ⟨hplanned, hfailures, hload'⟩
        refine ⟨?_, ?_, Or.inl ⟨services, rfl⟩, hload'⟩
        · simp only [Survey.withServices, hplanned]
        · simp only [Survey.withServices, hfailures]

/-- What is decided on depends on the plans and failures of each file alone. -/
theorem settle_survey (fs : FileSystem) (cwd : Path) (o : Options) (sources : List Path)
    (h : (survey fs cwd sources).crash = none) :
    settle cwd o.outputPath sources (survey fs cwd sources) =
      ⟨Output.outputs (assignments fs cwd o sources), failures fs cwd o sources,
        ((Output.collisions (assignments fs cwd o sources)).map Failure.collision).map
          Failure.logEntry⟩ := by
  rcases survey_eq_flatMap fs cwd sources h with ⟨hplanned, hfailures, -⟩
  simp only [settle, hplanned, hfailures, assignments, failures]

/-- The last stage writes all plans or leaves the file system alone. -/
theorem finish_effect (fs : FileSystem) (cwd : Path) (keepGoing : Bool) (d : Decision)
    (h : ∀ crash, (finish fs cwd keepGoing d).ending ≠ .crashed crash) :
    (d.failures ≠ [] → keepGoing = false → (finish fs cwd keepGoing d).fs = fs) ∧
      (d.failures = [] ∨ keepGoing = true →
        Written cwd fs (finish fs cwd keepGoing d).fs d.outputs) ∧
      (finish fs cwd keepGoing d).ending = endingOf d.failures keepGoing := by
  unfold finish at h ⊢
  -- Writing is reached exactly if nothing has failed or failures do not stop it.
  by_cases hstop : d.failures ≠ [] ∧ (!keepGoing) = true
  · simp only [if_pos hstop]
    rw [Bool.not_eq_true'] at hstop
    refine ⟨fun _ _ => trivial, ?_, by rw [endingOf, if_neg hstop.1]⟩
    rintro (hnone | hgo)
    · exact absurd hnone hstop.1
    · rw [hstop.2] at hgo
      cases hgo
  · simp only [if_neg hstop] at h ⊢
    rcases hwrite : writeAll fs cwd d.outputs with ⟨fs', log, _ | fault⟩
    · refine ⟨?_, fun _ => writeAll_written fs fs' cwd d.outputs log hwrite, rfl⟩
      intro hfailed hstopped
      exact absurd ⟨hfailed, by rw [hstopped, Bool.not_false]⟩ hstop
    · rw [hwrite] at h
      exact absurd rfl (h (.files fault))

/-- The stages before the definition files are read. -/
theorem run_eq_generate (fs : FileSystem) (cwd root : Path) (o : Options)
    (h : ∀ crash, (run fs cwd root o).ending ≠ .crashed crash) :
    ∃ obsolete cleaned sources,
      cleanPaths ⟨fs, cwd, o.recursive⟩ root (o.clean.map String.toList) = .ok obsolete ∧
      removeAll fs cwd obsolete = (cleaned, none) ∧
      Discovery.discover ⟨cleaned, cwd, o.recursive⟩ root (o.paths.map String.toList)
        (o.excludes.map String.toList) = .ok sources ∧
      run fs cwd root o = generate cleaned cwd o sources := by
  unfold run at h ⊢
  -- Each stage either ends the run or hands its result to the next one.
  rcases hclean : cleanPaths ⟨fs, cwd, o.recursive⟩ root (o.clean.map String.toList)
    with fault | obsolete
  · rw [hclean] at h
    exact absurd rfl (h (.files fault))
  rcases hremove : removeAll fs cwd obsolete with ⟨cleaned, _ | fault⟩
  · rcases hdiscover : Discovery.discover ⟨cleaned, cwd, o.recursive⟩ root
      (o.paths.map String.toList) (o.excludes.map String.toList) with fault | sources
    · simp only [hclean, hremove, hdiscover] at h
      exact absurd rfl (h (.files fault))
    · refine ⟨obsolete, cleaned, sources, rfl, hremove, hdiscover, ?_⟩
      simp only [hremove, hdiscover]
  · simp only [hclean, hremove] at h
    exact absurd rfl (h (.files fault))

/-- The stages behind the search for definition files. -/
theorem generate_effect (fs : FileSystem) (cwd : Path) (o : Options) (sources : List Path)
    (h : ∀ crash, (generate fs cwd o sources).ending ≠ .crashed crash) :
    (∀ source ∈ sources, LoadsOrReports fs cwd source) ∧
      (failures fs cwd o sources ≠ [] → o.keepGoing = false →
        (generate fs cwd o sources).fs = fs) ∧
      (failures fs cwd o sources = [] ∨ o.keepGoing = true →
        Written cwd fs (generate fs cwd o sources).fs
          (Output.outputs (assignments fs cwd o sources))) ∧
      (generate fs cwd o sources).ending = endingOf (failures fs cwd o sources) o.keepGoing := by
  -- A survey that is ended early ends the run, and this one goes on.
  rcases hcrash : (survey fs cwd sources).crash with _ | crash
  · have hloads := (survey_eq_flatMap fs cwd sources hcrash).2.2
    simp only [generate, hcrash, settle_survey fs cwd o sources hcrash] at h ⊢
    exact ⟨hloads, finish_effect fs cwd o.keepGoing _ h⟩
  · simp only [generate, hcrash] at h
    exact absurd rfl (h crash)

/-- A run that nothing has ended early, in terms of what the clean-up was asked
    for, what was left after it, and the definition files that were found. -/
structure Effect (fs : FileSystem) (cwd root : Path) (o : Options) (obsolete : List Path)
    (cleaned : FileSystem) (sources : List Path) : Prop where
  /-- The clean-up takes what it is asked for. -/
  asked : ∀ p, p ∈ obsolete ↔
    Obsolete ⟨fs, cwd, o.recursive⟩ root (o.clean.map String.toList) p
  removed : Removed cwd fs cleaned obsolete
  /-- The definition files are looked for in what is left. -/
  discovered : Discovery.discover ⟨cleaned, cwd, o.recursive⟩ root (o.paths.map String.toList)
    (o.excludes.map String.toList) = .ok sources
  ascending : Discovery.Ascending sources
  loaded : ∀ source ∈ sources, LoadsOrReports cleaned cwd source
  /-- After a failure nothing else is done, unless the run was asked to keep
      going. -/
  untouched : failures cleaned cwd o sources ≠ [] → o.keepGoing = false →
    (run fs cwd root o).fs = cleaned
  /-- Otherwise the plans that have a file are written. -/
  written : failures cleaned cwd o sources = [] ∨ o.keepGoing = true →
    Written cwd cleaned (run fs cwd root o).fs (Output.outputs (assignments cleaned cwd o sources))
  ending : (run fs cwd root o).ending = endingOf (failures cleaned cwd o sources) o.keepGoing
  /-- A call that starts the run leaves the same files behind and tells by its
      exit code whether anything has failed. -/
  exit : ∀ words, root = cwd → CommandLine.parse words = .ok o →
    (CommandLine.execute fs cwd words).fs = (run fs cwd root o).fs ∧
      (CommandLine.execute fs cwd words).exit =
        .code (if failures cleaned cwd o sources = [] then 0 else 1)

/-- A run that nothing ends early has the effect that its stages have one by
    one. -/
theorem run_effect (fs : FileSystem) (cwd root : Path) (o : Options)
    (h : ∀ crash, (run fs cwd root o).ending ≠ .crashed crash) :
    ∃ obsolete cleaned sources, Effect fs cwd root o obsolete cleaned sources := by
  rcases run_eq_generate fs cwd root o h with
    ⟨obsolete, cleaned, sources, hclean, hremove, hdiscover, hrun⟩
  rw [hrun] at h
  rcases generate_effect cleaned cwd o sources h with ⟨hloads, huntouched, hwritten, hending⟩
  -- What holds of the last stage holds of the run, which ends as it does.
  rw [← hrun] at huntouched hwritten hending
  refine ⟨obsolete, cleaned, sources, ?_⟩
  constructor
  · exact mem_cleanPaths _ root _ obsolete hclean
  · exact removeAll_removed fs cleaned cwd obsolete hremove
  · exact hdiscover
  · exact Discovery.discover_ascending _ root _ _ sources hdiscover
  · exact hloads
  · exact huntouched
  · exact hwritten
  · exact hending
  · rintro words rfl hparse
    -- A command only adds its exit code to the ending.
    rw [CommandLine.execute, hparse]
    refine ⟨rfl, ?_⟩
    simp only [hending, endingOf]
    split <;> rfl

/-- A directory with two definition files, one of them cut off, and an old plan
    file. -/
def twoDefinitions : FileSystem where
  entries := [
    (["w".toList], .directory),
    (["w".toList, "a.conjure.json".toList],
      .file (Utf8.encode (Document.encode [⟨"Store", some "shop", []⟩]).render)),
    (["w".toList, "b.conjure.json".toList], .file (Utf8.encode ['['])),
    (["w".toList, "old.plan.json".toList], .file [])]

/-- The settings for planning everything in the directory that can be planned. -/
def keepGoingHere : Options :=
  { Options.default with clean := ["old.plan.json"], paths := ["."], keepGoing := true }

/-- The old plan file is removed, the plan of the service is written, and the run ends with
    the report on the file that is cut off. -/
theorem run_effect_of_twoDefinitions :
    (∀ crash, (run twoDefinitions "/w".toList "/w".toList keepGoingHere).ending ≠ .crashed crash) ∧
      (∃ obsolete cleaned sources,
        Effect twoDefinitions "/w".toList "/w".toList keepGoingHere obsolete cleaned sources) ∧
      (run twoDefinitions "/w".toList "/w".toList keepGoingHere).ending =
        .failed [.load ⟨some "/w/b.conjure.json".toList, .noJson ['['] .value 1⟩] true ∧
      (run twoDefinitions "/w".toList "/w".toList keepGoingHere).fs.at?
        ["w".toList, "old.plan.json".toList] = none ∧
      (run twoDefinitions "/w".toList "/w".toList keepGoingHere).fs.at?
        ["w".toList, "Store.plan.json".toList] =
          some (.file (ServicePlan.mk ⟨"Store", some "shop", []⟩ []).bytes) := by
  have hending : (run twoDefinitions "/w".toList "/w".toList keepGoingHere).ending =
      .failed [.load ⟨some "/w/b.conjure.json".toList, .noJson ['['] .value 1⟩] true := by
    decide +kernel
  have hregular : ∀ crash,
      (run twoDefinitions "/w".toList "/w".toList keepGoingHere).ending ≠ .crashed crash := by
    intro crash
    rw [hending]
    exact Ending.noConfusion
  exact ⟨hregular, run_effect _ _ _ _ hregular, hending, by decide +kernel, by decide +kernel⟩

end Generation

end ClientPlan
