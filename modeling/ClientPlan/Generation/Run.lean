import ClientPlan.CommandLine.Options
import ClientPlan.FileSystem.Change
import ClientPlan.Generation.Discovery
import ClientPlan.Generation.Survey
import ClientPlan.Json.Printer
import ClientPlan.Plan.Document

/-!
# Generating Plans

A whole run: from the settings to the plan files.

A run first removes what it was asked to clean up, finds the definition files,
surveys them and decides which file each plan is written to. If anything has
failed up to here, nothing is written unless the run was asked to keep going.
Then the plans are written one by one, together with the directories that are
missing. Each stage is a function of the results of the one before, and only the
first and the last of them change files.

## Main definitions

* `ServicePlan.bytes`: The content of a plan file.
* `Generation.removeAll`, `Generation.writeAll`: The stages that change files.
* `Generation.Ending`: How a run ends.
* `Generation.Outcome`: What a run leaves behind.
* `Generation.run`: The run.
-/

namespace ClientPlan

/-- The text of a plan file: the plan as JSON and the end of the last line. -/
def ServicePlan.text (p : ServicePlan) : List Char :=
  p.toJson.render ++ ['\n']

/-- The content of a plan file. -/
def ServicePlan.bytes (p : ServicePlan) : List UInt8 :=
  Utf8.encode p.text

namespace Generation

/-- The file system without the files that some paths lead to. What has been
    removed before a removal fails stays removed. -/
def removeAll (fs : FileSystem) (cwd : Path) :
    List Path → FileSystem × Option FileSystem.Fault
  | [] => (fs, none)
  | p :: paths =>
    match fs.remove cwd p with
    | .error fault => (fs, some fault)
    | .ok fs => removeAll fs cwd paths

/-- The paths that some patterns below the root stand for, each of them once. -/
def cleanPaths (s : Glob.Search) (root : Path) (patterns : List Path) :
    Except FileSystem.Fault (List Path) :=
  (Discovery.gather (fun p => s.expand false (Path.join root p)) patterns).map
    Discovery.sortDistinct

/-- The directory that a plan file is written to. -/
def parentOf (o : Output) : Path :=
  Path.orHere (Path.directory o.path)

/-- The log entry about a plan file. -/
def writtenEntry (o : Output) : Log.Entry :=
  ⟨.info, .generation, "Wrote plan to '" ++ String.ofList o.file ++ "'."⟩

/-- The file system with the plan file of one output, and what is reported. The
    directories that could be made stay if the file cannot be written. -/
def writePlan (fs : FileSystem) (cwd : Path) (o : Output) :
    FileSystem × Option FileSystem.Fault :=
  match fs.makeDirectories cwd (parentOf o) with
  | (fs, some fault) => (fs, some fault)
  | (fs, none) =>
    match fs.write cwd o.file o.planned.plan.bytes with
    | .error fault => (fs, some fault)
    | .ok fs => (fs, none)

/-- The file system with the plan files of some outputs, what is reported, and
    the fault that ended the writing, if there was one. -/
def writeAll (fs : FileSystem) (cwd : Path) :
    List Output → FileSystem × List Log.Entry × Option FileSystem.Fault
  | [] => (fs, [], none)
  | o :: outputs =>
    match writePlan fs cwd o with
    -- The fault ends the writing, so the later outputs are not even tried.
    | (fs, some fault) => (fs, [], some fault)
    | (fs, none) =>
      let (fs, log, fault) := writeAll fs cwd outputs
      (fs, writtenEntry o :: log, fault)

/-- The directory common to some definition files. -/
def commonBase (cwd : Path) (sources : List Path) : Option Path :=
  Path.commonDirectory (sources.map fun p => Path.absolute cwd (Path.directory p))

/-- How a run ends. -/
inductive Ending where
  /-- Everything was planned and written. -/
  | finished
  /-- Something failed. The plans of the rest were written if the run was asked
      to keep going. -/
  | failed (failures : List Failure) (keptGoing : Bool)
  /-- Something ended the run early. -/
  | crashed (crash : Crash)
  deriving DecidableEq, Repr

/-- The wording of the failures of a run. -/
def failureMessage (failures : List Failure) (keptGoing : Bool) : String :=
  toString failures.length ++ " failure(s)" ++
    (if keptGoing then "" else ", no plans were written") ++ ":\n" ++
    "\n".intercalate (failures.map Failure.message)

/-- What a run leaves behind. -/
structure Outcome where
  fs : FileSystem
  log : List Log.Entry
  ending : Ending
  deriving DecidableEq, Repr

/-- The log entry about a search that found nothing. -/
def nothingFoundEntry (paths : List String) : Log.Entry :=
  ⟨.warning, .generation, "No conjure IR files found for " ++ Text.quotedList paths⟩

/-- How a run ends when every plan that was to be written has been. -/
def endingOf (failures : List Failure) (keepGoing : Bool) : Ending :=
  if failures = [] then .finished else .failed failures keepGoing

/-- What has been decided when all definition files are surveyed. -/
structure Decision where
  outputs : List Output
  failures : List Failure
  log : List Log.Entry
  deriving DecidableEq, Repr

/-- The files to write and all failures, once the definition files are
    surveyed. -/
def settle (cwd : Path) (outputDir : Path) (sources : List Path) (s : Survey) : Decision :=
  let assignments := Output.assign cwd outputDir (commonBase cwd sources) s.planned
  let collisions := (Output.collisions assignments).map Failure.collision
  ⟨Output.outputs assignments, s.failures ++ collisions, collisions.map Failure.logEntry⟩

/-- The last stage of a run: writing what was decided on. -/
def finish (fs : FileSystem) (cwd : Path) (keepGoing : Bool) (d : Decision) : Outcome :=
  if d.failures ≠ [] ∧ !keepGoing then ⟨fs, [], .failed d.failures keepGoing⟩
  else
    match writeAll fs cwd d.outputs with
    | (fs, log, some fault) => ⟨fs, log, .crashed (.files fault)⟩
    | (fs, log, none) => ⟨fs, log, endingOf d.failures keepGoing⟩

/-- The stages of a run behind the search for definition files. -/
def generate (fs : FileSystem) (cwd : Path) (o : Options) (sources : List Path) : Outcome :=
  let s := survey fs cwd sources
  let notice := if sources = [] then [nothingFoundEntry o.paths] else []
  -- Nothing is decided before the end of the survey, so a crash leaves nothing to write.
  match s.crash with
  | some crash => ⟨fs, notice ++ s.log, .crashed crash⟩
  | none =>
    let d := settle cwd o.outputPath sources s
    let outcome := finish fs cwd o.keepGoing d
    { outcome with log := notice ++ s.log ++ d.log ++ outcome.log }

/-- A run in a working directory, with paths and patterns that are seen from a
    root directory. -/
def run (fs : FileSystem) (cwd root : Path) (o : Options) : Outcome :=
  match cleanPaths ⟨fs, cwd, o.recursive⟩ root (o.clean.map String.toList) with
  | .error fault => ⟨fs, [], .crashed (.files fault)⟩
  | .ok obsolete =>
    match removeAll fs cwd obsolete with
    | (fs, some fault) => ⟨fs, [], .crashed (.files fault)⟩
    | (fs, none) =>
      match Discovery.discover ⟨fs, cwd, o.recursive⟩ root (o.paths.map String.toList)
          (o.excludes.map String.toList) with
      | .error fault => ⟨fs, [], .crashed (.files fault)⟩
      | .ok sources => generate fs cwd o sources

end Generation

end ClientPlan
