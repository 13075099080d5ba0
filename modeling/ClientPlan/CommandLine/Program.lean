import ClientPlan.CommandLine.Help
import ClientPlan.Generation.Run

/-!
# The Program

What the program does with a command line, as a function of the file system and
the working directory.

The working directory is also the root that paths and patterns are seen from. A
run that fails is reported once more as a whole, behind everything else, and
ends with exit code 1. A run that is ended early has no exit code; the caller
gets the reason instead.

## Main definitions

* `CommandLine.Result`: What a call leaves behind.
* `CommandLine.execute`: The call with a command line.
-/

namespace ClientPlan

namespace CommandLine

/-- How a call ends. -/
inductive Exit where
  | code (n : Nat)
  | crash (crash : Crash)
  deriving DecidableEq, Repr

/-- What a call leaves behind. -/
structure Result where
  fs : FileSystem
  exit : Exit
  /-- What is written to the standard output. -/
  output : String
  /-- What is written to the standard error output. -/
  errorOutput : String
  deriving DecidableEq, Repr

/-- The entry in front of all others. -/
def startEntry (root : Path) : Log.Entry :=
  ⟨.info, .root, "Working from root directory: " ++ String.ofList root⟩

/-- The entry about a run that failed. -/
def failedEntry (failures : List Failure) (keptGoing : Bool) : Log.Entry :=
  ⟨.error, .commandLine,
    "Plan generation failed: " ++ Generation.failureMessage failures keptGoing⟩

/-- How a call ends that started a run. -/
def exitOf : Generation.Ending → Exit
  | .finished => .code 0
  | .failed _ _ => .code 1
  | .crashed crash => .crash crash

/-- Everything that is reported in a call that started a run. -/
def logOf (cwd : Path) (outcome : Generation.Outcome) : List Log.Entry :=
  startEntry cwd :: outcome.log ++
    match outcome.ending with
    | .failed failures keptGoing => [failedEntry failures keptGoing]
    | _ => []

/-- The call with a command line. -/
def execute (fs : FileSystem) (cwd : Path) (words : List String) : Result :=
  match parse words with
  | .error stop => ⟨fs, .code stop.exitCode, stop.output, stop.errorOutput⟩
  | .ok o =>
    let outcome := Generation.run fs cwd cwd o
    let shown := (logOf cwd outcome).filter (Log.Entry.isShown o.verbose)
    ⟨outcome.fs, exitOf outcome.ending, "", unlines (shown.map Log.Entry.text)⟩

end CommandLine

end ClientPlan
