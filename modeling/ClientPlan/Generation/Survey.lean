import ClientPlan.Document.Load
import ClientPlan.Generation.Log
import ClientPlan.Generation.Output

/-!
# Surveying Definitions

What the definition files give: plans, failures, and what is reported on the
way.

Each file is loaded and its services are planned, in order. A file that cannot
be loaded is one failure, and a service that cannot be planned is one failure
for each of its endpoints that fail; neither keeps the others from being looked
at. Only what no definition can be blamed for ends the survey early.

## Main definitions

* `Failure`: What can go wrong with a file or a service.
* `Crash`: What ends a run early.
* `planServices`: The plans and the failures of the services of one file.
* `Survey`: The plans and the failures of some files.
* `survey`: What some files give.
-/

namespace ClientPlan

/-- What can go wrong with a file or a service. -/
inductive Failure where
  /-- A file gives no services. -/
  | load (error : DefinitionError)
  /-- An endpoint of a service has no plan. -/
  | endpoint (source : Path) (service : String) (error : EndpointError)
  /-- The plan file of a service has been claimed before. -/
  | collision (c : Collision)
  deriving DecidableEq, Repr

/-- The wording of a failure. -/
def Failure.message : Failure → String
  | load error => error.message
  | endpoint source service error =>
    String.ofList source ++ ": " ++ service ++ ": " ++ error.message
  | collision c => c.message

/-- The log entry about a failure. -/
def Failure.logEntry (f : Failure) : Log.Entry :=
  ⟨.error, .generation, f.message⟩

/-- What ends a run early. -/
inductive Crash where
  | files (fault : FileSystem.Fault)
  /-- An integer of this many digits stands in a file. -/
  | tooManyDigits (count : Nat)
  deriving DecidableEq, Repr

/-- The wording of what ends a run early. -/
def Crash.message : Crash → String
  | files fault => fault.message
  | tooManyDigits count => (Json.Fault.tooManyDigits count).message []

/-- The failures of the endpoints of a service. -/
def ServiceError.failures (source : Path) (e : ServiceError) : List Failure :=
  e.errors.map (Failure.endpoint source e.service)

/-- The plans of the services of one file, in order. -/
def plannedOf (source : Path) (services : List (Service TypeExpr)) : List PlannedService :=
  services.filterMap fun s =>
    match s.plan with
    | .ok plan => some ⟨source, plan⟩
    | .error _ => none

/-- The failures of a service of a file. -/
def Service.failures (source : Path) (s : Service TypeExpr) : List Failure :=
  match s.plan with
  | .ok _ => []
  | .error e => e.failures source

/-- The failures of the services of one file, in order. -/
def failuresOf (source : Path) (services : List (Service TypeExpr)) : List Failure :=
  services.flatMap (Service.failures source)

/-- What is reported while the services of one file are planned. -/
def planningLog (source : Path) (services : List (Service TypeExpr)) : List Log.Entry :=
  services.flatMap fun s => s.log ++ (s.failures source).map Failure.logEntry

/-- The plans and the failures of some files. -/
structure Survey where
  planned : List PlannedService
  failures : List Failure
  log : List Log.Entry
  /-- What ended the survey early, if anything did. -/
  crash : Option Crash
  deriving DecidableEq, Repr

/-- The survey of no files. -/
def Survey.empty : Survey := ⟨[], [], [], none⟩

/-- A survey with a file in front that gives no services. -/
def Survey.withError (error : DefinitionError) (s : Survey) : Survey :=
  { s with
    failures := .load error :: s.failures
    log := (Failure.load error).logEntry :: s.log }

/-- The log entry about a loaded file. -/
def loadedEntry (source : Path) (services : List (Service TypeExpr)) : Log.Entry :=
  ⟨.info, .loading, "Loaded " ++ toString services.length ++ " service(s) from '" ++
    String.ofList (Path.clean source) ++ "'."⟩

/-- A survey with a file in front that gives some services. -/
def Survey.withServices (source : Path) (services : List (Service TypeExpr)) (s : Survey) :
    Survey :=
  { s with
    planned := plannedOf source services ++ s.planned
    failures := failuresOf source services ++ s.failures
    log := loadedEntry source services :: planningLog source services ++ s.log }

/-- What some files give. -/
def survey (fs : FileSystem) (cwd : Path) : List Path → Survey
  | [] => .empty
  | source :: sources =>
    match Document.load fs cwd source with
    | .ok services => (survey fs cwd sources).withServices source services
    | .error (.definition error) => (survey fs cwd sources).withError error
    | .error .nulInPath => { Survey.empty with crash := some (.files .nulInPath) }
    | .error (.tooManyDigits count) =>
      { Survey.empty with crash := some (.tooManyDigits count) }

end ClientPlan
