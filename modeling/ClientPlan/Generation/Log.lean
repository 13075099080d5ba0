import ClientPlan.Plan.Service

/-!
# Log Entries

What is reported while plans are generated.

An entry has a level and the name of the part that it comes from. What planning
reports follows from the plan itself: one entry for each placement that is
decided, one for each endpoint that fails, and one for a service of which all
endpoints succeed. A repeated endpoint is not planned, so nothing is reported
about it here.

## Main definitions

* `Log.Entry`: A level, an origin and a text.
* `Log.Entry.text`: An entry as it is written.
* `Service.log`: What planning a service reports.
-/

namespace ClientPlan

namespace Log

/-- How important an entry is. -/
inductive Level where
  | debug
  | info
  | warning
  | error
  deriving DecidableEq, Repr

/-- The word for a level. -/
def Level.word : Level → String
  | debug => "DEBUG"
  | info => "INFO"
  | warning => "WARNING"
  | error => "ERROR"

/-- The parts that entries come from. -/
inductive Origin where
  | root
  | loading
  | planning
  | generation
  | commandLine
  deriving DecidableEq, Repr

/-- The name under which a part writes its entries. -/
def Origin.name : Origin → String
  | root => "root"
  | loading => "conjure_stub_generator.ir_loader"
  | planning => "conjure_stub_generator.planner"
  | generation => "conjure_stub_generator.run"
  | commandLine => "conjure_stub_generator.cli"

/-- An entry of a log. -/
structure Entry where
  level : Level
  origin : Origin
  message : String
  deriving DecidableEq, Repr

/-- An entry as it is written. -/
def Entry.text (e : Entry) : String :=
  e.level.word ++ ":" ++ e.origin.name ++ ":" ++ e.message

/-- Whether an entry is written: the least important ones only on request. -/
def Entry.isShown (verbose : Bool) (e : Entry) : Bool :=
  verbose || e.level ≠ .debug

end Log

/-- The entry about a placement of an endpoint. -/
def Instruction.logEntry (endpoint : String) (i : Instruction) : Log.Entry :=
  ⟨.debug, .planning, "Placed " ++ endpoint ++ "." ++ i.argument.name ++ " into " ++
    i.slot.word ++ " as " ++ i.encoding.name⟩

/-- What planning an endpoint of a named service reports. -/
def Endpoint.log (service : String) (e : Endpoint TypeExpr) : List Log.Entry :=
  e.placed.map (Instruction.logEntry e.name) ++
    match e.plan with
    | .ok _ => []
    | .error error =>
      [⟨.debug, .planning, "Could not plan endpoint " ++ service ++ "." ++ e.name ++ ": " ++
        error.message⟩]

namespace Service

/-- What planning some endpoints of a named service reports, when the given
    names have been used before. -/
def logAfter (service : String) : List String → List (Endpoint TypeExpr) → List Log.Entry
  | _, [] => []
  | used, e :: endpoints =>
    if e.name ∈ used then logAfter service used endpoints
    else e.log service ++ logAfter service (e.name :: used) endpoints

/-- What planning a service reports. -/
def log (s : Service TypeExpr) : List Log.Entry :=
  logAfter s.name [] s.endpoints ++
    match s.plan with
    | .ok plan =>
      [⟨.info, .planning, "Planned " ++ toString plan.endpoints.length ++
        " endpoint(s) of service '" ++ s.name ++ "'."⟩]
    | .error _ => []

end Service

end ClientPlan
