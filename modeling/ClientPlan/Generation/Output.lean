import ClientPlan.Path.Relative
import ClientPlan.Plan.Service

/-!
# Plan Files

Where the plan of each service is written.

A plan file is named after its service. It stands beside the definition file, or
below the output directory, in the place that the definition file has below the
directory common to all of them. Two services of one name may thus claim one
file; the first one keeps it, and every later one collides with it. Claims are
compared by the normal spellings of the paths without the ending, so two paths
with one such key count as one file.

## Main definitions

* `PlannedService`: A plan with the file its service was defined in.
* `Output.directory`, `Output.path`: Where a plan is written.
* `Assignment`: What becomes of a planned service.
* `Output.assign`: What becomes of each planned service, in order.
* `Output.outputs`, `Output.collisions`: The two kinds of assignments.

## Theorems

* `Output.length_assignAfter`: Every planned service has an assignment.
* `Output.length_outputs_add_length_collisions`: Every assignment is an output or
  a collision.
-/

namespace ClientPlan

/-- A plan with the file its service was defined in. -/
structure PlannedService where
  source : Path
  plan : ServicePlan
  deriving DecidableEq, Repr

/-- The name of the planned service. -/
def PlannedService.name (p : PlannedService) : String :=
  p.plan.service.name

/-- A plan and the path of its file, without the ending. -/
structure Output where
  path : Path
  planned : PlannedService
  deriving DecidableEq, Repr

/-- A planned service, and the key of its file has been claimed before. -/
structure Collision where
  planned : PlannedService
  /-- The path of the file, without the ending. -/
  path : Path
  /-- The service that has claimed the key. -/
  earlier : PlannedService
  deriving DecidableEq, Repr

namespace Output

/-- What the name of a plan file ends in. -/
def ending : Path := ".plan.json".toList

/-- The path of the plan file. -/
def file (o : Output) : Path :=
  o.path ++ ending

/-- The directory that a plan is written to. -/
def directory (cwd outputDir : Path) (base : Option Path) (source : Path) : Path :=
  if outputDir = [] then Path.directory source
  else
    match base with
    | none => outputDir
    | some base =>
      if base = [] then outputDir
      else
        Path.join outputDir
          (Path.directory (Path.relative cwd (Path.absolute cwd source) base))

/-- The path that the plan of a service is written to, without the ending. -/
def pathOf (cwd outputDir : Path) (base : Option Path) (planned : PlannedService) : Path :=
  Path.join (directory cwd outputDir base planned.source) planned.name.toList

/-- The key by which two paths are compared. -/
def key (cwd path : Path) : Path :=
  Path.normalize (Path.absolute cwd path)

end Output

/-- The wording of a collision. -/
def Collision.message (c : Collision) : String :=
  String.ofList c.planned.source ++ ": " ++ c.planned.name ++ ": plan file '" ++
    String.ofList (c.path ++ Output.ending) ++
    "' is already written for the service from " ++ String.ofList c.earlier.source

/-- What becomes of a planned service. -/
inductive Assignment where
  | output (o : Output)
  | collision (c : Collision)
  deriving DecidableEq, Repr

namespace Output

/-- The service that has claimed a key. -/
def claimant? (key : Path) : List (Path × PlannedService) → Option PlannedService
  | [] => none
  | (k, planned) :: claims => if k = key then some planned else claimant? key claims

/-- What becomes of some planned services, when keys have been claimed
    before. -/
def assignAfter (cwd outputDir : Path) (base : Option Path) :
    List (Path × PlannedService) → List PlannedService → List Assignment
  | _, [] => []
  | claims, planned :: rest =>
    let path := pathOf cwd outputDir base planned
    match claimant? (key cwd path) claims with
    | some earlier =>
      -- The claims stay as they are, so a third service meets the first one too.
      .collision ⟨planned, path, earlier⟩ :: assignAfter cwd outputDir base claims rest
    | none =>
      .output ⟨path, planned⟩ ::
        assignAfter cwd outputDir base ((key cwd path, planned) :: claims) rest

theorem length_assignAfter (cwd outputDir : Path) (base : Option Path)
    (planned : List PlannedService) : ∀ claims : List (Path × PlannedService),
      (assignAfter cwd outputDir base claims planned).length = planned.length := by
  induction planned with
  | nil =>
      intro claims
      rfl
  | cons p planned ih =>
      intro claims
      simp only [assignAfter]
      split
      · rw [List.length_cons, List.length_cons, ih]
      · rw [List.length_cons, List.length_cons, ih]

/-- What becomes of each planned service, in order. -/
def assign (cwd outputDir : Path) (base : Option Path) (planned : List PlannedService) :
    List Assignment :=
  assignAfter cwd outputDir base [] planned

/-- The outputs among some assignments. -/
def outputs : List Assignment → List Output
  | [] => []
  | .output o :: rest => o :: outputs rest
  | .collision _ :: rest => outputs rest

/-- The collisions among some assignments. -/
def collisions : List Assignment → List Collision
  | [] => []
  | .output _ :: rest => collisions rest
  | .collision c :: rest => c :: collisions rest

theorem length_outputs_add_length_collisions (assignments : List Assignment) :
    (outputs assignments).length + (collisions assignments).length = assignments.length := by
  induction assignments with
  | nil => rfl
  | cons a assignments ih =>
      cases a with
      | output o =>
          simp only [outputs, collisions, List.length_cons]
          omega
      | collision c =>
          simp only [outputs, collisions, List.length_cons]
          omega

end Output

end ClientPlan
