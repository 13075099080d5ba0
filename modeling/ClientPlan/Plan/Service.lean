import ClientPlan.Plan.Endpoint

/-!
# Service Plans

The plans of all endpoints of a service.

Every endpoint is decided on its own, so one that fails hides no other, and all
failures of a service are reported together. An endpoint whose name has already
been used is refused without being planned, whether or not the earlier endpoint
of that name had a plan: the name is what a plan is looked up by.

## Main definitions

* `Service.outcomes`: What becomes of each endpoint, in declaration order.
* `ServicePlan`: The plans of a service.
* `ServiceError`: The failures of a service, with the plans that succeeded.
* `Service.plan`: The plans of all endpoints, or all failures.
* `ServicePlan.get?`: The plan of a named endpoint.

## Theorems

* `Outcome.length_errors_add_length_plans`: Every outcome is an error or a plan.
-/

namespace ClientPlan

/-- What becomes of an endpoint. -/
abbrev Outcome := Except EndpointError EndpointPlan

/-- The plans of a service. -/
structure ServicePlan where
  service : Service TypeExpr
  /-- One plan for each endpoint, in declaration order. -/
  endpoints : List EndpointPlan
  deriving DecidableEq, Repr

/-- The plan of a named endpoint. -/
def ServicePlan.get? (p : ServicePlan) (name : String) : Option EndpointPlan :=
  p.endpoints.find? fun plan => plan.endpoint.name = name

/-- The failures of a service. -/
structure ServiceError where
  service : String
  /-- Every failure, in declaration order. -/
  errors : List EndpointError
  /-- The plans of the endpoints that have one, in declaration order. -/
  plans : List EndpointPlan
  deriving DecidableEq, Repr

/-- The wording of the failures of a service, one line for each. -/
def ServiceError.message (e : ServiceError) : String :=
  "Service '" ++ e.service ++ "' has " ++ toString e.errors.length ++
    " invalid endpoint(s):\n" ++
    "\n".intercalate (e.errors.map fun error => "  - " ++ error.message)

/-- The failures among some outcomes. -/
def Outcome.errors : List Outcome → List EndpointError
  | [] => []
  | .error e :: outcomes => e :: Outcome.errors outcomes
  | .ok _ :: outcomes => Outcome.errors outcomes

/-- The plans among some outcomes. -/
def Outcome.plans : List Outcome → List EndpointPlan
  | [] => []
  | .error _ :: outcomes => Outcome.plans outcomes
  | .ok p :: outcomes => p :: Outcome.plans outcomes

theorem Outcome.length_errors_add_length_plans (outcomes : List Outcome) :
    (Outcome.errors outcomes).length + (Outcome.plans outcomes).length = outcomes.length := by
  induction outcomes with
  | nil => rfl
  | cons outcome outcomes ih =>
      rcases outcome with e | p
      · simp only [Outcome.errors, Outcome.plans, List.length_cons]
        omega
      · simp only [Outcome.errors, Outcome.plans, List.length_cons]
        omega

namespace Service

/-- What becomes of some endpoints of a named service, when the given names have
    been used before. -/
def outcomesAfter (service : String) : List String → List (Endpoint TypeExpr) → List Outcome
  | _, [] => []
  | used, e :: endpoints =>
    if e.name ∈ used then
      .error (.duplicateEndpoint service e.name) :: outcomesAfter service used endpoints
    else e.plan :: outcomesAfter service (e.name :: used) endpoints

/-- What becomes of each endpoint, in declaration order. -/
def outcomes (s : Service TypeExpr) : List Outcome :=
  outcomesAfter s.name [] s.endpoints

/-- The plans of all endpoints, or all failures together with the plans that
    succeeded. -/
def plan (s : Service TypeExpr) : Except ServiceError ServicePlan :=
  match Outcome.errors s.outcomes with
  | [] => .ok ⟨s, Outcome.plans s.outcomes⟩
  | e :: errors => .error ⟨s.name, e :: errors, Outcome.plans s.outcomes⟩

end Service

end ClientPlan
