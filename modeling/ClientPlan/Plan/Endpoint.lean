import ClientPlan.Plan.Instruction

/-!
# Endpoint Plans

The plan of one endpoint: the placement of every argument and the decoding of
the response.

An endpoint that asks for authentication carries a bearer token in a header of
its own, in front of all declared arguments. The names of the arguments, the
token's included, have to be distinct, and at most one argument may be the
body; both are checked before anything is placed.

## Main definitions

* `Decoder`: How the body of a response is decoded.
* `EndpointPlan`: The plan of an endpoint.
* `EndpointError`: Why an endpoint has no plan.
* `Endpoint.plan`: The plan of an endpoint, or the first failure.
* `Endpoint.placed`: The placements that are decided before a failure.
-/

namespace ClientPlan

/-- How the body of a response is decoded. -/
structure Decoder where
  /-- The name under which generated code refers to the decoder. -/
  handle : String
  /-- The type that is decoded, or `none` if the body is empty. -/
  type : Option TypeExpr
  deriving DecidableEq, Repr

/-- The word for a decoder: a typed one, or one for an empty body. -/
def Decoder.word (d : Decoder) : String :=
  match d.type with
  | none => "empty"
  | some _ => "typed"

/-- The decoder of the response of a named endpoint. -/
def Decoder.ofReturns (endpoint : String) (returns : Option TypeExpr) : Decoder :=
  ⟨endpoint ++ "Deserializer", returns⟩

/-- The plan of an endpoint. -/
structure EndpointPlan where
  endpoint : Endpoint TypeExpr
  /-- The placements, in the order in which they are carried out. -/
  instructions : List Instruction
  decoder : Decoder
  deriving DecidableEq, Repr

/-- The placement that fills the body of the request. -/
def EndpointPlan.bodyInstruction? (p : EndpointPlan) : Option Instruction :=
  p.instructions.find? fun i => i.slot = .body

/-- Why an endpoint has no plan. -/
inductive EndpointError where
  | duplicateArgument (endpoint argument : String)
  | multipleBodies (endpoint : String) (arguments : List String)
  | invalidAuth (endpoint : String) (auth : Auth)
  | illegalPlacement (placement : IllegalPlacement)
  /-- The service already has an endpoint of this name. -/
  | duplicateEndpoint (service endpoint : String)
  deriving DecidableEq, Repr

/-- The wording of a failure. -/
def EndpointError.message : EndpointError → String
  | duplicateArgument endpoint argument =>
    "Endpoint '" ++ endpoint ++ "' declares argument '" ++ argument ++ "' more than once"
  | multipleBodies endpoint arguments =>
    "Endpoint '" ++ endpoint ++ "' declares more than one body argument: " ++
      ", ".intercalate arguments
  | invalidAuth endpoint auth =>
    "Endpoint '" ++ endpoint ++ "' uses " ++ auth.word ++
      " authentication, only header auth is supported"
  | illegalPlacement placement => placement.message
  | duplicateEndpoint service endpoint =>
    "Service '" ++ service ++ "' declares endpoint '" ++ endpoint ++ "' more than once"

/-- The name of the argument that carries the bearer token. -/
def tokenName : String := "authHeader"

/-- The argument that carries the bearer token of a call. -/
def tokenArgument : Argument TypeExpr :=
  ⟨tokenName, .header "Authorization", .primitive .bearertoken⟩

namespace Endpoint

/-- The names that have to be distinct: those of the declared arguments and, if
    the endpoint asks for authentication, the token's. -/
def argumentNames (e : Endpoint TypeExpr) : List String :=
  e.args.map (·.name) ++ if e.auth.isSome then [tokenName] else []

/-- The first name that stands for more than one argument. -/
def repeatedName? (e : Endpoint TypeExpr) : Option String :=
  e.argumentNames.find? fun name => 1 < e.argumentNames.count name

/-- The names of the arguments that are declared as the body. -/
def bodyNames (e : Endpoint TypeExpr) : List String :=
  (e.args.filter fun a => a.location.slot = .body).map (·.name)

/-- The arguments to place, the token first, of an endpoint whose declaration
    holds no contradiction. -/
def allArguments (e : Endpoint TypeExpr) : Except EndpointError (List (Argument TypeExpr)) :=
  match e.repeatedName? with
  | some name => .error (.duplicateArgument e.name name)
  | none =>
    if 1 < e.bodyNames.length then .error (.multipleBodies e.name e.bodyNames)
    else
      match e.auth with
      | none => .ok e.args
      | some .header => .ok (tokenArgument :: e.args)
      | some auth => .error (.invalidAuth e.name auth)

/-- The plan of an endpoint, or the first failure found in it. -/
def plan (e : Endpoint TypeExpr) : Except EndpointError EndpointPlan :=
  match e.allArguments with
  | .error failure => .error failure
  | .ok args =>
    match placeAll e.name args with
    | .error placement => .error (.illegalPlacement placement)
    | .ok instructions => .ok ⟨e, instructions, Decoder.ofReturns e.name e.returns⟩

/-- The placements that are decided before planning ends, with or without a
    plan. -/
def placed (e : Endpoint TypeExpr) : List Instruction :=
  match e.allArguments with
  | .error _ => []
  | .ok args => placedBefore e.name args

end Endpoint

end ClientPlan
