import ClientPlan.Plan.Encoding

/-!
# Placement Instructions

Where each argument of an endpoint goes in a request, and by which rule.

The location of an argument decides which types it can have. A body takes any
type. A header and a query entry take what has a flat form, or a reference, and
an optional of either, which is then written only if it is present; a
collection becomes several entries of one name. A segment of the path takes a
single value that is always present.

## Main definitions

* `Instruction`: The placement of one argument.
* `IllegalPlacement`: A location that does not take the type of its argument.
* `Argument.place`: The placement of an argument of an endpoint.
* `placeAll`: The placements of several arguments, or the first failure.
* `placedBefore`: The placements up to the first failure.
-/

namespace ClientPlan

/-- The placement of one argument in a request. -/
structure Instruction where
  argument : Argument TypeExpr
  slot : Slot
  /-- The name of the header, query entry or path parameter. -/
  wireName : Option String
  encoding : Encoding
  /-- Whether each item becomes an entry of its own. -/
  multiValued : Bool
  /-- Whether the value is written only if it is present. -/
  conditional : Bool
  deriving DecidableEq, Repr

/-- A location that does not take the type of its argument. -/
structure IllegalPlacement where
  argument : String
  slot : Slot
  /-- The declared type of the argument. -/
  type : TypeExpr
  /-- The endpoint that the argument belongs to, where it is known. -/
  endpoint : Option String
  obstacle : Option Obstacle
  /-- The part of the type that has no flat form, if that is the reason. -/
  cause : Option Unencodable
  deriving DecidableEq, Repr

/-- The wording of the report on an illegal placement. An endpoint or a reason
    without a text is left out. -/
def IllegalPlacement.message (p : IllegalPlacement) : String :=
  let owner :=
    match p.endpoint with
    | none => ""
    | some endpoint => if endpoint = "" then "" else endpoint ++ "."
  let reason :=
    match p.obstacle with
    | none => ""
    | some obstacle => if obstacle.message = "" then "" else " (" ++ obstacle.message ++ ")"
  "Argument '" ++ owner ++ p.argument ++ "' of type " ++ p.type.describe ++
    " cannot be placed in the " ++ p.slot.word ++ " of a request" ++ reason

namespace Argument

/-- The placement under the argument's own wire name by a given rule. -/
def instruction (a : Argument TypeExpr) (encoding : Encoding) (multiValued : Bool) : Instruction :=
  ⟨a, a.location.slot, a.wireName, encoding, multiValued, false⟩

/-- The report that the argument's location does not take its declared type. -/
def refusal (a : Argument TypeExpr) (endpoint : String) (obstacle : Obstacle)
    (cause : Option Unencodable) : IllegalPlacement :=
  ⟨a.name, a.location.slot, a.type, some endpoint, some obstacle, cause⟩

/-- The placement by the flat rule of a type. -/
def placeFlat (a : Argument TypeExpr) (endpoint : String) (type : TypeExpr) (multiValued : Bool) :
    Except IllegalPlacement Instruction :=
  match type.flatEncoding with
  | .ok encoding => .ok (a.instruction encoding multiValued)
  | .error u => .error (a.refusal endpoint u.obstacle (some u))

/-- The placement of a value of the given type: the declared type of the
    argument, or the item of the optional that it declares. An optional that is
    still met here in a header or a query entry stands inside another one. -/
def placeAs (a : Argument TypeExpr) (endpoint : String) (type : TypeExpr) :
    Except IllegalPlacement Instruction :=
  match a.location, type with
  | .body, _ => .ok (a.instruction (.body endpoint a.type) false)
  | .header _, .optional _ => .error (a.refusal endpoint .nestedOptional none)
  | .query _, .optional _ => .error (a.refusal endpoint .nestedOptional none)
  | _, .reference _ => .ok (a.instruction .stringConversion false)
  | .path, .list _ => .error (a.refusal endpoint .manyValues none)
  | .path, .set _ => .error (a.refusal endpoint .manyValues none)
  | _, .list item => a.placeFlat endpoint (.list item) true
  | _, .set item => a.placeFlat endpoint (.set item) true
  | _, type => a.placeFlat endpoint type false

/-- The placement of an argument of the named endpoint. In a header or a query
    entry an optional is placed as its item, on the condition that it is
    present. -/
def place (a : Argument TypeExpr) (endpoint : String) : Except IllegalPlacement Instruction :=
  match a.location, a.type with
  | .header _, .optional item =>
    (a.placeAs endpoint item).map fun i => { i with conditional := true }
  | .query _, .optional item =>
    (a.placeAs endpoint item).map fun i => { i with conditional := true }
  | _, type => a.placeAs endpoint type

end Argument

/-- The placements of several arguments in their order, or the failure of the
    first that has none. -/
def placeAll (endpoint : String) :
    List (Argument TypeExpr) → Except IllegalPlacement (List Instruction)
  | [] => .ok []
  | a :: args =>
    match a.place endpoint with
    | .error p => .error p
    | .ok i =>
      match placeAll endpoint args with
      | .error p => .error p
      | .ok is => .ok (i :: is)

/-- The placements of several arguments up to the first that has none. -/
def placedBefore (endpoint : String) : List (Argument TypeExpr) → List Instruction
  | [] => []
  | a :: args =>
    match a.place endpoint with
    | .error _ => []
    | .ok i => i :: placedBefore endpoint args

end ClientPlan
