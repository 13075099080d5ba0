import ClientPlan.Service.TypeExpr

/-!
# Service Definitions

What a service declares: its endpoints, and for each of them the arguments of a
request and the type of the response.

The definitions leave open what a type is. Planning works on `TypeExpr`, while
the types of a document can say more than planning needs; `mapType` passes from
the one to the other and touches nothing else.

## Main definitions

* `Location`: Where a request carries an argument.
* `Argument`, `Endpoint`, `Service`: The definitions.
* `Location.slot`: The part of the request that a location belongs to.
* `Argument.wireName`: The name an argument has in the request.
* `Service.mapType`: The same service over other types.
-/

namespace ClientPlan

/-- The parts of a request that can carry an argument. -/
inductive Slot where
  | body
  | header
  | path
  | query
  deriving DecidableEq, Repr

/-- The word for a part of a request. -/
def Slot.word : Slot → String
  | body => "body"
  | header => "header"
  | path => "path"
  | query => "query"

/-- All parts of a request, in the order in which messages list them. -/
def Slot.all : List Slot := [body, header, path, query]

/-- Where a request carries an argument. A header and a query entry have a name
    of their own there. -/
inductive Location where
  | body
  | header (id : String)
  | path
  | query (id : String)
  deriving DecidableEq, Repr

/-- The part of the request that a location belongs to. -/
def Location.slot : Location → Slot
  | body => .body
  | header _ => .header
  | path => .path
  | query _ => .query

/-- The ways in which an endpoint can ask for authentication. -/
inductive Auth where
  | header
  | cookie
  deriving DecidableEq, Repr

/-- The word for a way of authentication. -/
def Auth.word : Auth → String
  | header => "header"
  | cookie => "cookie"

/-- The way of authentication that a word stands for. -/
def Auth.ofWord? (word : String) : Option Auth :=
  [header, cookie].find? fun auth => auth.word = word

/-- An argument of an endpoint. -/
structure Argument (τ : Type) where
  /-- The name by which callers pass the argument. -/
  name : String
  location : Location
  type : τ
  deriving DecidableEq, Repr

/-- The name an argument has in the request. The template of a path refers to
    an argument by its declared name, and a body needs none. -/
def Argument.wireName {τ : Type} (a : Argument τ) : Option String :=
  match a.location with
  | .body => none
  | .header id => some id
  | .path => some a.name
  | .query id => some id

/-- An endpoint of a service. -/
structure Endpoint (τ : Type) where
  name : String
  /-- The arguments in the order of their declaration. -/
  args : List (Argument τ)
  /-- The type of the response, or `none` if its body is empty. -/
  returns : Option τ
  /-- How a caller authenticates, or `none` if anyone may call. -/
  auth : Option Auth
  method : String
  /-- The template of the path, such as `/catalog/datasets`. -/
  path : String
  deriving DecidableEq, Repr

/-- A service. -/
structure Service (τ : Type) where
  name : String
  package : Option String
  /-- The endpoints in the order of their declaration. -/
  endpoints : List (Endpoint τ)
  deriving DecidableEq, Repr

/-- The argument whose type is the image of the declared one. -/
def Argument.mapType {σ τ : Type} (f : σ → τ) (a : Argument σ) : Argument τ :=
  ⟨a.name, a.location, f a.type⟩

/-- The endpoint whose types are the images of the declared ones. -/
def Endpoint.mapType {σ τ : Type} (f : σ → τ) (e : Endpoint σ) : Endpoint τ :=
  ⟨e.name, e.args.map (Argument.mapType f), e.returns.map f, e.auth, e.method, e.path⟩

/-- The service whose types are the images of the declared ones. -/
def Service.mapType {σ τ : Type} (f : σ → τ) (s : Service σ) : Service τ :=
  ⟨s.name, s.package, s.endpoints.map (Endpoint.mapType f)⟩

end ClientPlan
