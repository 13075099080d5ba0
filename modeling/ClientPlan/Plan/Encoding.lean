import ClientPlan.Service.Definition

/-!
# Encoding Rules

How the value of an argument becomes text on the wire.

A plain rule writes a primitive as one text, and its repeated form writes each
item of a list or a set of primitives as a text of its own. No other type has
such a flat form: an optional may be absent, a map has no order, and what a name
stands for is not known here. Those types need the body of a request, or, for a
reference, the conversion to text that its own values provide.

## Main definitions

* `Encoding`: The rules.
* `Obstacle`: Why a value has no place in a part of a request.
* `Unencodable`: A type without a flat form.
* `TypeExpr.flatEncoding`: The flat rule of a type.
-/

namespace ClientPlan

/-- The collections whose items can be written one by one. -/
inductive Collection where
  | list
  | set
  deriving DecidableEq, Repr

/-- What a repeated rule's name ends in. -/
def Collection.suffix : Collection → String
  | list => "List"
  | set => "Set"

/-- A rule that turns the value of an argument into text. -/
inductive Encoding where
  /-- One text for the value of a primitive. -/
  | plain (kind : Primitive)
  /-- One text for each item of a collection of primitives. -/
  | repeated (kind : Primitive) (collection : Collection)
  /-- The conversion to text that the value itself provides. -/
  | stringConversion
  /-- The serializer of an endpoint's body, for values of the declared type. -/
  | body (endpoint : String) (type : TypeExpr)
  deriving DecidableEq, Repr

namespace Encoding

/-- The word for the family of a rule. -/
def family : Encoding → String
  | plain _ => "plain"
  | repeated _ _ => "plain-repeated"
  | stringConversion => "string-conversion"
  | body _ _ => "body"

/-- The name of a rule. -/
def name : Encoding → String
  | plain kind => kind.ruleName
  | repeated kind collection => kind.ruleName ++ collection.suffix
  | stringConversion => "toString"
  | body endpoint _ => endpoint ++ "Serializer"

/-- The primitive that a flat rule writes, item by item if it is repeated. -/
def primitive? : Encoding → Option Primitive
  | plain kind => some kind
  | repeated kind _ => some kind
  | _ => none

/-- The type that a body rule serializes. -/
def type? : Encoding → Option TypeExpr
  | body _ type => some type
  | _ => none

/-- Whether a rule writes flat text. -/
def isFlat : Encoding → Bool
  | plain _ => true
  | repeated _ _ => true
  | _ => false

end Encoding

/-- Why a value has no place in a part of a request. -/
inductive Obstacle where
  | optional
  | map
  | reference
  | external
  /-- The items of a collection are not primitives. -/
  | compoundItem
  /-- An optional directly inside an optional. -/
  | nestedOptional
  /-- A collection in the path, where one value is expected. -/
  | manyValues
  /-- A reason that the caller states in words of its own. -/
  | stated (reason : String)
  deriving DecidableEq, Repr

/-- The wording of an obstacle. -/
def Obstacle.message : Obstacle → String
  | optional => "optionals have no plain representation"
  | map => "maps have no plain representation"
  | reference => "references have no plain representation"
  | external => "external types have no plain representation"
  | compoundItem => "only collections of primitives can be serialized"
  | nestedOptional => "nested optionals cannot be tested for presence"
  | manyValues => "a path segment holds a single value"
  | stated reason => reason

/-- A type without a flat form. -/
structure Unencodable where
  type : TypeExpr
  obstacle : Obstacle
  deriving DecidableEq, Repr

/-- The wording of the report on a type without a flat form. -/
def Unencodable.message (u : Unencodable) : String :=
  "Cannot serialize " ++ u.type.describe ++ ": " ++ u.obstacle.message

namespace TypeExpr

/-- The repeated rule of a collection with the given items. The report on
    other items is about the collection, since it is the collection that has no
    flat form. -/
def itemEncoding (type : TypeExpr) (collection : Collection) :
    TypeExpr → Except Unencodable Encoding
  | primitive kind => .ok (.repeated kind collection)
  | _ => .error ⟨type, .compoundItem⟩

/-- The flat rule of a type, or the reason why it has none. -/
def flatEncoding : TypeExpr → Except Unencodable Encoding
  | primitive kind => .ok (.plain kind)
  | list item => itemEncoding (list item) .list item
  | set item => itemEncoding (set item) .set item
  | optional item => .error ⟨optional item, .optional⟩
  | map key value => .error ⟨map key value, .map⟩
  | reference target => .error ⟨reference target, .reference⟩
  | external target => .error ⟨external target, .external⟩

end TypeExpr

end ClientPlan
