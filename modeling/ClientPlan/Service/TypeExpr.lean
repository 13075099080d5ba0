/-!
# Type Expressions

The types that endpoints of a service declare.

A type is a primitive, a collection or an optional over other types, or a name.
A name refers to a type that the same definitions declare, or to one that comes
from elsewhere; the two are different types even if their names agree. A name
may belong to a package. An empty package and no package are different, though
both are described alike.

## Main definitions

* `Primitive`: The primitive types.
* `TypeName`: The name of a declared type, with its package.
* `TypeExpr`: The types.
* `TypeExpr.category`: The outermost shape of a type.
* `TypeExpr.describe`: A type as definitions write it.
-/

namespace ClientPlan

/-- The primitive types. -/
inductive Primitive where
  | boolean
  | integer
  | double
  | string
  | uuid
  | rid
  | safelong
  | bearertoken
  | datetime
  deriving DecidableEq, Repr

namespace Primitive

/-- All primitive types, in the order in which messages list them. -/
def all : List Primitive :=
  [boolean, integer, double, string, uuid, rid, safelong, bearertoken, datetime]

/-- The name of a primitive in a definition document. -/
def wireName : Primitive → String
  | boolean => "BOOLEAN"
  | integer => "INTEGER"
  | double => "DOUBLE"
  | string => "STRING"
  | uuid => "UUID"
  | rid => "RID"
  | safelong => "SAFELONG"
  | bearertoken => "BEARERTOKEN"
  | datetime => "DATETIME"

/-- The name of a primitive in a described type. -/
def keyword : Primitive → String
  | boolean => "boolean"
  | integer => "integer"
  | double => "double"
  | string => "string"
  | uuid => "uuid"
  | rid => "rid"
  | safelong => "safelong"
  | bearertoken => "bearertoken"
  | datetime => "datetime"

/-- The name of the rule that writes a value of a primitive as plain text. -/
def ruleName : Primitive → String
  | boolean => "Boolean"
  | integer => "Integer"
  | double => "Double"
  | string => "String"
  | uuid => "Uuid"
  | rid => "Rid"
  | safelong => "SafeLong"
  | bearertoken => "BearerToken"
  | datetime => "DateTime"

/-- The primitive with a given name in a definition document. -/
def ofWireName? (name : String) : Option Primitive :=
  all.find? fun kind => kind.wireName = name

end Primitive

/-- The name of a declared type. -/
structure TypeName where
  name : String
  package : Option String
  deriving DecidableEq, Repr

/-- A name behind its package, if it has one that is not empty. -/
def TypeName.describe (t : TypeName) : String :=
  match t.package with
  | none => t.name
  | some package => if package = "" then t.name else package ++ "." ++ t.name

/-- The types that an endpoint can declare. -/
inductive TypeExpr where
  | primitive (kind : Primitive)
  | optional (item : TypeExpr)
  | list (item : TypeExpr)
  | set (item : TypeExpr)
  | map (key value : TypeExpr)
  /-- A type that the same definitions declare. -/
  | reference (target : TypeName)
  /-- A type that comes from elsewhere. -/
  | external (target : TypeName)
  deriving DecidableEq, Repr

/-- The outermost shapes of types. -/
inductive Category where
  | primitive
  | optional
  | list
  | set
  | map
  | reference
  | external
  deriving DecidableEq, Repr

/-- The word for a shape, in documents as well as in described types. -/
def Category.word : Category → String
  | primitive => "primitive"
  | optional => "optional"
  | list => "list"
  | set => "set"
  | map => "map"
  | reference => "reference"
  | external => "external"

/-- All shapes, in the order in which messages list them. -/
def Category.all : List Category :=
  [primitive, optional, list, set, map, reference, external]

namespace TypeExpr

/-- The outermost shape of a type. -/
def category : TypeExpr → Category
  | primitive _ => .primitive
  | optional _ => .optional
  | list _ => .list
  | set _ => .set
  | map _ _ => .map
  | reference _ => .reference
  | external _ => .external

/-- A type as definitions write it, such as `optional<list<integer>>`. -/
def describe : TypeExpr → String
  | primitive kind => kind.keyword
  | optional item => "optional<" ++ item.describe ++ ">"
  | list item => "list<" ++ item.describe ++ ">"
  | set item => "set<" ++ item.describe ++ ">"
  | map key value => "map<" ++ key.describe ++ ", " ++ value.describe ++ ">"
  | reference target => target.describe
  | external target => target.describe

end TypeExpr

end ClientPlan
