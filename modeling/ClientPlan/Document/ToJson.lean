import ClientPlan.Document.Basic
import ClientPlan.Json.Basic

/-!
# Writing Documents

The JSON value of a document, with every field present.

## Main definitions

* `TypeForm.toJson`: The value of a type.
* `Document.toJson`: The value of a document.
* `Document.encode`: The value of the plainest document with some services.
-/

namespace ClientPlan

/-- The value of a name. -/
def TypeName.toJson (t : TypeName) : Json :=
  .obj [("name", .str t.name), ("package", .ofOption .ofText t.package)]

/-- An object that says what it is by a tag, with its content under that tag. -/
def taggedJson (word : String) (content : Json) : Json :=
  .obj [("type", .str word), (word, content)]

/-- The value of a type. -/
def TypeForm.toJson : TypeForm → Json
  | primitive kind => taggedJson "primitive" (.str kind.wireName)
  | optional item => taggedJson "optional" (.obj [("itemType", item.toJson)])
  | list item => taggedJson "list" (.obj [("itemType", item.toJson)])
  | set item => taggedJson "set" (.obj [("itemType", item.toJson)])
  | map key value =>
    taggedJson "map" (.obj [("keyType", key.toJson), ("valueType", value.toJson)])
  | reference target => taggedJson "reference" target.toJson
  | external target =>
    taggedJson "external" (.obj [("externalReference", target.toJson), ("fallback", .null)])
  | externalOr target fallback =>
    taggedJson "external"
      (.obj [("externalReference", target.toJson), ("fallback", fallback.toJson)])

/-- The value of a location. -/
def Location.toJson : Location → Json
  | body => taggedJson "body" (.obj [])
  | header id => taggedJson "header" (.obj [("paramId", .str id)])
  | path => taggedJson "path" (.obj [])
  | query id => taggedJson "query" (.obj [("paramId", .str id)])

/-- The value of a way of authentication. -/
def Auth.toJson (a : Auth) : Json :=
  .obj [("type", .str a.word)]

/-- The value of an argument. -/
def Argument.toJson (a : Argument TypeForm) : Json :=
  .obj [("argName", .str a.name), ("type", a.type.toJson), ("paramType", a.location.toJson)]

/-- The value of an endpoint. -/
def Endpoint.toJson (e : Endpoint TypeForm) : Json :=
  .obj [("endpointName", .str e.name), ("httpMethod", .str e.method), ("httpPath", .str e.path),
    ("auth", .ofOption Auth.toJson e.auth), ("args", .arr (e.args.map Argument.toJson)),
    ("returns", .ofOption TypeForm.toJson e.returns)]

/-- The value of a service. -/
def Service.toJson (s : Service TypeForm) : Json :=
  .obj [("serviceName", TypeName.toJson ⟨s.name, s.package⟩),
    ("endpoints", .arr (s.endpoints.map Endpoint.toJson))]

namespace Document

/-- The value of a document. -/
def toJson (d : Document) : Json :=
  .obj [("version", .int d.version), ("services", .arr (d.services.map Service.toJson))]

/-- The value of the plainest document with some services. -/
def encode (services : List (Service TypeExpr)) : Json :=
  (ofDefinitions services).toJson

end Document

end ClientPlan
