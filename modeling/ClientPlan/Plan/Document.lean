import ClientPlan.Json.Basic
import ClientPlan.Plan.Service

/-!
# Plan Documents

Plans as JSON values, in the form that is handed to the generator of client
code. A type appears as its description, and what does not apply is null, with
one exception: a rule that does not serialize a body has no entry for a type.

## Main definitions

* `Encoding.toJson`, `Instruction.toJson`, `Decoder.toJson`: The parts.
* `EndpointPlan.toJson`, `ServicePlan.toJson`: The plans.
-/

namespace ClientPlan

/-- A rule as a document. -/
def Encoding.toJson (e : Encoding) : Json :=
  .obj (("kind", .str e.family) :: ("name", .str e.name) ::
    match e.type? with
    | none => []
    | some type => [("type", .str type.describe)])

/-- A placement as a document. -/
def Instruction.toJson (i : Instruction) : Json :=
  .obj [("argument", .str i.argument.name), ("slot", .str i.slot.word),
    ("wireName", .ofOption .ofText i.wireName), ("encoding", i.encoding.toJson),
    ("multiValued", .bool i.multiValued), ("conditional", .bool i.conditional)]

/-- A decoder as a document. -/
def Decoder.toJson (d : Decoder) : Json :=
  .obj [("kind", .str d.word), ("handle", .str d.handle),
    ("type", .ofOption (fun type => .str type.describe) d.type)]

/-- The plan of an endpoint as a document. -/
def EndpointPlan.toJson (p : EndpointPlan) : Json :=
  .obj [("endpoint", .str p.endpoint.name), ("httpMethod", .str p.endpoint.method),
    ("httpPath", .str p.endpoint.path),
    ("instructions", .arr (p.instructions.map Instruction.toJson)),
    ("decoder", p.decoder.toJson)]

/-- The plan of a service as a document. -/
def ServicePlan.toJson (p : ServicePlan) : Json :=
  .obj [("service", .str p.service.name), ("package", .ofOption .ofText p.service.package),
    ("endpoints", .arr (p.endpoints.map EndpointPlan.toJson))]

end ClientPlan
