import ClientPlan.Document.Basic
import ClientPlan.Document.Version

/-!
# Checking Documents

The document that a JSON value stands for, or everything that is wrong with the
value.

Objects may hold more than is looked at here, such as documentation and the
declarations of types; what is not looked at may be anything. The order in
which problems are reported is the order in which the parts of a document are
declared here, whatever the order of the entries. A type can hold others, and no
more than the limits allow for may stand within each other, so the check of a type
is told how much room there is at its place.

## Main definitions

* `Document.checkType`: The check of a type.
* `Document.ofJson`: The check of a document.
-/

namespace ClientPlan

namespace Document

/-- A name with its package, which may be absent or null. -/
def checkTypeName (room : Room) (value : Json) : Checked TypeName :=
  within room fun _ => object .typeName value fun entries _ =>
    ((required (.plain "name") entries fun v _ => checkString v).both
      (defaulted (.plain "package") none entries fun v _ => nullable v checkString)).map
      fun (name, package) => ⟨name, package⟩

/-- The value behind the field that is named like the tag of an object. -/
def content {α : Type} (category : Category) (entries : List (Json.Str × Json))
    (check : (value : Json) → sizeOf value < sizeOf entries → Checked α) : Checked α :=
  required (.plain category.word) entries check

/-- The field that holds the type of the items of a collection or an optional. -/
def itemField : Field := ⟨"itemType", "item_type"⟩

/-- The field that holds the type of the keys of a map. -/
def keyField : Field := ⟨"keyType", "key_type"⟩

/-- The field that holds the type of the values of a map. -/
def valueField : Field := ⟨"valueType", "value_type"⟩

/-- The field that holds the name of a type that comes from elsewhere. -/
def externalField : Field := ⟨"externalReference", "external_reference"⟩

/-- A type that comes from elsewhere, with or without a fallback. -/
def withFallback (target : TypeName) : Option TypeForm → TypeForm
  | none => .external target
  | some fallback => .externalOr target fallback

/-- A type. It takes a level, and so does the object around the items of a collection or
    an optional, and so does a name. -/
def checkType (room : Room) (value : Json) : Checked TypeForm :=
  tagged Category.all Category.word value fun entries _ category =>
    within room fun room =>
      match category with
      | .primitive =>
        (content .primitive entries fun v _ => checkWord Primitive.all Primitive.wireName v).map
          TypeForm.primitive
      | .optional =>
        (content .optional entries fun v _ => within room fun room => object .item v fun inner _ =>
          required itemField inner fun t _ => checkType room t).map TypeForm.optional
      | .list =>
        (content .list entries fun v _ => within room fun room => object .item v fun inner _ =>
          required itemField inner fun t _ => checkType room t).map TypeForm.list
      | .set =>
        (content .set entries fun v _ => within room fun room => object .item v fun inner _ =>
          required itemField inner fun t _ => checkType room t).map TypeForm.set
      | .map =>
        -- The object around the two types takes no level, unlike the one around an item.
        (content .map entries fun v _ => object .map v fun inner _ =>
          (required keyField inner fun t _ => checkType room t).both
            (required valueField inner fun t _ => checkType room t)).map
          fun (key, value) => .map key value
      | .reference =>
        (content .reference entries fun v _ => checkTypeName room v).map TypeForm.reference
      | .external =>
        (content .external entries fun v _ => object .external v fun inner _ =>
          (required externalField inner fun t _ => checkTypeName room t).both
            -- The fallback may be absent or null, and nothing tells the two apart later on.
            (defaulted (.plain "fallback") none inner fun t _ =>
              match t with
              | .null => .ok none
              | t => (checkType room t).map some)).map
          fun (target, fallback) => withFallback target fallback
  termination_by sizeOf value

/-- The object that names a header or a query entry. -/
def checkParameter (value : Json) : Checked String :=
  object .parameter value fun entries _ =>
    required ⟨"paramId", "param_id"⟩ entries fun v _ => checkString v

/-- The object behind a location that has nothing to say. -/
def checkEmpty (value : Json) : Checked Unit :=
  object .empty value fun _ _ => .ok ()

/-- The location of an argument. -/
def checkLocation (value : Json) : Checked Location :=
  tagged Slot.all Slot.word value fun entries _ slot =>
    match slot with
    | .body =>
      (defaulted (.plain "body") () entries fun v _ => checkEmpty v).map fun _ => .body
    | .header =>
      (required (.plain "header") entries fun v _ => checkParameter v).map Location.header
    | .path =>
      (defaulted (.plain "path") () entries fun v _ => checkEmpty v).map fun _ => .path
    | .query => (required (.plain "query") entries fun v _ => checkParameter v).map Location.query

/-- An argument. -/
def checkArgument (limits : Limits) (value : Json) : Checked (Argument TypeForm) :=
  object .argument value fun entries _ =>
    ((required ⟨"argName", "arg_name"⟩ entries fun v _ => checkString v).both
      ((required (.plain "type") entries fun v _ => checkType limits.levels v).both
        (required ⟨"paramType", "param_type"⟩ entries fun v _ => checkLocation v))).map
      fun (name, type, location) => ⟨name, location, type⟩

/-- A way of authentication. -/
def checkAuth (value : Json) : Checked Auth :=
  object .auth value fun entries _ =>
    required (.plain "type") entries fun v _ => checkWord [.header, .cookie] Auth.word v

/-- An endpoint. Its method and its path have defaults, and the other parts but
    its name may be absent. -/
def checkEndpoint (limits : Limits) (value : Json) : Checked (Endpoint TypeForm) :=
  object .endpoint value fun entries _ =>
    ((required ⟨"endpointName", "endpoint_name"⟩ entries fun v _ => checkString v).both
      ((defaulted ⟨"httpMethod", "http_method"⟩ "GET" entries fun v _ => checkString v).both
        ((defaulted ⟨"httpPath", "http_path"⟩ "/" entries fun v _ => checkString v).both
          ((defaulted (.plain "auth") none entries fun v _ => nullable v checkAuth).both
            ((defaulted (.plain "args") [] entries fun v _ => listOf (checkArgument limits) v).both
              (defaulted (.plain "returns") none entries fun v _ =>
                nullable v (checkType limits.levels))))))).map
      fun (name, method, path, auth, args, returns) => ⟨name, args, returns, auth, method, path⟩

/-- A service. -/
def checkService (limits : Limits) (value : Json) : Checked (Service TypeForm) :=
  object .service value fun entries _ =>
    ((required ⟨"serviceName", "service_name"⟩ entries fun v _ =>
        checkTypeName limits.levels v).both
      (defaulted (.plain "endpoints") [] entries fun v _ => listOf (checkEndpoint limits) v)).map
      fun (name, endpoints) => ⟨name.name, name.package, endpoints⟩

/-- The document that a value stands for, or everything that is wrong with the
    value. -/
def ofJson (value : Json) (limits : Limits := .standard) : Checked Document :=
  object .document value fun entries _ =>
    ((defaulted (.plain "version") defaultVersion entries fun v _ => checkVersion limits v).both
      (defaulted (.plain "services") [] entries fun v _ => listOf (checkService limits) v)).map
      fun (version, services) => ⟨version, services⟩

end Document

end ClientPlan
