import BrowserPilot.Service.Route
import BrowserPilot.Text.Pieces

/-! The OpenAPI description of the service. -/
namespace BrowserPilot.Service.Description

/-- A JSON schema, of which the empty one allows any value. -/
abbrev Schema := List (Text × Json)

def text : Schema := [("type", .str "string")]

def whole : Schema := [("type", .str "integer")]

def anyObject : Schema := [("type", .str "object")]

def listOf (item : Schema) : Schema := [("items", .obj item), ("type", .str "array")]

def oneOf (choices : List Schema) : Schema := [("anyOf", .arr (choices.map .obj))]

def orNull (s : Schema) : Schema := oneOf [s, [("type", .str "null")]]

/-- A reference to a schema among the components. -/
def reference (name : Text) : Schema := [("$ref", .str ("#/components/schemas/" ++ name))]

def titled (title : Text) (s : Schema) : Schema := ("title", .str title) :: s

structure Property where
  key : Text
  title : Text
  schema : Schema
  required : Bool

def record (title : Text) (properties : List Property) : Schema :=
  let required := (properties.filter (·.required)).map fun p => Json.str p.key
  let schema : Schema :=
    [("properties", .obj (properties.map fun p => (p.key, .obj (titled p.title p.schema)))), ("title", .str title),
     ("type", .str "object")]
  if required.isEmpty then schema else schema.append [("required", .arr required)]

def capitalize : List CodePoint → List CodePoint
  | [] => []
  | c :: cs => c.toUpper :: cs

def titleOf (name : Text) : Text :=
  Text.ofList (Text.joinPieces ' ' ((Text.pieces '_' name.toList).map capitalize))

/-! Payloads -/

def payloadName : PayloadKind → Text
  | .tools => "ToolsPayload"
  | .submission => "SubmitPayload"
  | .instructions => "LoadPayload"
  | .plan => "PlanPayload"

/-- The fields of a payload: key, schema, and whether it is required. -/
def payloadFields : PayloadKind → List (Text × Schema × Bool)
  | .tools => [("enabled_tools", listOf text, true)]
  | .submission => [("text", text, true)]
  | .instructions => [("content", text, true)]
  | .plan => [("plan", [], false), ("enabled_tools", orNull (listOf text), false)]

def payloadSchema (k : PayloadKind) : Schema :=
  record (payloadName k) ((payloadFields k).map fun f => ⟨f.1, titleOf f.1, f.2.1, f.2.2⟩)

/-! Payload errors -/

def defectName : Text := "ValidationError"

def defectSchema : Schema :=
  record defectName
    [⟨"loc", "Location", listOf (oneOf [text, whole]), true⟩, ⟨"msg", "Message", text, true⟩,
     ⟨"type", "Error Type", text, true⟩, ⟨"input", "Input", [], false⟩, ⟨"ctx", "Context", anyObject, false⟩]

def refusalName : Text := "HTTPValidationError"

def refusalSchema : Schema := record refusalName [⟨"detail", "Detail", listOf (reference defectName), false⟩]

/-! Routes -/

def operationName : Route → Text
  | .listTools => "list_tools"
  | .selectTools => "update_tools"
  | .submit => "submit"
  | .load => "load_instructions"
  | .validate => "validate"
  | .execute => "execute"
  | .exportTranscript => "export_history"
  | .clearHistory => "clear_history"
  | .describe => "describe"
  | .page _ => "page"

def methodKey (r : Route) : Text := r.method.toLower

/-- A name made of the operation, its path and its method, which no two operations share. -/
def operationId (r : Route) : Text :=
  let path := r.path.map fun c => if c.isAlphanum then c else '_'
  operationName r ++ path ++ "_" ++ methodKey r

def mediaSchema (type : Text) (s : Schema) : Json := .obj [(type, .obj [("schema", .obj s)])]

def jsonType : Text := "application/json"

def answerMedia : Route → Json
  | .exportTranscript => mediaSchema "text/plain" text
  | r@.submit | r@.load =>
    let object : Schema := ("additionalProperties", .bool true) :: anyObject
    mediaSchema jsonType (titled ("Response " ++ titleOf (operationId r)) object)
  | _ => mediaSchema jsonType []

def answerOf (description : Text) (media : Json) : Json :=
  .obj [("description", .str description), ("content", media)]

def success (r : Route) : Text × Json := ("200", answerOf "Successful Response" (answerMedia r))

def refusal : Text × Json := ("422", answerOf "Validation Error" (mediaSchema jsonType (reference refusalName)))

/-- The description of a route. Only routes with a payload have a validation error. -/
def operation (r : Route) : Json :=
  let naming : Schema := [("summary", .str (titleOf (operationName r))), ("operationId", .str (operationId r))]
  match r.payload? with
  | none => .obj (naming.append [("responses", .obj [success r])])
  | some k =>
    let body := Json.obj [("content", mediaSchema jsonType (reference (payloadName k))), ("required", .bool true)]
    .obj (naming.append [("requestBody", body), ("responses", .obj [success r, refusal])])

/-- The routes in the description, which leaves out those about the service itself. -/
def routes : List Route := Route.all.filter fun r => !r.isReflexive

def pathItem (path : Text) : Json :=
  .obj ((routes.filter (·.path == path)).map fun r => (methodKey r, operation r))

def payloads : List PayloadKind := [.tools, .submission, .instructions, .plan]

def components : List (Text × Json) :=
  payloads.map (fun k => (payloadName k, Json.obj (payloadSchema k))) ++
    [(defectName, .obj defectSchema), (refusalName, .obj refusalSchema)]

def title : Text := "Playwright Chat Runner"

def document : Json :=
  .obj [("openapi", .str "3.1.0"),
    ("info", .obj [("title", .str title), ("version", .str "0.1.0")]),
    ("paths", .obj ((routes.map Route.path).eraseDups.map fun path => (path, pathItem path))),
    ("components", .obj [("schemas", .obj components)])]

end BrowserPilot.Service.Description
