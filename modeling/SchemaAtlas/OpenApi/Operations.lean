import SchemaAtlas.OpenApi.Schemas
import SchemaAtlas.OpenApi.Security

namespace SchemaAtlas
namespace OpenApi

-- Parameters, bodies, responses and headers are resolved in place; what came from
-- a component keeps its name and is read where the component stands.

def resolved (kind : Section) (read : Place → Json → Option String → Except Failure α) (p : Place) (value : Json) :
    Except Failure α := do
  match ← referenceOf p value with
  | none => read p value none
  | some text =>
    let (name, target) ← resolveHere p text kind
    read (p.at_ ["components", kind.segment, name]) target (some name)

def schemaUnder (p : Place) (required : Bool) (value : Json) : Except Failure (Option SchemaNode) :=
  match value.get? "schema" with
  | none => .ok none
  | some schema => (readSchema ((p.child "schema").withRequired required) schema).map some

def firstContentSchema (p : Place) (required : Bool) (content : Json) : Except Failure (Option SchemaNode) :=
  match content with
  | .object ((media, entry) :: _) => schemaUnder (p.token media) required entry
  | _ => .ok none

def parameterSchema (p : Place) (m : Members) (required : Bool) : Except Failure (Option SchemaNode) :=
  if m.contains "schema" then schemaUnder p required (.object m)
  else
    match m.get? "content" with
    | some content => firstContentSchema (p.token "content") required content
    | none => .ok none

-- A parameter of the path is required whatever it says.
def readParameterBody (p : Place) (value : Json) (component : Option String) : Except Failure Parameter := do
  let m ← p.objectOr "parameter must be an object" value
  let some name := m.text? "name" | throw (p.shapeError "parameter requires a name")
  let some locationName := m.text? "in" | throw (p.shapeError "parameter requires a location")
  let location ← readLocation p locationName
  let required := location == .path || m.flag "required"
  let schema ← parameterSchema p m required
  return {
    name := name
    location := location
    required := required
    deprecated := m.flag "deprecated"
    description := m.text? "description"
    schema := schema
    style := m.text? "style"
    explode := m.flag? "explode"
    component := component }

def readParameter : Place → Json → Except Failure Parameter := resolved .parameters readParameterBody

def readParameterList (p : Place) (value : Json) : Except Failure (List Parameter) := do
  let items ← p.arrayOr "parameters must be an array" value
  (numbered items).mapM fun (index, item) => readParameter (p.token index) item

-- A parameter takes the place of the first one with its name and location, or
-- goes to the end.
def mergeParameter : List Parameter → Parameter → List Parameter
  | [], parameter => [parameter]
  | other :: rest, parameter =>
    if other.name = parameter.name ∧ other.location = parameter.location then parameter :: rest
    else other :: mergeParameter rest parameter

def readMediaType (p : Place) (value : Json) : Except Failure MediaType :=
  (schemaUnder p true value).map fun schema => { schema := schema }

def readContent (p : Place) (m : Members) : Except Failure (Entries MediaType) :=
  match m.get? "content" with
  | none => .ok []
  | some value => do
    let place := p.token "content"
    let declared ← place.objectOr "content must be an object" value
    readEntries (fun media entry => readMediaType (place.token media) entry) declared

def readRequestBodyBody (p : Place) (value : Json) (component : Option String) : Except Failure RequestBody := do
  let m ← p.objectOr "request body must be an object" value
  let content ← readContent p m
  return { description := m.text? "description", required := m.flag "required", content := content
           component := component }

def readRequestBody : Place → Json → Except Failure RequestBody := resolved .requestBodies readRequestBodyBody

def readHeaderBody (p : Place) (value : Json) (_ : Option String) : Except Failure Header := do
  let m ← p.objectOr "header must be an object" value
  let required := m.flag "required"
  let schema ← schemaUnder p required value
  return { description := m.text? "description", required := required, deprecated := m.flag "deprecated"
           schema := schema }

def readHeader : Place → Json → Except Failure Header := resolved .headers readHeaderBody

def readHeaders (p : Place) (m : Members) : Except Failure (Entries Header) :=
  match m.get? "headers" with
  | none => .ok []
  | some value => do
    let place := p.token "headers"
    let declared ← place.objectOr "headers must be an object" value
    readEntries (fun name header => readHeader (place.token name) header) declared

def readResponseBody (p : Place) (value : Json) (component : Option String) : Except Failure Response := do
  let m ← p.objectOr "response must be an object" value
  let headers ← readHeaders p m
  let content ← readContent p m
  return { description := m.text? "description", content := content, headers := headers, component := component }

def readResponse : Place → Json → Except Failure Response := resolved .responses readResponseBody

def readResponses (p : Place) (value : Json) : Except Failure (List OperationResponse) := do
  let declared ← p.objectOr "responses must be an object" value
  declared.mapM fun (status, response) => do
    return { status := status, response := ← readResponse (p.token status) response }

def responseAdvisory (responses : List OperationResponse) : Option ResponseAdvisory :=
  if responses.any OperationResponse.isSuccess then none
  else if responses.any OperationResponse.isDefault then some .defaultOnly
  else some .missingSuccess

structure Shared where
  path : String
  parameters : List Parameter
  security : Option (List SecurityRequirement)

-- Security that an operation states itself wins, even when it is empty.
def readOperation (shared : Shared) (p : Place) (method : HttpMethod) (value : Json) : Except Failure Operation := do
  let m ← p.objectOr "operation must be an object" value
  let own ← m.at? "parameters" (readParameterList (p.token "parameters"))
  let parameters := (own.getD []).foldl mergeParameter shared.parameters
  let requestBody ← m.at? "requestBody" (readRequestBody (p.token "requestBody"))
  let responses ← m.at? "responses" (readResponses (p.token "responses"))
  let responses := responses.getD []
  let security ← m.at? "security" (readRequirements (p.token "security"))
  return {
    method := method
    path := shared.path
    operationId := m.text? "operationId"
    summary := m.text? "summary"
    description := m.text? "description"
    deprecated := m.flag "deprecated"
    tags := m.texts "tags"
    parameters := parameters
    parameterGroups := .ofParameters parameters
    requestBody := requestBody
    responses := responses
    security := security.or shared.security
    responseAdvisory := responseAdvisory responses }

-- The operations of one path; keys that name no method are skipped.
def readPathItem (p : Place) (security : Option (List SecurityRequirement)) (path : String) (value : Json) :
    Except Failure (List Operation) := do
  let m ← p.objectOr "path item must be an object" value
  if m.contains "$ref" then throw (p.shapeError "path item references must be bundled first")
  let parameters ← m.at? "parameters" (readParameterList (p.token "parameters"))
  let shared : Shared := { path := path, parameters := parameters.getD [], security := security }
  let methods := m.filterMap fun (key, value) => (HttpMethod.ofName? key).map (key, ·, value)
  methods.mapM fun (key, method, value) => readOperation shared (p.token key) method value

def readPaths (start : Place) (security : Option (List SecurityRequirement)) : Except Failure (List Operation) :=
  match start.root.get? "paths" with
  | none => .ok []
  | some value => do
    let some paths := value.asObject? | throw (.invalidDocument "paths must be an object")
    let operations ← paths.mapM fun (path, item) => readPathItem (start.at_ ["paths", path]) security path item
    return operations.flatten

end OpenApi
end SchemaAtlas
