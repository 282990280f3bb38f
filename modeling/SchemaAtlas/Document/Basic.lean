import SchemaAtlas.Schema.Node

namespace SchemaAtlas

structure DocumentInfo where
  title : String := ""
  version : String := ""
  description : Option String := none
deriving BEq, Repr

structure Server where
  url : String
  description : Option String := none
deriving BEq, Repr

-- The analysed dependencies: one entry for each schema, an emission order, and
-- the names that lie on a reference cycle.
structure DependencySummary where
  nodes : Entries (List String) := []
  topologicalOrder : List String := []
  circularReferences : List String := []
deriving BEq, Repr

structure EnumSummary where
  name : String
  values : List Json
  valueType : Option SchemaType := none
deriving BEq, Repr

inductive ParameterLocation where
  | path | query | header | cookie
deriving DecidableEq, Repr

namespace ParameterLocation

def all : List ParameterLocation := [.path, .query, .header, .cookie]

def name : ParameterLocation → String
  | .path => "path"
  | .query => "query"
  | .header => "header"
  | .cookie => "cookie"

def ofName? (text : String) : Option ParameterLocation := all.find? (·.name == text)

end ParameterLocation

structure Parameter where
  name : String
  location : ParameterLocation
  required : Bool
  deprecated : Bool := false
  description : Option String := none
  schema : Option SchemaNode := none
  style : Option String := none
  explode : Option Bool := none
  component : Option String := none
deriving BEq, Repr

structure ParameterGroups where
  path : List Parameter := []
  query : List Parameter := []
  header : List Parameter := []
  cookie : List Parameter := []
deriving BEq, Repr

def ParameterGroups.ofParameters (parameters : List Parameter) : ParameterGroups :=
  let at_ (location : ParameterLocation) := parameters.filter fun p => p.location == location
  { path := at_ .path, query := at_ .query, header := at_ .header, cookie := at_ .cookie }

structure MediaType where
  schema : Option SchemaNode := none
deriving BEq, Repr

structure RequestBody where
  description : Option String := none
  required : Bool := false
  content : Entries MediaType := []
  component : Option String := none
deriving BEq, Repr

structure Header where
  description : Option String := none
  required : Bool := false
  deprecated : Bool := false
  schema : Option SchemaNode := none
deriving BEq, Repr

structure Response where
  description : Option String := none
  content : Entries MediaType := []
  headers : Entries Header := []
  component : Option String := none
deriving BEq, Repr

structure OperationResponse where
  status : String
  response : Response
deriving BEq, Repr

namespace OperationResponse

def isSuccess (r : OperationResponse) : Bool := r.status.toList.head? == some '2'
def isDefault (r : OperationResponse) : Bool := r.status == "default"

end OperationResponse

inductive ResponseAdvisory where
  | missingSuccess | defaultOnly
deriving DecidableEq, Repr

namespace ResponseAdvisory

def all : List ResponseAdvisory := [.missingSuccess, .defaultOnly]

def name : ResponseAdvisory → String
  | .missingSuccess => "missingSuccess"
  | .defaultOnly => "defaultOnly"

def ofName? (text : String) : Option ResponseAdvisory := all.find? (·.name == text)

end ResponseAdvisory

abbrev SecurityRequirement := Entries (List String)

inductive SecuritySchemeType where
  | apiKey | http | oauth2 | openIdConnect | mutualTLS
deriving DecidableEq, Repr

namespace SecuritySchemeType

def all : List SecuritySchemeType := [.apiKey, .http, .oauth2, .openIdConnect, .mutualTLS]

def name : SecuritySchemeType → String
  | .apiKey => "apiKey"
  | .http => "http"
  | .oauth2 => "oauth2"
  | .openIdConnect => "openIdConnect"
  | .mutualTLS => "mutualTLS"

def ofName? (text : String) : Option SecuritySchemeType := all.find? (·.name == text)

end SecuritySchemeType

structure OAuthFlow where
  authorizationUrl : Option String := none
  tokenUrl : Option String := none
  refreshUrl : Option String := none
  scopes : Entries String := []
deriving BEq, Repr

structure OAuthFlows where
  implicit : Option OAuthFlow := none
  password : Option OAuthFlow := none
  clientCredentials : Option OAuthFlow := none
  authorizationCode : Option OAuthFlow := none
deriving BEq, Repr

structure SecurityScheme where
  type : SecuritySchemeType
  description : Option String := none
  name : Option String := none
  location : Option ParameterLocation := none
  scheme : Option String := none
  bearerFormat : Option String := none
  flows : Option OAuthFlows := none
  openIdConnectUrl : Option String := none
deriving BEq, Repr

inductive HttpMethod where
  | get | put | post | delete | options | head | patch | trace
deriving DecidableEq, Repr

namespace HttpMethod

def all : List HttpMethod := [.get, .put, .post, .delete, .options, .head, .patch, .trace]

def name : HttpMethod → String
  | .get => "get"
  | .put => "put"
  | .post => "post"
  | .delete => "delete"
  | .options => "options"
  | .head => "head"
  | .patch => "patch"
  | .trace => "trace"

def ofName? (text : String) : Option HttpMethod := all.find? (·.name == text)

end HttpMethod

structure Operation where
  method : HttpMethod
  path : String
  operationId : Option String := none
  summary : Option String := none
  description : Option String := none
  deprecated : Bool := false
  tags : List String := []
  parameters : List Parameter := []
  parameterGroups : ParameterGroups := {}
  requestBody : Option RequestBody := none
  responses : List OperationResponse := []
  security : Option (List SecurityRequirement) := none
  responseAdvisory : Option ResponseAdvisory := none
deriving BEq, Repr

namespace Operation

def isPublic (o : Operation) : Bool :=
  match o.security with
  | some [] => true
  | _ => false

def response? (o : Operation) (status : String) : Option OperationResponse :=
  o.responses.find? (·.status == status)

end Operation

inductive Component where
  | schema (name : String) (node : SchemaNode)
  | parameter (name : String) (parameter : Parameter)
  | response (name : String) (response : Response)
  | requestBody (name : String) (body : RequestBody)
  | securityScheme (name : String) (scheme : SecurityScheme)
deriving BEq, Repr

namespace Component

def name : Component → String
  | schema name _ | parameter name _ | response name _ | requestBody name _ | securityScheme name _ => name

def kind : Component → Section
  | schema .. => .schemas
  | parameter .. => .parameters
  | response .. => .responses
  | requestBody .. => .requestBodies
  | securityScheme .. => .securitySchemes

def asSchema? : Component → Option (String × SchemaNode)
  | schema name node => some (name, node)
  | _ => none

def mapSchema (f : String → SchemaNode → SchemaNode) : Component → Component
  | schema name node => schema name (f name node)
  | other => other

end Component

structure Document where
  version : String := "1.0.0"
  sourceFormatVersion : String
  info : DocumentInfo := {}
  servers : List Server := []
  security : Option (List SecurityRequirement) := none
  components : List Component := []
  operations : List Operation := []
  dependencyGraph : DependencySummary := {}
  schemaNames : List String := []
  enums : Entries EnumSummary := []
deriving BEq, Repr

namespace Document

def schemas (d : Document) : List (String × SchemaNode) := d.components.filterMap Component.asSchema?

def schema? (d : Document) (name : String) : Option SchemaNode :=
  (d.schemas.find? (·.1 == name)).map Prod.snd

def mapSchemas (f : String → SchemaNode → SchemaNode) (d : Document) : Document :=
  { d with components := d.components.map (Component.mapSchema f) }

def component? (d : Document) (kind : Section) (name : String) : Option Component :=
  d.components.find? fun c => c.kind == kind && c.name == name

def operation? (d : Document) (method : HttpMethod) (path : String) : Option Operation :=
  d.operations.find? fun o => o.method == method && o.path == path

end Document
end SchemaAtlas
