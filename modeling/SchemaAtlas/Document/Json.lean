import SchemaAtlas.Document.Basic
import SchemaAtlas.Schema.Json

namespace SchemaAtlas

open Json (field fieldOf flagField listOf mapOf fields? readAny readList readMap readName)

namespace DocumentInfo

def toJson (i : DocumentInfo) : Json :=
  .object (field "title" (.string i.title) ++ field "version" (.string i.version) ++
    fieldOf "description" .string i.description)

def ofJson? (value : Json) : Option DocumentInfo := do
  let f ← fields? ["title", "version", "description"] value
  return { title := ← f.required? "title" Json.asString?
           version := ← f.required? "version" Json.asString?
           description := ← f.optional? "description" Json.asString? }

end DocumentInfo

namespace Server

def toJson (s : Server) : Json :=
  .object (field "url" (.string s.url) ++ fieldOf "description" .string s.description)

def ofJson? (value : Json) : Option Server := do
  let f ← fields? ["url", "description"] value
  return { url := ← f.required? "url" Json.asString?
           description := ← f.optional? "description" Json.asString? }

end Server

def dependenciesJson (names : List String) : Json := .object (field "dependencies" (Json.ofStrings names))

def readDependencies (value : Json) : Option (List String) := do
  let f ← fields? ["dependencies"] value
  f.required? "dependencies" (readList Json.asString?)

namespace DependencySummary

def toJson (s : DependencySummary) : Json :=
  .object (field "nodes" (mapOf dependenciesJson s.nodes) ++
    field "topologicalOrder" (Json.ofStrings s.topologicalOrder) ++
    field "circularReferences" (Json.ofStrings s.circularReferences))

def ofJson? (value : Json) : Option DependencySummary := do
  let f ← fields? ["nodes", "topologicalOrder", "circularReferences"] value
  return { nodes := ← f.required? "nodes" (readMap readDependencies)
           topologicalOrder := ← f.required? "topologicalOrder" (readList Json.asString?)
           circularReferences := ← f.required? "circularReferences" (readList Json.asString?) }

end DependencySummary

namespace EnumSummary

def toJson (e : EnumSummary) : Json :=
  .object (field "name" (.string e.name) ++ field "values" (.array e.values) ++
    fieldOf "valueType" (fun t => .string t.name) e.valueType)

def ofJson? (value : Json) : Option EnumSummary := do
  let f ← fields? ["name", "values", "valueType"] value
  return { name := ← f.required? "name" Json.asString?
           values := ← f.required? "values" Json.asArray?
           valueType := ← f.optional? "valueType" (readName SchemaType.ofName?) }

end EnumSummary

namespace Parameter

def keys : List String :=
  ["name", "in", "required", "deprecated", "description", "schema", "style", "explode", "component"]

def toJson (p : Parameter) : Json :=
  .object (field "name" (.string p.name) ++ field "in" (.string p.location.name) ++
    field "required" (.bool p.required) ++ flagField "deprecated" p.deprecated ++
    fieldOf "description" .string p.description ++ fieldOf "schema" SchemaNode.toJson p.schema ++
    fieldOf "style" .string p.style ++ fieldOf "explode" .bool p.explode ++
    fieldOf "component" .string p.component)

def ofJson? (value : Json) : Option Parameter := do
  let f ← fields? keys value
  return { name := ← f.required? "name" Json.asString?
           location := ← f.required? "in" (readName ParameterLocation.ofName?)
           required := ← f.required? "required" Json.asBool?
           deprecated := ← f.default? "deprecated" Json.asBool? false
           description := ← f.optional? "description" Json.asString?
           schema := ← f.optional? "schema" SchemaNode.ofJson?
           style := ← f.optional? "style" Json.asString?
           explode := ← f.optional? "explode" Json.asBool?
           component := ← f.optional? "component" Json.asString? }

end Parameter

namespace ParameterGroups

def toJson (g : ParameterGroups) : Json :=
  .object (field "path" (listOf Parameter.toJson g.path) ++ field "query" (listOf Parameter.toJson g.query) ++
    field "header" (listOf Parameter.toJson g.header) ++ field "cookie" (listOf Parameter.toJson g.cookie))

def ofJson? (value : Json) : Option ParameterGroups := do
  let f ← fields? ["path", "query", "header", "cookie"] value
  return { path := ← f.required? "path" (readList Parameter.ofJson?)
           query := ← f.required? "query" (readList Parameter.ofJson?)
           header := ← f.required? "header" (readList Parameter.ofJson?)
           cookie := ← f.required? "cookie" (readList Parameter.ofJson?) }

end ParameterGroups

namespace MediaType

def toJson (m : MediaType) : Json := .object (fieldOf "schema" SchemaNode.toJson m.schema)

def ofJson? (value : Json) : Option MediaType := do
  let f ← fields? ["schema"] value
  return { schema := ← f.optional? "schema" SchemaNode.ofJson? }

end MediaType

namespace RequestBody

def toJson (b : RequestBody) : Json :=
  .object (fieldOf "description" .string b.description ++ field "required" (.bool b.required) ++
    field "content" (mapOf MediaType.toJson b.content) ++ fieldOf "component" .string b.component)

def ofJson? (value : Json) : Option RequestBody := do
  let f ← fields? ["description", "required", "content", "component"] value
  return { description := ← f.optional? "description" Json.asString?
           required := ← f.required? "required" Json.asBool?
           content := ← f.required? "content" (readMap MediaType.ofJson?)
           component := ← f.optional? "component" Json.asString? }

end RequestBody

namespace Header

def toJson (h : Header) : Json :=
  .object (fieldOf "description" .string h.description ++ field "required" (.bool h.required) ++
    flagField "deprecated" h.deprecated ++ fieldOf "schema" SchemaNode.toJson h.schema)

def ofJson? (value : Json) : Option Header := do
  let f ← fields? ["description", "required", "deprecated", "schema"] value
  return { description := ← f.optional? "description" Json.asString?
           required := ← f.required? "required" Json.asBool?
           deprecated := ← f.default? "deprecated" Json.asBool? false
           schema := ← f.optional? "schema" SchemaNode.ofJson? }

end Header

namespace Response

def fields (r : Response) : Entries Json :=
  fieldOf "description" .string r.description ++ field "content" (mapOf MediaType.toJson r.content) ++
    field "headers" (mapOf Header.toJson r.headers) ++ fieldOf "component" .string r.component

def toJson (r : Response) : Json := .object r.fields

def ofFields? (f : Json.Fields) : Option Response := do
  return { description := ← f.optional? "description" Json.asString?
           content := ← f.default? "content" (readMap MediaType.ofJson?) []
           headers := ← f.default? "headers" (readMap Header.ofJson?) []
           component := ← f.optional? "component" Json.asString? }

def ofJson? (value : Json) : Option Response := do
  let f ← fields? ["description", "content", "headers", "component"] value
  ofFields? f

end Response

namespace OperationResponse

def toJson (r : OperationResponse) : Json := .object (field "status" (.string r.status) ++ r.response.fields)

def ofJson? (value : Json) : Option OperationResponse :=
  match value with
  | .object entries => do
    let f : Json.Fields := Entries.get? entries
    return { status := ← f.required? "status" Json.asString?
             response := ← Response.ofFields? f }
  | _ => none

end OperationResponse

namespace SecurityRequirement

def toJson (r : SecurityRequirement) : Json := mapOf Json.ofStrings r
def ofJson? (value : Json) : Option SecurityRequirement := readMap (readList Json.asString?) value

end SecurityRequirement

namespace OAuthFlow

def toJson (o : OAuthFlow) : Json :=
  .object (fieldOf "authorizationUrl" .string o.authorizationUrl ++ fieldOf "tokenUrl" .string o.tokenUrl ++
    fieldOf "refreshUrl" .string o.refreshUrl ++ field "scopes" (mapOf .string o.scopes))

def ofJson? (value : Json) : Option OAuthFlow := do
  let f ← fields? ["authorizationUrl", "tokenUrl", "refreshUrl", "scopes"] value
  return { authorizationUrl := ← f.optional? "authorizationUrl" Json.asString?
           tokenUrl := ← f.optional? "tokenUrl" Json.asString?
           refreshUrl := ← f.optional? "refreshUrl" Json.asString?
           scopes := ← f.default? "scopes" (readMap Json.asString?) [] }

end OAuthFlow

namespace OAuthFlows

def toJson (o : OAuthFlows) : Json :=
  .object (fieldOf "implicit" OAuthFlow.toJson o.implicit ++ fieldOf "password" OAuthFlow.toJson o.password ++
    fieldOf "clientCredentials" OAuthFlow.toJson o.clientCredentials ++
    fieldOf "authorizationCode" OAuthFlow.toJson o.authorizationCode)

def ofJson? (value : Json) : Option OAuthFlows := do
  let f ← fields? ["implicit", "password", "clientCredentials", "authorizationCode"] value
  return { implicit := ← f.optional? "implicit" OAuthFlow.ofJson?
           password := ← f.optional? "password" OAuthFlow.ofJson?
           clientCredentials := ← f.optional? "clientCredentials" OAuthFlow.ofJson?
           authorizationCode := ← f.optional? "authorizationCode" OAuthFlow.ofJson? }

end OAuthFlows

namespace SecurityScheme

def keys : List String :=
  ["type", "description", "name", "in", "scheme", "bearerFormat", "flows", "openIdConnectUrl"]

def toJson (s : SecurityScheme) : Json :=
  .object (field "type" (.string s.type.name) ++ fieldOf "description" .string s.description ++
    fieldOf "name" .string s.name ++ fieldOf "in" (fun l => .string l.name) s.location ++
    fieldOf "scheme" .string s.scheme ++ fieldOf "bearerFormat" .string s.bearerFormat ++
    fieldOf "flows" OAuthFlows.toJson s.flows ++ fieldOf "openIdConnectUrl" .string s.openIdConnectUrl)

def ofJson? (value : Json) : Option SecurityScheme := do
  let f ← fields? keys value
  return { type := ← f.required? "type" (readName SecuritySchemeType.ofName?)
           description := ← f.optional? "description" Json.asString?
           name := ← f.optional? "name" Json.asString?
           location := ← f.optional? "in" (readName ParameterLocation.ofName?)
           scheme := ← f.optional? "scheme" Json.asString?
           bearerFormat := ← f.optional? "bearerFormat" Json.asString?
           flows := ← f.optional? "flows" OAuthFlows.ofJson?
           openIdConnectUrl := ← f.optional? "openIdConnectUrl" Json.asString? }

end SecurityScheme

namespace Operation

def keys : List String :=
  ["method", "path", "operationId", "summary", "description", "deprecated", "tags", "parameters", "parameterGroups",
   "requestBody", "responses", "security", "responseAdvisory"]

def toJson (o : Operation) : Json :=
  .object (field "method" (.string o.method.name) ++ field "path" (.string o.path) ++
    fieldOf "operationId" .string o.operationId ++ fieldOf "summary" .string o.summary ++
    fieldOf "description" .string o.description ++ flagField "deprecated" o.deprecated ++
    field "tags" (Json.ofStrings o.tags) ++ field "parameters" (listOf Parameter.toJson o.parameters) ++
    field "parameterGroups" o.parameterGroups.toJson ++ fieldOf "requestBody" RequestBody.toJson o.requestBody ++
    field "responses" (listOf OperationResponse.toJson o.responses) ++
    fieldOf "security" (listOf SecurityRequirement.toJson) o.security ++
    fieldOf "responseAdvisory" (fun a => .string a.name) o.responseAdvisory)

def ofJson? (value : Json) : Option Operation := do
  let f ← fields? keys value
  return { method := ← f.required? "method" (readName HttpMethod.ofName?)
           path := ← f.required? "path" Json.asString?
           operationId := ← f.optional? "operationId" Json.asString?
           summary := ← f.optional? "summary" Json.asString?
           description := ← f.optional? "description" Json.asString?
           deprecated := ← f.default? "deprecated" Json.asBool? false
           tags := ← f.default? "tags" (readList Json.asString?) []
           parameters := ← f.required? "parameters" (readList Parameter.ofJson?)
           parameterGroups := ← f.required? "parameterGroups" ParameterGroups.ofJson?
           requestBody := ← f.optional? "requestBody" RequestBody.ofJson?
           responses := ← f.required? "responses" (readList OperationResponse.ofJson?)
           security := ← f.optional? "security" (readList SecurityRequirement.ofJson?)
           responseAdvisory := ← f.optional? "responseAdvisory" (readName ResponseAdvisory.ofName?) }

end Operation

namespace Component

def bodyKey : Section → String
  | .parameters => "parameter"
  | .responses => "response"
  | .requestBodies => "body"
  | .securitySchemes => "scheme"
  | _ => "schema"

def bodyJson : Component → Json
  | schema _ node => node.toJson
  | parameter _ p => p.toJson
  | response _ r => r.toJson
  | requestBody _ b => b.toJson
  | securityScheme _ s => s.toJson

def toJson (c : Component) : Json :=
  .object (field "kind" (.string c.kind.memberName) ++ field "name" (.string c.name) ++
    field (bodyKey c.kind) c.bodyJson)

def kindOfName? (text : String) : Option Section :=
  [Section.schemas, .parameters, .responses, .requestBodies, .securitySchemes].find? (·.memberName == text)

def untag? : Json → Option (String × Json)
  | .object entries => do
    let kind ← (Entries.get? entries "kind").bind Json.asString?
    return (kind, .object (entries.filter fun entry => entry.1 != "kind"))
  | .array (.string kind :: rest) => some (kind, .array rest)
  | _ => none

def ofJson? (value : Json) : Option Component := do
  let (tag, record) ← untag? value
  let kind ← kindOfName? tag
  let f ← fields? ["name", bodyKey kind] record
  let name ← f.required? "name" Json.asString?
  let body ← f (bodyKey kind)
  match kind with
  | .parameters => (Parameter.ofJson? body).map (parameter name)
  | .responses => (Response.ofJson? body).map (response name)
  | .requestBodies => (RequestBody.ofJson? body).map (requestBody name)
  | .securitySchemes => (SecurityScheme.ofJson? body).map (securityScheme name)
  | _ => (SchemaNode.ofJson? body).map (schema name)

end Component

namespace Document

def keys : List String :=
  ["version", "sourceFormatVersion", "info", "servers", "security", "components", "operations", "dependencyGraph",
   "schemaNames", "enums"]

def toJson (d : Document) : Json :=
  .object (field "version" (.string d.version) ++
    field "sourceFormatVersion" (.string d.sourceFormatVersion) ++
    field "info" d.info.toJson ++
    field "servers" (listOf Server.toJson d.servers) ++
    fieldOf "security" (listOf SecurityRequirement.toJson) d.security ++
    field "components" (listOf Component.toJson d.components) ++
    field "operations" (listOf Operation.toJson d.operations) ++
    field "dependencyGraph" d.dependencyGraph.toJson ++
    field "schemaNames" (Json.ofStrings d.schemaNames) ++
    field "enums" (mapOf EnumSummary.toJson d.enums))

def ofJson? (value : Json) : Option Document := do
  let f ← fields? keys value
  return { version := ← f.required? "version" Json.asString?
           sourceFormatVersion := ← f.required? "sourceFormatVersion" Json.asString?
           info := ← f.required? "info" DocumentInfo.ofJson?
           servers := ← f.default? "servers" (readList Server.ofJson?) []
           security := ← f.optional? "security" (readList SecurityRequirement.ofJson?)
           components := ← f.required? "components" (readList Component.ofJson?)
           operations := ← f.required? "operations" (readList Operation.ofJson?)
           dependencyGraph := ← f.required? "dependencyGraph" DependencySummary.ofJson?
           schemaNames := ← f.required? "schemaNames" (readList Json.asString?)
           enums := ← f.required? "enums" (readMap EnumSummary.ofJson?) }

end Document
end SchemaAtlas
