import SchemaAtlas.Document.Basic
import SchemaAtlas.OpenApi.Members

namespace SchemaAtlas
namespace OpenApi

def readLocation (p : Place) (name : String) : Except Failure ParameterLocation :=
  match ParameterLocation.ofName? name with
  | some location => .ok location
  | none => .error ((p.token "in").shapeError ("unknown location '" ++ name ++ "'"))

def readFlow (p : Place) (value : Json) : Except Failure OAuthFlow := do
  let m ← p.objectOr "OAuth flow must be an object" value
  let scopes := ((m.get? "scopes").bind Json.asObject?).getD []
  return {
    authorizationUrl := m.text? "authorizationUrl"
    tokenUrl := m.text? "tokenUrl"
    refreshUrl := m.text? "refreshUrl"
    scopes := scopes.mapValues fun description => description.asString?.getD "" }

def readFlows (p : Place) (value : Json) : Except Failure OAuthFlows := do
  let m : Members := value.asObject?.getD []
  let implicit ← m.at? "implicit" (readFlow (p.token "implicit"))
  let password ← m.at? "password" (readFlow (p.token "password"))
  let clientCredentials ← m.at? "clientCredentials" (readFlow (p.token "clientCredentials"))
  let authorizationCode ← m.at? "authorizationCode" (readFlow (p.token "authorizationCode"))
  return { implicit := implicit, password := password, clientCredentials := clientCredentials,
           authorizationCode := authorizationCode }

def readSecurityScheme (p : Place) (value : Json) : Except Failure SecurityScheme := do
  let m ← p.objectOr "security scheme must be an object" value
  let some typeName := m.text? "type" | throw (p.shapeError "security scheme requires a type")
  let some type := SecuritySchemeType.ofName? typeName
    | throw ((p.token "type").shapeError ("unknown security scheme type '" ++ typeName ++ "'"))
  let location ← (m.text? "in").mapM (readLocation p)
  let flows ← m.at? "flows" (readFlows (p.token "flows"))
  return {
    type := type
    description := m.text? "description"
    name := m.text? "name"
    location := location
    scheme := m.text? "scheme"
    bearerFormat := m.text? "bearerFormat"
    flows := flows
    openIdConnectUrl := m.text? "openIdConnectUrl" }

def readRequirement (p : Place) (value : Json) : Except Failure SecurityRequirement := do
  let m ← p.objectOr "security requirement must be an object" value
  return m.map fun (scheme, _) => (scheme, m.texts scheme)

def readRequirements (p : Place) (value : Json) : Except Failure (List SecurityRequirement) := do
  let items ← p.arrayOr "security must be an array" value
  (numbered items).mapM fun (index, item) => readRequirement (p.token index) item

end OpenApi
end SchemaAtlas
