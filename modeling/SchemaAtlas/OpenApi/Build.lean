import SchemaAtlas.Graph.Analysis
import SchemaAtlas.OpenApi.Operations
import SchemaAtlas.OpenApi.Version

namespace SchemaAtlas
namespace OpenApi

-- A whole description as a document. The build gives everything or the first
-- problem in the order of reading.

-- The version text of a description; only major version 3 is read.
def checkVersion (root : Json) : Except Failure String :=
  match (root.get? "openapi").bind Json.asString? with
  | none => .error (.invalidDocument "missing `openapi` version string")
  | some text =>
    match Version.ofText text with
    | .error e => .error (.invalidDocument ("invalid openapi version '" ++ text ++ "': " ++ e.message))
    | .ok version =>
      if version.major = 3 then .ok text
      else .error (.invalidDocument ("unsupported openapi version '" ++ text ++ "', expected 3.x"))

def readInfo (root : Members) : DocumentInfo :=
  let info : Members := ((root.get? "info").bind Json.asObject?).getD []
  { title := (info.text? "title").getD ""
    version := (info.text? "version").getD ""
    description := info.text? "description" }

def readServer? (value : Json) : Option Server := do
  let m : Members ← value.asObject?
  let url ← m.text? "url"
  return { url := url, description := m.text? "description" }

-- Servers without a text for their address are skipped.
def readServers (root : Members) : List Server :=
  (((root.get? "servers").bind Json.asArray?).getD []).filterMap readServer?

-- A component other than a schema must not be a mere reference.
def noAlias (p : Place) (value : Json) : Except Failure Unit := do
  if let some text ← referenceOf p value then throw (.nestedReferenceNotBundled text p.path)

def readSection (start : Place) (components : Members) (kind : Section)
    (read : Place → Json → String → Except Failure Component) : Except Failure (List Component) :=
  match components.get? kind.segment with
  | none => .ok []
  | some (.object entries) =>
    entries.mapM fun (name, value) => read (start.at_ ["components", kind.segment, name]) value name
  | some _ => .error ((start.at_ ["components", kind.segment]).shapeError (kind.segment ++ " must be an object"))

def schemaComponent (p : Place) (value : Json) (name : String) : Except Failure Component :=
  (readSchema p value).map (.schema name)

def parameterComponent (p : Place) (value : Json) (name : String) : Except Failure Component := do
  noAlias p value
  return .parameter name (← readParameterBody p value (some name))

def responseComponent (p : Place) (value : Json) (name : String) : Except Failure Component := do
  noAlias p value
  return .response name (← readResponseBody p value (some name))

def requestBodyComponent (p : Place) (value : Json) (name : String) : Except Failure Component := do
  noAlias p value
  return .requestBody name (← readRequestBodyBody p value (some name))

def securitySchemeComponent (p : Place) (value : Json) (name : String) : Except Failure Component := do
  noAlias p value
  return .securityScheme name (← readSecurityScheme p value)

def readComponents (start : Place) : Except Failure (List Component) :=
  match start.root.get? "components" with
  | none => .ok []
  | some value => do
    let some components := value.asObject? | throw (.invalidDocument "components must be an object")
    let schemas ← readSection start components .schemas schemaComponent
    let parameters ← readSection start components .parameters parameterComponent
    let responses ← readSection start components .responses responseComponent
    let bodies ← readSection start components .requestBodies requestBodyComponent
    let schemes ← readSection start components .securitySchemes securitySchemeComponent
    return schemas ++ parameters ++ responses ++ bodies ++ schemes

def build (maxDepth : Nat) (source : Json) : Except Failure Document := do
  let some root := source.asObject? | throw (.invalidDocument "document root must be an object")
  let version ← checkVersion source
  let start := Place.start source maxDepth
  let security ← Members.at? root "security" (readRequirements (start.at_ ["security"]))
  let components ← readComponents start
  let operations ← readPaths start security
  let document : Document := {
    sourceFormatVersion := version
    info := readInfo root
    servers := readServers root
    security := security
    components := components
    operations := operations }
  return document.analyze

end OpenApi
end SchemaAtlas
