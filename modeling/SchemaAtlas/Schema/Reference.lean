import SchemaAtlas.Json.Pointer

namespace SchemaAtlas

inductive Section where
  | schemas | parameters | responses | requestBodies | headers | securitySchemes
  | other (segment : String)
deriving DecidableEq, Repr

namespace Section

def segment : Section → String
  | .schemas => "schemas"
  | .parameters => "parameters"
  | .responses => "responses"
  | .requestBodies => "requestBodies"
  | .headers => "headers"
  | .securitySchemes => "securitySchemes"
  | .other segment => segment

def ofSegment (segment : String) : Section :=
  if segment = "schemas" then .schemas
  else if segment = "parameters" then .parameters
  else if segment = "responses" then .responses
  else if segment = "requestBodies" then .requestBodies
  else if segment = "headers" then .headers
  else if segment = "securitySchemes" then .securitySchemes
  else .other segment

def memberName : Section → String
  | .schemas => "schema"
  | .parameters => "parameter"
  | .responses => "response"
  | .requestBodies => "requestBody"
  | .headers => "header"
  | .securitySchemes => "securityScheme"
  | .other segment => segment

end Section

inductive RefOrigin where
  | standard
  | external (hash : String)
deriving DecidableEq, Repr

structure ComponentRef where
  origin : RefOrigin
  kind : Section
  name : String
deriving DecidableEq, Repr

namespace ComponentRef

def isAsciiLetter (c : Char) : Bool := ('a' ≤ c && c ≤ 'z') || ('A' ≤ c && c ≤ 'Z')

def after? (lead : String) (cs : List Char) : Option (List Char) :=
  if lead.toList.isPrefixOf cs then some (cs.drop lead.length) else none

def cut? (separator : Char) : List Char → Option (List Char × List Char)
  | [] => none
  | c :: rest =>
    if c = separator then some ([], rest)
    else (cut? separator rest).map fun (before, after) => (c :: before, after)

-- A section of letters, a slash, and a name without further slashes.
def target? (cs : List Char) : Option (Section × String) :=
  match cut? '/' cs with
  | none => none
  | some (kind, name) =>
    if kind = [] || name = [] || name.contains '/' || !kind.all isAsciiLetter then none
    else some (Section.ofSegment (String.ofList kind), Pointer.unescape (String.ofList name))

def ofChars? (cs : List Char) : Option ComponentRef :=
  match after? "#/components/" cs with
  | some rest => (target? rest).map fun (kind, name) => ⟨.standard, kind, name⟩
  | none => do
    let rest ← after? "#/x-ext/" cs
    let (hash, rest) ← cut? '/' rest
    if hash = [] then none
    else
      let rest ← after? "components/" rest
      let (kind, name) ← target? rest
      some ⟨.external (String.ofList hash), kind, name⟩

def ofText? (text : String) : Option ComponentRef := ofChars? text.toList

def schema (name : String) : ComponentRef := ⟨.standard, .schemas, name⟩

def isExternal (r : ComponentRef) : Bool :=
  match r.origin with
  | .external _ => true
  | .standard => false

def pointer (r : ComponentRef) : String :=
  let place := "/components/" ++ r.kind.segment ++ "/" ++ Pointer.escape r.name
  match r.origin with
  | .standard => place
  | .external hash => "/x-ext/" ++ hash ++ place

def text (r : ComponentRef) : String := "#" ++ r.pointer

end ComponentRef

def schemaRef (name : String) : String := (ComponentRef.schema name).text

def schemaNameOf? (reference : String) : Option String :=
  match ComponentRef.ofText? reference with
  | some ⟨.standard, .schemas, name⟩ => some name
  | _ => none

end SchemaAtlas
