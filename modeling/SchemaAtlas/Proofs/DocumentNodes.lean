import SchemaAtlas.Document.Basic
import SchemaAtlas.Proofs.SchemaTree

namespace SchemaAtlas

-- The schema trees that hang in a document, each at its root.

def Parameter.roots (p : Parameter) : List SchemaNode := p.schema.toList
def MediaType.roots (m : MediaType) : List SchemaNode := m.schema.toList
def Header.roots (h : Header) : List SchemaNode := h.schema.toList

def contentRoots (content : Entries MediaType) : List SchemaNode := content.flatMap fun entry => entry.2.roots

def RequestBody.roots (b : RequestBody) : List SchemaNode := contentRoots b.content

def Response.roots (r : Response) : List SchemaNode :=
  contentRoots r.content ++ r.headers.flatMap fun entry => entry.2.roots

def ParameterGroups.roots (g : ParameterGroups) : List SchemaNode :=
  (g.path ++ g.query ++ g.header ++ g.cookie).flatMap Parameter.roots

def Operation.roots (o : Operation) : List SchemaNode :=
  o.parameters.flatMap Parameter.roots ++ o.parameterGroups.roots ++ o.requestBody.toList.flatMap RequestBody.roots ++
    o.responses.flatMap fun r => r.response.roots

def Component.roots : Component → List SchemaNode
  | .schema _ node => [node]
  | .parameter _ p => p.roots
  | .response _ r => r.roots
  | .requestBody _ b => b.roots
  | .securityScheme _ _ => []

namespace Document

def roots (d : Document) : List SchemaNode := d.components.flatMap Component.roots ++ d.operations.flatMap Operation.roots

def Everywhere (P : SchemaNode → Prop) (d : Document) : Prop := ∀ root ∈ d.roots, root.Everywhere P

end Document
end SchemaAtlas
