import SchemaAtlas.Document.Basic
import SchemaAtlas.Failure

namespace SchemaAtlas

-- What an emitter may rely on. The checks run in a fixed order and the first one
-- that fails is reported.

namespace Parts

def indexed (label : String) (members : Option (List α)) : List (String × α) :=
  (members.getD []).mapIdx fun index member => (label ++ "/" ++ toString index, member)

def labelled (p : Parts α) : List (String × α) :=
  p.propertyEntries.map (fun (name, part) => ("/properties/" ++ name, part)) ++
  p.items.toList.map (fun part => ("/items", part)) ++
  indexed "/prefixItems" p.prefixItems ++
  indexed "/allOf" p.allOf ++
  indexed "/oneOf" p.oneOf ++
  indexed "/anyOf" p.anyOf ++
  p.additionalNode.map (fun part => ("/additionalProperties", part))

end Parts

def require (condition : Bool) (failure : Failure) : Except Failure Unit :=
  if condition then .ok () else .error failure

namespace SchemaNode

def placeText (schema path : String) : String :=
  "schema `" ++ schema ++ "`" ++ (if path = "" then "" else " at " ++ path)

def declares (n : SchemaNode) (name : String) : Bool := n.parts.propertyEntries.contains name

-- The checks of one node: a reference carries nothing else and reads as a
-- component reference, and what is required is declared.
def checkAt (schema path : String) (n : SchemaNode) : Except Failure Unit := do
  let violation (text : String) : Failure := .boundaryViolation (placeText schema path ++ ": " ++ text)
  if let some target := n.reference then
    require (!n.hasStructure) (violation "`$ref` node carries structural fields")
    require (ComponentRef.ofText? target).isSome (violation ("malformed reference '" ++ target ++ "'"))
  n.requiredNames.forM fun name =>
    require (n.declares name) (violation ("required property `" ++ name ++ "` is not declared"))

def verify (schema : String) (n : SchemaNode) (path : String) : Except Failure Unit := do
  n.checkAt schema path
  let below := n.parts.mapEach fun child _ => child.verify schema
  below.labelled.forM fun (label, check) => check (path ++ label)
termination_by sizeOf n
decreasing_by exact sizeOf_child_lt ‹_›

end SchemaNode

def firstRepeated? : List String → List String → Option String
  | _, [] => none
  | seen, item :: rest => if seen.contains item then some item else firstRepeated? (item :: seen) rest

namespace Document

def checkSummary (d : Document) : Except Failure Unit := do
  let summary := d.dependencyGraph
  let order := summary.topologicalOrder
  require (d.schemas.map Prod.fst == d.schemaNames)
    (.boundaryViolation "schemaNames does not match the schema components")
  if let some name := firstRepeated? [] order then
    throw (.boundaryViolation ("`" ++ name ++ "` appears twice in the topological order"))
  require (order.all d.schemaNames.contains && d.schemaNames.all order.contains)
    (.boundaryViolation "topological order does not cover exactly the schema names")
  require (summary.nodes.keys == d.schemaNames)
    (.boundaryViolation "dependency graph nodes do not match the schema names")
  if let some name := summary.circularReferences.find? fun name => !d.schemaNames.contains name then
    throw (.boundaryViolation ("circular reference list names unknown schema `" ++ name ++ "`"))

def verify (d : Document) : Except Failure Unit := do
  d.checkSummary
  d.schemas.forM fun (name, node) => node.verify name ""

end Document
end SchemaAtlas
