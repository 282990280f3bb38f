import SchemaAtlas.Document.Basic
import SchemaAtlas.Graph.Cycle
import SchemaAtlas.Graph.Order

namespace SchemaAtlas

namespace SchemaNode

-- The schema components that a node depends on, at their first appearance.
def schemaDependencies (n : SchemaNode) : List String :=
  firstAppearances (n.subtreeReferences.filterMap schemaNameOf?)

end SchemaNode

namespace Document

-- Every schema name with the schema names it depends on.
def dependencyMap (d : Document) : Entries (List String) :=
  let known := d.schemas.map Prod.fst
  Entries.ofList (d.schemas.map fun (name, node) => (name, node.schemaDependencies.filter known.contains))

def dependencyGraphOf (d : Document) : DependencyGraph := .ofMap d.dependencyMap

def enumSummary? (entry : String × SchemaNode) : Option (String × EnumSummary) :=
  entry.2.keywords.enum.map fun values =>
    let first := values.head?.map SchemaType.ofValue
    (entry.1, { name := entry.1, values := values, valueType := entry.2.keywords.type.or first })

def enumSummaries (d : Document) : Entries EnumSummary := Entries.ofList (d.schemas.filterMap enumSummary?)

-- A schema component as the analysis leaves it: its cycle is marked, its dependents listed.
def annotated (g : DependencyGraph) (name : String) (node : SchemaNode) : SchemaNode :=
  let marked := node.annotateCircular (g.cycleMembers name)
  { marked with metadata := { marked.metadata with
      dependencies := { marked.metadata.dependencies with referencedBy := g.dependents name } } }

-- Fills in what follows from the schema components: names, graph, cycles and
-- enumerations. What an earlier analysis left is replaced.
def analyze (d : Document) : Document :=
  let map := d.dependencyMap
  let graph := d.dependencyGraphOf
  let marked := d.mapSchemas (annotated graph)
  { marked with
    dependencyGraph := {
      nodes := map
      topologicalOrder := graph.topologicalOrder
      circularReferences := (d.schemas.map Prod.fst).filter fun name => graph.cycleMembers name ≠ [] }
    schemaNames := map.keys
    enums := marked.enumSummaries }

end Document
end SchemaAtlas
