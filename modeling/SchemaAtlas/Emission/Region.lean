import SchemaAtlas.Emission.Boundary

namespace SchemaAtlas

namespace SchemaNode

def closesCycle (n : SchemaNode) : Bool :=
  n.metadata.circularReferences != [] || n.children.attach.any fun ⟨child, _⟩ => child.closesCycle
termination_by sizeOf n
decreasing_by exact sizeOf_child_lt ‹_›

end SchemaNode

structure Region where
  name : String
  schema : SchemaNode
  dependencies : List String
  dependents : List String
deriving Repr

namespace Region

def needsLazy (r : Region) : Bool := r.schema.metadata.circularReferences != []

def line (r : Region) : String := r.name ++ (if r.needsLazy then " (lazy)" else "") ++ "\n"

def propertyNeedsLazy (r : Region) (name : String) : Bool :=
  (r.schema.parts.propertyEntries.get? name).any SchemaNode.closesCycle

def lazyProperties (r : Region) : List String :=
  r.schema.parts.propertyEntries.keys.filter r.propertyNeedsLazy

end Region

namespace Document

def region? (d : Document) (name : String) : Option Region :=
  (d.schema? name).map fun schema =>
    { name := name, schema := schema
      dependencies := (d.dependencyGraph.nodes.get? name).getD []
      dependents := schema.metadata.dependencies.referencedBy }

def regions (d : Document) : Except Failure (List Region) := do
  d.verify
  return d.dependencyGraph.topologicalOrder.filterMap d.region?

end Document

structure Emission where
  content : String
  schemaCount : Nat
  warnings : List String := []
deriving Repr

abbrev Emitter := Document → List Region → Except Failure Emission

def Emitter.run (emitter : Emitter) (d : Document) : Except Failure Emission := do
  emitter d (← d.regions)

def listingEmitter : Emitter := fun _ regions =>
  .ok { content := String.join (regions.map Region.line), schemaCount := regions.length }

end SchemaAtlas
