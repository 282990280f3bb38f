import SchemaAtlas.Graph.Dependency
import SchemaAtlas.Schema.Descriptor

namespace SchemaAtlas
namespace DependencyGraph

structure CycleWalk where
  visited : List String := []
  found : List String := []
deriving Repr

-- Follows every edge once. `path` is the way from the root to here: reaching a
-- name that is on it records that name and all that stands behind it.
def walk (dependencies : String → List String) : Nat → List String → CycleWalk → String → CycleWalk
  | 0, _, w, _ => w
  | fuel + 1, path, w, name =>
    if path.contains name then { w with found := (path.dropWhile (· != name)).foldl appendNew w.found }
    else if w.visited.contains name then w
    else (dependencies name).foldl (walk dependencies fuel (path ++ [name])) { w with visited := name :: w.visited }

def cycleMembers (g : DependencyGraph) (root : String) : List String :=
  let found := (walk g.dependencies (g.nodeCount + 2) [] {} root).found
  if found.contains root then found else []

end DependencyGraph

namespace SchemaNode

-- The same tree without circular references.
def clearCircular (n : SchemaNode) : SchemaNode :=
  { n with
    parts := n.parts.mapEach fun child _ => child.clearCircular
    metadata := { n.metadata with circularReferences := [] } }
termination_by sizeOf n
decreasing_by exact sizeOf_child_lt ‹_›

def ownCircular (members : List String) (n : SchemaNode) : List String :=
  match n.reference with
  | some target =>
    if (schemaNameOf? target).any members.contains then [target] else n.metadata.circularReferences
  | none => n.metadata.circularReferences

def markCircular (members : List String) (n : SchemaNode) : SchemaNode :=
  { n with
    parts := n.parts.mapEach fun child _ => child.markCircular members
    metadata := { n.metadata with circularReferences := n.ownCircular members } }
termination_by sizeOf n
decreasing_by exact sizeOf_child_lt ‹_›

-- The root of a component lists all members; the nodes below it only the
-- references that they are.
def annotateCircular (members : List String) (n : SchemaNode) : SchemaNode :=
  let clear := n.clearCircular
  if members = [] then clear
  else
    { clear with
      parts := clear.parts.map (markCircular members)
      metadata := { clear.metadata with circularReferences := members.map schemaRef } }

end SchemaNode
end SchemaAtlas
