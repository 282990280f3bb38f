import SchemaAtlas.Entries

namespace SchemaAtlas

structure DependencyGraph where
  entries : Entries (List String)
deriving Repr

namespace DependencyGraph

def ofMap (map : Entries (List String)) : DependencyGraph :=
  ⟨map.mapValues fun dependencies => dependencies.filter map.contains⟩

def names (g : DependencyGraph) : List String := g.entries.keys
def contains (g : DependencyGraph) (name : String) : Bool := g.entries.contains name
def dependencies (g : DependencyGraph) (name : String) : List String := (g.entries.get? name).getD []

-- The edges between the positions of the names, in the order in which they are added.
def edges (g : DependencyGraph) : List (Nat × Nat) :=
  g.entries.zipIdx.flatMap fun (entry, source) =>
    entry.2.filterMap fun target => (g.names.idxOf? target).map fun position => (source, position)

def insertAscending (position : Nat) : List Nat → List Nat
  | [] => [position]
  | first :: rest =>
    if position < first then position :: first :: rest
    else if position = first then first :: rest
    else first :: insertAscending position rest

-- Positions sorted, each of them once.
def ascending (positions : List Nat) : List Nat := positions.foldr insertAscending []

-- The names that depend on a name, in declaration order. Its incoming edges are walked from
-- the last one added to the first.
def dependents (g : DependencyGraph) (name : String) : List String :=
  match g.names.idxOf? name with
  | none => []
  | some target =>
    let incoming := (g.edges.filter fun edge => edge.2 == target).reverse
    (ascending (incoming.map Prod.fst)).filterMap fun source => g.names[source]?

def nodeCount (g : DependencyGraph) : Nat := g.entries.length
def edgeCount (g : DependencyGraph) : Nat := g.entries.values.foldl (fun n targets => n + targets.length) 0

def Edge (g : DependencyGraph) (source target : String) : Prop := target ∈ g.dependencies source

inductive Reaches (g : DependencyGraph) : String → String → Prop
  | edge : g.Edge a b → Reaches g a b
  | step : g.Edge a b → Reaches g b c → Reaches g a c

def OnCycle (g : DependencyGraph) (name : String) : Prop := g.Reaches name name

end DependencyGraph
end SchemaAtlas
