import SchemaAtlas.Schema.Node

namespace SchemaAtlas
namespace Builder

-- The node that a chain has built so far. Whether it may be left out or be null
-- stays pending until the node is wrapped or finished.
structure State where
  node : SchemaNode
  optional : Bool := false
  nullable : Bool := false
deriving BEq, Repr

namespace State

def start (node : SchemaNode) : State := { node := node, nullable := node.metadata.nullable }

def finish (s : State) : SchemaNode :=
  { s.node with metadata := { s.node.metadata with required := !s.optional, nullable := s.nullable } }

-- The marks go onto the node inside; the one around it has none.
def wrap (s : State) (around : SchemaNode → SchemaNode) : State := { node := around s.finish }

def mapNode (s : State) (f : SchemaNode → SchemaNode) : State := { s with node := f s.node }

-- The node that takes texts and defaults. A reference holds nothing else, so it
-- moves into a combination of its own first.
def annotated (n : SchemaNode) : SchemaNode :=
  if n.isReference then { parts := { allOf := some [n] } } else n

def annotate (s : State) (f : SchemaNode → SchemaNode) : State := s.mapNode fun n => f (annotated n)

def describe (s : State) (text : String) : State :=
  s.annotate fun n => { n with keywords := { n.keywords with description := some text } }

def setDefault (s : State) (value : Json) : State :=
  s.annotate fun n => { n with keywords := { n.keywords with default := some value } }

def setReadOnly (s : State) : State := s.annotate fun n => { n with keywords := { n.keywords with readOnly := true } }

def wrapArray (s : State) : State :=
  s.wrap fun inner => { keywords := { type := some .array }, parts := { items := some inner } }

def wrapAny (s : State) (other : SchemaNode) : State := s.wrap fun inner => { parts := { anyOf := some [inner, other] } }
def wrapAll (s : State) (other : SchemaNode) : State := s.wrap fun inner => { parts := { allOf := some [inner, other] } }

end State
end Builder
end SchemaAtlas
