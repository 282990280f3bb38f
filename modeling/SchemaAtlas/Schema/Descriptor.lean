import SchemaAtlas.Json.Printer
import SchemaAtlas.Schema.Node

namespace SchemaAtlas

namespace Keywords

def descriptor (keyword : String) (text : α → String) (value : Option α) : List String :=
  match value with
  | some v => [keyword ++ ":" ++ text v]
  | none => []

def descriptors (k : Keywords) : List String :=
  descriptor "minimum" Double.plainText k.minimum ++
  descriptor "maximum" Double.plainText k.maximum ++
  descriptor "exclusiveMinimum" Double.plainText k.exclusiveMinimum ++
  descriptor "exclusiveMaximum" Double.plainText k.exclusiveMaximum ++
  descriptor "multipleOf" Double.plainText k.multipleOf ++
  descriptor "minLength" toString k.minLength ++
  descriptor "maxLength" toString k.maxLength ++
  descriptor "minItems" toString k.minItems ++
  descriptor "maxItems" toString k.maxItems ++
  descriptor "pattern" id k.pattern ++
  descriptor "format" id k.format ++
  (if k.uniqueItems = some true then ["uniqueItems:true"] else [])

end Keywords

-- An item goes to the end unless it is there already.
def appendNew [BEq α] (items : List α) (item : α) : List α :=
  if items.contains item then items else items ++ [item]

namespace SchemaNode

-- The derived metadata: subtree references, depth, presence, descriptors
-- before the validations already there, and the text of the default.
def finalize (n : SchemaNode) (depth : Nat) : SchemaNode :=
  let m := n.metadata
  let defaults := match n.keywords.default with
    | some value => appendNew m.chain.defaults value.compact
    | none => m.chain.defaults
  { n with
    metadata := { m with
      dependencies := { m.dependencies with references := n.subtreeReferences, depth := depth }
      chain := {
        presence := Presence.ofFlags (!m.required) m.nullable
        validations := m.chain.validations.foldl appendNew n.keywords.descriptors
        defaults := defaults } } }

def finalizeTree (n : SchemaNode) (depth : Nat) : SchemaNode :=
  { n with parts := n.parts.mapEach fun child _ => child.finalizeTree (depth + 1) }.finalize depth
termination_by sizeOf n
decreasing_by exact sizeOf_child_lt ‹_›

end SchemaNode
end SchemaAtlas
