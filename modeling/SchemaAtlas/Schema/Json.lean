import SchemaAtlas.Json.Record
import SchemaAtlas.Schema.Node

namespace SchemaAtlas

open Json (field fieldOf flagField listOf mapOf fields? readAny readList readMap readName)

namespace Discriminator

def toJson (d : Discriminator) : Json :=
  .object (field "propertyName" (.string d.propertyName) ++
    (if d.mapping = [] then [] else field "mapping" (mapOf .string d.mapping)))

def ofJson? (value : Json) : Option Discriminator := do
  let f ← fields? ["propertyName", "mapping"] value
  return { propertyName := ← f.required? "propertyName" Json.asString?
           mapping := ← f.default? "mapping" (readMap Json.asString?) [] }

end Discriminator

namespace NodeDependencies

def toJson (d : NodeDependencies) : Json :=
  .object (field "references" (Json.ofStrings d.references) ++
    field "referencedBy" (Json.ofStrings d.referencedBy) ++
    field "depth" (Json.ofNat d.depth))

def ofJson? (value : Json) : Option NodeDependencies := do
  let f ← fields? ["references", "referencedBy", "depth"] value
  return { references := ← f.default? "references" (readList Json.asString?) []
           referencedBy := ← f.default? "referencedBy" (readList Json.asString?) []
           depth := ← f.default? "depth" Json.asCount? 0 }

end NodeDependencies

namespace ValidationChain

def toJson (c : ValidationChain) : Json :=
  .object (field "presence" (.string c.presence.name) ++
    field "validations" (Json.ofStrings c.validations) ++
    field "defaults" (Json.ofStrings c.defaults))

def ofJson? (value : Json) : Option ValidationChain := do
  let f ← fields? ["presence", "validations", "defaults"] value
  return { presence := ← f.required? "presence" (readName Presence.ofName?)
           validations := ← f.default? "validations" (readList Json.asString?) []
           defaults := ← f.default? "defaults" (readList Json.asString?) [] }

end ValidationChain

namespace Metadata

def toJson (m : Metadata) : Json :=
  .object (field "required" (.bool m.required) ++
    field "nullable" (.bool m.nullable) ++
    field "dependencyGraph" m.dependencies.toJson ++
    field "validationChain" m.chain.toJson ++
    field "circularReferences" (Json.ofStrings m.circularReferences))

def ofJson? (value : Json) : Option Metadata := do
  let f ← fields? ["required", "nullable", "dependencyGraph", "validationChain", "circularReferences"] value
  return { required := ← f.required? "required" Json.asBool?
           nullable := ← f.required? "nullable" Json.asBool?
           dependencies := ← f.required? "dependencyGraph" NodeDependencies.ofJson?
           chain := ← f.required? "validationChain" ValidationChain.ofJson?
           circularReferences := ← f.default? "circularReferences" (readList Json.asString?) [] }

end Metadata

namespace SchemaNode

def keys : List String :=
  ["type", "format", "title", "description", "default", "deprecated", "readOnly", "writeOnly", "minimum", "maximum",
   "exclusiveMinimum", "exclusiveMaximum", "multipleOf", "minLength", "maxLength", "pattern", "minItems", "maxItems",
   "uniqueItems", "enum", "const", "properties", "required", "items", "prefixItems", "additionalProperties", "allOf",
   "oneOf", "anyOf", "discriminator", "$ref", "metadata"]

def doubleJson (x : Double) : Json := .number (.double x)

def fieldsWith (k : Keywords) (parts : Parts Json) (reference : Option String) (metadata : Metadata) : Entries Json :=
  fieldOf "type" (fun t => .string t.name) k.type ++
  fieldOf "format" .string k.format ++
  fieldOf "title" .string k.title ++
  fieldOf "description" .string k.description ++
  fieldOf "default" id k.default ++
  flagField "deprecated" k.deprecated ++
  flagField "readOnly" k.readOnly ++
  flagField "writeOnly" k.writeOnly ++
  fieldOf "minimum" doubleJson k.minimum ++
  fieldOf "maximum" doubleJson k.maximum ++
  fieldOf "exclusiveMinimum" doubleJson k.exclusiveMinimum ++
  fieldOf "exclusiveMaximum" doubleJson k.exclusiveMaximum ++
  fieldOf "multipleOf" doubleJson k.multipleOf ++
  fieldOf "minLength" Json.ofNat k.minLength ++
  fieldOf "maxLength" Json.ofNat k.maxLength ++
  fieldOf "pattern" .string k.pattern ++
  fieldOf "minItems" Json.ofNat k.minItems ++
  fieldOf "maxItems" Json.ofNat k.maxItems ++
  fieldOf "uniqueItems" .bool k.uniqueItems ++
  fieldOf "enum" .array k.enum ++
  fieldOf "const" id k.const ++
  fieldOf "properties" .object parts.properties ++
  fieldOf "required" Json.ofStrings k.required ++
  fieldOf "items" id parts.items ++
  fieldOf "prefixItems" .array parts.prefixItems ++
  fieldOf "additionalProperties" (Sum.elim .bool id) parts.additional ++
  fieldOf "allOf" .array parts.allOf ++
  fieldOf "oneOf" .array parts.oneOf ++
  fieldOf "anyOf" .array parts.anyOf ++
  fieldOf "discriminator" Discriminator.toJson k.discriminator ++
  fieldOf "$ref" .string reference ++
  field "metadata" metadata.toJson

def toJson (n : SchemaNode) : Json :=
  .object (fieldsWith n.keywords (n.parts.mapEach fun child _ => child.toJson) n.reference n.metadata)
termination_by sizeOf n
decreasing_by exact sizeOf_child_lt ‹_›

def readKeywords (f : Json.Fields) : Option Keywords := do
  return {
    type := ← f.optional? "type" (readName SchemaType.ofName?)
    format := ← f.optional? "format" Json.asString?
    title := ← f.optional? "title" Json.asString?
    description := ← f.optional? "description" Json.asString?
    default := ← f.optional? "default" readAny
    deprecated := ← f.default? "deprecated" Json.asBool? false
    readOnly := ← f.default? "readOnly" Json.asBool? false
    writeOnly := ← f.default? "writeOnly" Json.asBool? false
    minimum := ← f.optional? "minimum" Json.asDouble?
    maximum := ← f.optional? "maximum" Json.asDouble?
    exclusiveMinimum := ← f.optional? "exclusiveMinimum" Json.asDouble?
    exclusiveMaximum := ← f.optional? "exclusiveMaximum" Json.asDouble?
    multipleOf := ← f.optional? "multipleOf" Json.asDouble?
    minLength := ← f.optional? "minLength" Json.asCount?
    maxLength := ← f.optional? "maxLength" Json.asCount?
    pattern := ← f.optional? "pattern" Json.asString?
    minItems := ← f.optional? "minItems" Json.asCount?
    maxItems := ← f.optional? "maxItems" Json.asCount?
    uniqueItems := ← f.optional? "uniqueItems" Json.asBool?
    enum := ← f.optional? "enum" Json.asArray?
    const := ← f.optional? "const" readAny
    required := ← f.optional? "required" (readList Json.asString?)
    discriminator := ← f.optional? "discriminator" Discriminator.ofJson? }

def readAdditional (read : Json → Option SchemaNode) : Json → Option (Bool ⊕ SchemaNode)
  | .bool allowed => some (.inl allowed)
  | value => (read value).map .inr

def readParts (read : Json → Option SchemaNode) (f : Json.Fields) : Option (Parts SchemaNode) := do
  return {
    properties := ← f.optional? "properties" (readMap read)
    items := ← f.optional? "items" read
    prefixItems := ← f.optional? "prefixItems" (readList read)
    additional := ← f.optional? "additionalProperties" (readAdditional read)
    allOf := ← f.optional? "allOf" (readList read)
    oneOf := ← f.optional? "oneOf" (readList read)
    anyOf := ← f.optional? "anyOf" (readList read) }

def readWithin : Nat → Json → Option SchemaNode
  | 0, _ => none
  | levels + 1, value => do
    let f ← fields? keys value
    return { keywords := ← readKeywords f
             parts := ← readParts (readWithin levels) f
             reference := ← f.optional? "$ref" Json.asString?
             metadata := ← f.default? "metadata" Metadata.ofJson? {} }

def ofJson? (value : Json) : Option SchemaNode := readWithin value.depth value

end SchemaNode
end SchemaAtlas
