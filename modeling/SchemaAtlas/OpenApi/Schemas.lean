import SchemaAtlas.OpenApi.Members
import SchemaAtlas.OpenApi.Resolution
import SchemaAtlas.Schema.Descriptor

namespace SchemaAtlas
namespace OpenApi

-- Schema objects as schema nodes. A reference stays a leaf, so only values inside
-- the schema itself are read, each one level deeper than its parent.

structure TypeList where
  types : List SchemaType := []
  nullable : Bool := false
deriving DecidableEq, Repr

namespace TypeList

def add (p : Place) (list : TypeList) (name : Json) : Except Failure TypeList :=
  match name.asString? with
  | none => .error (p.shapeError "type must be a string or an array of strings")
  | some text =>
    match SchemaType.ofName? text with
    | none => .error (p.shapeError ("unknown type '" ++ text ++ "'"))
    | some .null => .ok { list with nullable := true }
    | some type => .ok { list with types := appendNew list.types type }

-- One name, a list of names, or nothing.
def read (p : Place) : Option Json → Except Failure TypeList
  | none => .ok {}
  | some (.array names) => names.foldlM (add p) {}
  | some name => add p {} name

-- The only type, where there is one: `null` when nothing else is listed.
def single? (list : TypeList) : Option SchemaType :=
  list.types.head?.or (if list.nullable then some .null else none)

end TypeList

def numberAt (p : Place) (m : Members) (key : String) : Except Failure (Option Double) :=
  m.at? key fun value =>
    match value.asDouble? with
    | some x => .ok x
    | none => .error ((p.token key).shapeError (key ++ " must be a number"))

def countAt (p : Place) (m : Members) (key : String) : Except Failure (Option Nat) :=
  m.at? key fun value =>
    match value.asCount? with
    | some n => .ok n
    | none => .error ((p.token key).shapeError (key ++ " must be a non-negative integer"))

-- A bound and its exclusive form. `true` turns the plain bound into the
-- exclusive one; a number stands beside it.
def exclusiveAt (p : Place) (m : Members) (key : String) (bound : Option Double) :
    Except Failure (Option Double × Option Double) :=
  match m.get? key with
  | some (.bool true) => .ok (none, bound)
  | some (.bool false) => .ok (bound, none)
  | _ => (numberAt p m key).map (bound, ·)

def impliedType (m : Members) : Option SchemaType :=
  if m.contains "properties" then some .object
  else if m.contains "items" || m.contains "prefixItems" then some .array
  else none

def readKeywords (p : Place) (m : Members) (type : Option SchemaType) : Except Failure Keywords := do
  let minimum ← numberAt p m "minimum"
  let maximum ← numberAt p m "maximum"
  let multipleOf ← numberAt p m "multipleOf"
  let minLength ← countAt p m "minLength"
  let maxLength ← countAt p m "maxLength"
  let minItems ← countAt p m "minItems"
  let maxItems ← countAt p m "maxItems"
  let (minimum, exclusiveMinimum) ← exclusiveAt p m "exclusiveMinimum" minimum
  let (maximum, exclusiveMaximum) ← exclusiveAt p m "exclusiveMaximum" maximum
  let values ← m.at? "enum" ((p.token "enum").arrayOr "enum must be an array")
  return {
    type := type.or (impliedType m)
    format := m.text? "format"
    title := m.text? "title"
    description := m.text? "description"
    default := m.get? "default"
    deprecated := m.flag "deprecated"
    readOnly := m.flag "readOnly"
    writeOnly := m.flag "writeOnly"
    minimum := minimum
    maximum := maximum
    exclusiveMinimum := exclusiveMinimum
    exclusiveMaximum := exclusiveMaximum
    multipleOf := multipleOf
    minLength := minLength
    maxLength := maxLength
    pattern := m.text? "pattern"
    minItems := minItems
    maxItems := maxItems
    uniqueItems := m.flag? "uniqueItems"
    enum := values
    const := m.get? "const" }

-- The names of a required list that are declared; none at all is no list.
def requiredAmong (m : Members) (properties : Option (Entries SchemaNode)) : Option (List String) :=
  let declared := properties.getD []
  let names := (m.texts "required").filter declared.contains
  if names = [] then none else some names

def readDiscriminator (p : Place) (value : Json) : Except Failure Discriminator := do
  match (value.get? "propertyName").bind Json.asString? with
  | none => throw (p.shapeError "discriminator requires propertyName")
  | some name =>
    let targets := ((value.get? "mapping").bind Json.asObject?).getD []
    let mapping ← readEntries (fun _ target =>
      match target.asString? with
      | some text => .ok text
      | none => .error ((p.token "mapping").shapeError "mapping values must be strings")) targets
    return { propertyName := name, mapping := mapping }

abbrev Descent := Place → Json → Except Failure SchemaNode

def readMembers (descend : Descent) (p : Place) (m : Members) (key : String) : Except Failure (Option (List SchemaNode)) :=
  m.at? key fun value => do
    let place := p.token key
    let items ← place.arrayOr (key ++ " must be an array") value
    (numbered items).mapM fun (index, item) => descend (place.child index) item

def readProperties (descend : Descent) (p : Place) (m : Members) : Except Failure (Option (Entries SchemaNode)) :=
  m.at? "properties" fun value => do
    let place := p.token "properties"
    let declared ← place.objectOr "properties must be an object" value
    readEntries (fun name schema =>
      descend ((place.child name).withRequired ((m.texts "required").contains name)) schema) declared

def readAdditional (descend : Descent) (p : Place) : Json → Except Failure (Bool ⊕ SchemaNode)
  | .bool allowed => .ok (.inl allowed)
  | schema => (descend (p.child "additionalProperties") schema).map .inr

def readParts (descend : Descent) (p : Place) (m : Members) : Except Failure (Parts SchemaNode) := do
  let properties ← readProperties descend p m
  let items ← m.at? "items" (descend (p.child "items"))
  let prefixItems ← readMembers descend p m "prefixItems"
  let additional ← m.at? "additionalProperties" (readAdditional descend p)
  let allOf ← readMembers descend p m "allOf"
  let oneOf ← readMembers descend p m "oneOf"
  let anyOf ← readMembers descend p m "anyOf"
  return { properties := properties, items := items, prefixItems := prefixItems, additional := additional,
           allOf := allOf, oneOf := oneOf, anyOf := anyOf }

def Place.finish (p : Place) (node : SchemaNode) (nullable : Bool) : SchemaNode :=
  { node with metadata := { node.metadata with required := p.required, nullable := nullable } }.finalize p.depth

def readBody (descend : Descent) (p : Place) (m : Members) (type : Option SchemaType) (nullable : Bool) :
    Except Failure SchemaNode := do
  let keywords ← readKeywords p m type
  let parts ← readParts descend p m
  let discriminator ← m.at? "discriminator" (readDiscriminator (p.token "discriminator"))
  let keywords := { keywords with required := requiredAmong m parts.properties, discriminator := discriminator }
  return p.finish { keywords := keywords, parts := parts } nullable

-- Several types: one alternative for each, read from the same object. Only the
-- texts, the default and the deprecation stay with the union.
def readUnion (descend : Descent) (p : Place) (m : Members) (list : TypeList) (nullable : Bool) :
    Except Failure SchemaNode := do
  let place := p.token "type"
  let members ← (numbered list.types).mapM fun (index, type) =>
    readBody descend (place.child index) m (some type) false
  let keywords : Keywords := {
    title := m.text? "title", description := m.text? "description"
    default := m.get? "default", deprecated := m.flag "deprecated" }
  return p.finish { keywords := keywords, parts := { oneOf := some members } } nullable

def readReference (p : Place) (text : String) : Except Failure SchemaNode := do
  let _ ← resolve p text .schemas
  return p.finish (.ofReference text) false

def readObject (descend : Descent) (p : Place) (m : Members) : Except Failure SchemaNode := do
  match ← referenceOf p (.object m) with
  | some text => readReference p text
  | none =>
    let list ← TypeList.read p (m.get? "type")
    let nullable := list.nullable || m.flag "nullable"
    if list.types.length ≤ 1 then readBody descend p m list.single? nullable
    else readUnion descend p m list nullable

def readLevel (descend : Descent) (p : Place) (value : Json) : Except Failure SchemaNode := do
  p.checkDepth
  match value with
  | .object m => readObject descend p m
  | .bool true => return p.finish {} false
  | .bool false => throw (p.shapeError "`false` schema admits no value")
  | other => throw (p.shapeError ("expected a schema object, found " ++ (SchemaType.ofValue other).name))

def readWithin : Nat → Descent
  | 0, p, _ => .error (.recursionLimit p.maxDepth p.path)
  | levels + 1, p, value => readLevel (readWithin levels) p value

def readSchema : Descent := fun p value => readWithin (p.maxDepth + 1 - p.depth) p value

end OpenApi
end SchemaAtlas
