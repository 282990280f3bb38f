import SchemaAtlas.Builder.Lowering.Basic

namespace SchemaAtlas
namespace Builder

open Script

-- Objects: shapes that are written out, and the methods of objects.

-- One member of a shape. A name alone refers to its declaration.
def lowerMember (lower : Lower) (cx : Context) (member : Site) : Lowered (List (String × SchemaNode)) :=
  match member.kind with
  | .pair =>
    match member.child? .key, member.child? .value with
    | some key, some value =>
      match key.tree.key? with
      | none => refuse "computed property key cannot be analyzed" key.location
      | some name => (lower cx.child value).map fun node => [(name, node)]
    | _, _ => .ok []
  | .shorthandProperty =>
    let node := referenceTo member.text
    .ok [(member.text, { node with metadata := { node.metadata with required := true } })]
  | .spread => refuse "spread-merged property set cannot be analyzed" member.location
  | other => refuse ("unsupported object member `" ++ other.label ++ "`") member.location

-- The properties of a shape; a repeated name keeps its first position.
def lowerShape (lower : Lower) (cx : Context) (shape : Site) : Lowered (Entries SchemaNode) :=
  let literal := shape.unwrap
  if literal.kind != .object then refuse "object shape must be an object literal" shape.location
  else (literal.parts.mapM (lowerMember lower cx)).map fun members => Entries.ofList members.flatten

-- The names that must be present, `none` without any.
def requiredOf (properties : Entries SchemaNode) : Option (List String) :=
  let names := (properties.filter fun (_, node) => node.metadata.required).map Prod.fst
  if names = [] then none else some names

def syncRequired (n : SchemaNode) : SchemaNode :=
  withKeywords n { n.keywords with required := requiredOf n.parts.propertyEntries }

def withProperties (n : SchemaNode) (properties : Entries SchemaNode) : SchemaNode :=
  syncRequired { n with parts := { n.parts with properties := some properties } }

def objectNode (properties : Entries SchemaNode) : SchemaNode := withProperties (.ofType .object) properties

def withAdditional (n : SchemaNode) (additional : Option (Bool ⊕ SchemaNode)) : SchemaNode :=
  { n with parts := { n.parts with additional := additional } }

def setRequired (required : Bool) (n : SchemaNode) : SchemaNode :=
  { n with metadata := { n.metadata with required := required } }

-- The properties of the addition win; so does what it says of others.
def merge (n addition : SchemaNode) : SchemaNode :=
  let properties := addition.parts.propertyEntries.foldl (fun all (name, node) => all.insert name node)
    n.parts.propertyEntries
  withProperties (withAdditional n (addition.parts.additional.or n.parts.additional)) properties

def deepPartial (n : SchemaNode) : SchemaNode :=
  let deep := n.parts.mapEach fun child _ => deepPartial child
  let parts := { n.parts with
    properties := deep.properties.map fun entries => entries.map fun (name, node) => (name, setRequired false node)
    items := deep.items }
  if n.parts.properties.isSome then syncRequired { n with parts := parts } else { n with parts := parts }
termination_by sizeOf n
decreasing_by exact SchemaNode.sizeOf_child_lt ‹_›

-- The names marked true in a mask; without an argument there is no mask.
def maskOf (call : Call) : Lowered (Option (List String)) :=
  match call.argument? 0 with
  | none => .ok none
  | some a =>
    match a.value with
    | some (.object entries) =>
      .ok (some ((entries.filter fun (_, flag) => flag.asBool? == some true).map Prod.fst))
    | _ => call.refuse "expects a key mask object"

def buildObject (lower : Lower) (cx : Context) (base : Call) : Lowered SchemaNode := do
  let properties ← match base.argument? 0 with
    | some a => lowerShape lower cx a.site
    | none => pure []
  let additional := match base.name with
    | "strictObject" => some (.inl false)
    | "looseObject" => some (.inl true)
    | _ => none
  return withAdditional (objectNode properties) additional

def isObject (n : SchemaNode) : Bool := n.keywords.type == some .object && !n.isReference

def addition (lower : Lower) (cx : Context) (argument : Site) : Lowered SchemaNode :=
  if argument.unwrap.kind == .object then (lowerShape lower cx.child argument).map objectNode
  else lower cx.child argument

-- Two objects become one; anything else is combined.
def extend (lower : Lower) (cx : Context) (s : State) (call : Call) : Lowered State := do
  let added ← addition lower cx (← call.first).site
  if isObject s.node && isObject added then return s.mapNode (merge · added) else return s.wrapAll added

def setKey (lower : Lower) (cx : Context) (n : SchemaNode) (call : Call) : Lowered SchemaNode := do
  let some key := (call.argument? 0).bind Argument.text? | call.refuse "expects a string literal key"
  let some value := call.argument? 1 | call.refuse "expects a schema"
  let node ← lower cx.child value.site
  return withProperties n (n.parts.propertyEntries.insert key node)

-- Properties in the mask, or all without one, become required or not.
def markProperties (n : SchemaNode) (call : Call) (required : Bool) : Lowered SchemaNode := do
  let mask ← maskOf call
  let marked (name : String) : Bool := mask.all fun names => names.contains name
  return withProperties n (n.parts.propertyEntries.map fun (name, node) =>
    (name, if marked name then setRequired required node else node))

def keepProperties (n : SchemaNode) (call : Call) (keep : Bool) : Lowered SchemaNode := do
  let some mask ← maskOf call | call.refuse "expects a key mask object"
  return withProperties n (n.parts.propertyEntries.filter fun (name, _) => mask.contains name == keep)

def keyNames (n : SchemaNode) : SchemaNode :=
  { keywords := { type := some .string, enum := some (n.parts.propertyEntries.map fun (name, _) => .string name) } }

def applyObjectMethod (lower : Lower) (cx : Context) (n : SchemaNode) (call : Call) : Lowered (Option SchemaNode) := do
  match call.name with
  | "setKey" => return some (← setKey lower cx n call)
  | "partial" => return some (← markProperties n call false)
  | "required" => return some (← markProperties n call true)
  | "deepPartial" => return some (deepPartial n)
  | "strict" => return some (withAdditional n (some (.inl false)))
  | "passthrough" | "nonstrict" | "loose" => return some (withAdditional n (some (.inl true)))
  | "strip" => return some (withAdditional n none)
  | "catchall" => return some (withAdditional n (some (.inr (← lower cx.child (← call.first).site))))
  | "pick" => return some (← keepProperties n call true)
  | "omit" => return some (← keepProperties n call false)
  | "keyof" => return some (keyNames n)
  | _ => return none

def applyToObject (lower : Lower) (cx : Context) (s : State) (call : Call) : Lowered (Option State) := do
  if ["extend", "safeExtend", "merge"].contains call.name then return some (← extend lower cx s call)
  else if isObject s.node then return (← applyObjectMethod lower cx s.node call).map fun n => { s with node := n }
  else return none

end Builder
end SchemaAtlas
