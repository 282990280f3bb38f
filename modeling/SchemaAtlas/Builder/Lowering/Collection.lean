import SchemaAtlas.Builder.Lowering.Basic

namespace SchemaAtlas
namespace Builder

open Script

-- Unions, intersections, lists, maps and their methods.

def argumentOr (call : Call) (index : Nat) (text : String) : Lowered Argument :=
  match call.argument? index with
  | some a => .ok a
  | none => call.refuse text

def buildUnion (lower : Lower) (cx : Context) (base : Call) : Lowered SchemaNode := do
  if base.name = "discriminatedUnion" then
    let some key := (base.argument? 0).bind Argument.text? | base.refuse "expects a discriminator key"
    let options ← argumentOr base 1 "expects an options array"
    let members ← lowerMembers lower cx options.site
    return { keywords := { discriminator := some { propertyName := key } }, parts := { oneOf := some members } }
  else
    let options ← argumentOr base 0 "expects an options array"
    return { parts := { anyOf := some (← lowerMembers lower cx options.site) } }

def buildIntersection (lower : Lower) (cx : Context) (base : Call) : Lowered SchemaNode := do
  if base.arguments.length ≠ 2 then base.refuse "expects exactly two schemas"
  else
    let members ← base.arguments.mapM fun a => lower cx.child a.site
    return { parts := { allOf := some members } }

def buildList (lower : Lower) (cx : Context) (base : Call) : Lowered SchemaNode := do
  let item ← lower cx.child (← base.first).site
  let unique := if base.name = "set" then some true else none
  return { keywords := { type := some .array, uniqueItems := unique }, parts := { items := some item } }

-- A tuple without a rest has exactly as many items as it lists.
def buildTuple (lower : Lower) (cx : Context) (base : Call) : Lowered SchemaNode := do
  let members ← lowerMembers lower cx (← base.first).site
  let rest ← (base.argument? 1).mapM fun a => lower cx.child a.site
  let most := if rest.isSome then none else some members.length
  return {
    keywords := { type := some .array, minItems := some members.length, maxItems := most }
    parts := { prefixItems := some members, items := rest } }

def buildRecord (lower : Lower) (cx : Context) (base : Call) : Lowered SchemaNode := do
  let some last := base.arguments.getLast? | base.refuse "expects a value schema"
  let value ← lower cx.child last.site
  let node : SchemaNode := { keywords := { type := some .object }, parts := { additional := some (.inr value) } }
  return if base.name = "map" then pushValidation node "map" else node

def textList? (base : Call) : Option (List Json) := do
  let values ← (← (← base.argument? 0).value).asArray?
  if values.all fun v => v.asString?.isSome then some values else none

def buildTextEnum (base : Call) : Lowered SchemaNode :=
  match textList? base with
  | some values => .ok { keywords := { type := some .string, enum := some values } }
  | none => base.refuse "expects an array of string literals"

-- The listed values of an enumeration stay or go.
def restrictEnum (n : SchemaNode) (values : List Json) (call : Call) : Lowered SchemaNode :=
  match (call.argument? 0).bind Argument.value with
  | some (.array listed) =>
    let keep := call.name == "extract"
    .ok (withKeywords n { n.keywords with enum := some (values.filter fun v => listed.contains v == keep) })
  | _ => call.refuse "expects an array of literals"

-- Items beyond those that a tuple lists.
def setRest (lower : Lower) (cx : Context) (n : SchemaNode) (call : Call) : Lowered SchemaNode := do
  let rest ← lower cx.child (← call.first).site
  return { n with keywords := { n.keywords with maxItems := none }, parts := { n.parts with items := some rest } }

def applyToCollection (lower : Lower) (cx : Context) (n : SchemaNode) (call : Call) : Lowered (Option SchemaNode) := do
  match n.keywords.enum, n.parts.prefixItems with
  | some values, prefixItems =>
    if call.name = "exclude" ∨ call.name = "extract" then return some (← restrictEnum n values call)
    else if call.name = "rest" ∧ prefixItems.isSome then return some (← setRest lower cx n call)
    else return none
  | none, some _ => if call.name = "rest" then return some (← setRest lower cx n call) else return none
  | none, none => return none

end Builder
end SchemaAtlas
