import SchemaAtlas.Builder.Lowering.Collection
import SchemaAtlas.Builder.Lowering.Object
import SchemaAtlas.Builder.Lowering.Scalar
import SchemaAtlas.Json.Printer

namespace SchemaAtlas
namespace Builder

open Script

-- Schema expressions as nodes: the factory at the root builds a node, and every
-- call behind it changes the node.

inductive Family where
  | primitive | object | union | intersection | composition | reference
deriving DecidableEq, Repr

namespace Family

def all : List Family := [.primitive, .object, .union, .intersection, .composition, .reference]

def name : Family → String
  | .primitive => "primitive"
  | .object => "object"
  | .union => "union"
  | .intersection => "intersection"
  | .composition => "composition"
  | .reference => "reference"

def factories : Family → List String
  | .primitive =>
    ["string", "number", "bigint", "boolean", "date", "null", "undefined", "void", "any", "unknown", "never", "nan",
     "literal", "int", "int32", "int64", "float32", "float64", "email", "url", "uuid", "guid", "cuid", "cuid2", "ulid",
     "emoji", "base64", "base64url", "nanoid", "ipv4", "ipv6", "cidrv4", "cidrv6"]
  | .object => ["object", "strictObject", "looseObject"]
  | .union => ["union", "discriminatedUnion"]
  | .intersection => ["intersection"]
  | .composition => ["array", "tuple", "record", "map", "set", "enum"]
  | .reference => ["lazy", "nativeEnum"]

def ofFactory? (factory : String) : Option Family := all.find? fun f => f.factories.contains factory

end Family

def buildEnum (cx : Context) (base : Call) : Lowered SchemaNode := do
  let argument := (← base.first).site.unwrap
  if argument.kind == .identifier then return namedEnum cx argument.text else buildTextEnum base

def buildComposition (lower : Lower) (cx : Context) (base : Call) : Lowered SchemaNode :=
  match base.name with
  | "tuple" => buildTuple lower cx base
  | "record" | "map" => buildRecord lower cx base
  | "enum" => buildEnum cx base
  | _ => buildList lower cx base

def build (lower : Lower) (cx : Context) (base : Call) : Lowered SchemaNode :=
  match Family.ofFactory? base.name with
  | none => refuse ("unsupported builder call `" ++ base.name ++ "`") base.location
  | some .primitive => buildScalar base
  | some .object => buildObject lower cx base
  | some .union => buildUnion lower cx base
  | some .intersection => buildIntersection lower cx base
  | some .composition => buildComposition lower cx base
  | some .reference => if base.name = "lazy" then buildLazy lower cx base else buildNativeEnum cx base

def refinements : List String :=
  ["refine", "superRefine", "check", "transform", "pipe", "brand", "catch", "trim", "toLowerCase", "toUpperCase",
   "finite", "safe"]

def refinement (call : Call) : String :=
  match (call.argument? 0).bind Argument.value with
  | some (.string text) => call.name ++ ":" ++ text
  | some value => call.name ++ ":" ++ value.compact
  | none => call.name

def applyDefault (s : State) (call : Call) : State :=
  let s := { s with optional := true }
  match (call.argument? 0).bind Argument.value with
  | some value => s.setDefault value
  | none =>
    let text := match call.argument? 0 with
      | some a => a.site.text
      | none => ""
    s.mapNode (pushValidation · ("default:" ++ snippet text))

def applyGeneral (lower : Lower) (cx : Context) (s : State) (call : Call) : Lowered (Option State) := do
  match call.name with
  | "optional" => return some { s with optional := true }
  | "nullable" => return some { s with nullable := true }
  | "nullish" => return some { s with optional := true, nullable := true }
  | "default" | "prefault" => return some (applyDefault s call)
  | "describe" =>
    match (call.argument? 0).bind Argument.text? with
    | some text => return some (s.describe text)
    | none => call.refuse "expects a string literal"
  | "array" => return some s.wrapArray
  | "or" => return some (s.wrapAny (← lower cx.child (← call.first).site))
  | "and" => return some (s.wrapAll (← lower cx.child (← call.first).site))
  | "readonly" => return some (s.setReadOnly.mapNode (pushValidation · (refinement call)))
  | name => return if refinements.contains name then some (s.mapNode (pushValidation · (refinement call))) else none

-- One call: a method of every node, a constraint, or a method of objects or
-- collections, in this order.
def apply (lower : Lower) (cx : Context) (s : State) (call : Call) : Lowered State := do
  if let some next ← applyGeneral lower cx s call then return next
  if let some node ← constrain s.node call then return { s with node := node }
  if let some next ← applyToObject lower cx s call then return next
  if let some node ← applyToCollection lower cx s.node call then return { s with node := node }
  refuse ("unknown method `" ++ call.name ++ "`") call.location

def lowerRoot (lower : Lower) (cx : Context) : Root → Lowered SchemaNode
  | .builder base coerce => do
    let node ← build lower cx base
    return if coerce then pushValidation node "coerce" else node
  | .identifier site => .ok (referenceTo site.text)

def lowerOver (lower : Lower) (cx : Context) (s : Site) : Lowered SchemaNode := do
  cx.checkDepth s
  match cx.bindings.chain? s with
  | none => refuse ("`" ++ snippet s.text ++ "` is not a schema expression") s.location
  | some chain =>
    let node ← lowerRoot lower cx chain.root
    let state ← chain.calls.foldlM (apply lower cx) (State.start node)
    return state.finish

def lowerWithin : Nat → Lower
  | 0, cx, s => refuse ("schema nesting exceeds the limit of " ++ toString cx.maxDepth) s.location
  | levels + 1, cx, s => lowerOver (lowerWithin levels) cx s

-- The schema of an expression. One expression inside another has fewer trees in it, so
-- their number bounds the nesting.
def lowerExpression (cx : Context) (s : Site) : Lowered SchemaNode := lowerWithin s.tree.preorder.length cx s

end Builder
end SchemaAtlas
