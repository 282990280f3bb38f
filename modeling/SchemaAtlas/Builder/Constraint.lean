import SchemaAtlas.Builder.Refusal
import SchemaAtlas.Schema.Node

namespace SchemaAtlas
namespace Builder

open Script

-- Methods that set a keyword. Which ones there are depends on the type of the node.

def formats : List (String × String) :=
  [("email", "email"), ("url", "uri"), ("uuid", "uuid"), ("guid", "uuid"), ("cuid", "cuid"), ("cuid2", "cuid2"),
   ("ulid", "ulid"), ("datetime", "date-time"), ("date", "date"), ("time", "time"), ("ip", "ip"), ("ipv4", "ipv4"),
   ("ipv6", "ipv6"), ("emoji", "emoji"), ("base64", "base64"), ("base64url", "base64url"), ("nanoid", "nanoid"),
   ("duration", "duration"), ("cidr", "cidr"), ("cidrv4", "cidrv4"), ("cidrv6", "cidrv6")]

def formatFor? (method : String) : Option String := formats.lookup method

-- A bound of numbers.
inductive Bound where
  | minimum | maximum | exclusiveMinimum | exclusiveMaximum | multipleOf
deriving DecidableEq, Repr

namespace Bound

def set (bound : Bound) (value : Double) (k : Keywords) : Keywords :=
  match bound with
  | .minimum => { k with minimum := some value }
  | .maximum => { k with maximum := some value }
  | .exclusiveMinimum => { k with exclusiveMinimum := some value }
  | .exclusiveMaximum => { k with exclusiveMaximum := some value }
  | .multipleOf => { k with multipleOf := some value }

-- The methods that take the bound as an argument.
def ofMethod? (method : String) : Option Bound :=
  [("min", .minimum), ("gte", .minimum), ("max", .maximum), ("lte", .maximum), ("gt", .exclusiveMinimum),
   ("lt", .exclusiveMaximum), ("multipleOf", .multipleOf), ("step", .multipleOf)].lookup method

-- The methods that bound the sign; the bound is zero.
def ofSignMethod? (method : String) : Option Bound :=
  [("positive", .exclusiveMinimum), ("nonnegative", .minimum), ("negative", .exclusiveMaximum),
   ("nonpositive", .maximum)].lookup method

end Bound

inductive LengthBound where
  | least | most | exact
deriving DecidableEq, Repr

namespace LengthBound

def ofMethod? (method : String) : Option LengthBound :=
  [("min", .least), ("max", .most), ("length", .exact)].lookup method

-- The bounds after the method, given those before it.
def set (length : LengthBound) (value : Nat) (bounds : Option Nat × Option Nat) : Option Nat × Option Nat :=
  match length with
  | .least => (some value, bounds.2)
  | .most => (bounds.1, some value)
  | .exact => (some value, some value)

end LengthBound

-- A text as a pattern that matches it and nothing else.
def patternOf (text : String) : String :=
  let special := "\\.+*?()|[]\x7b\x7d^$#&-~".toList
  String.ofList (text.toList.flatMap fun c => if special.contains c then ['\\', c] else [c])

def pushValidation (n : SchemaNode) (text : String) : SchemaNode :=
  { n with metadata := { n.metadata with chain := { n.metadata.chain with
      validations := n.metadata.chain.validations ++ [text] } } }

def withKeywords (n : SchemaNode) (k : Keywords) : SchemaNode := { n with keywords := k }

-- The first pattern is a keyword; later ones are validations.
def addPattern (n : SchemaNode) (pattern : String) : SchemaNode :=
  if n.keywords.pattern.isNone then withKeywords n { n.keywords with pattern := some pattern }
  else pushValidation n ("pattern:" ++ pattern)

def patternArgument (call : Call) : Lowered String := do
  let a ← call.first
  if a.site.kind != .regex then call.refuse "expects a regular expression literal"
  else
    match a.site.tree.parts.find? (·.kind == .regexPattern) with
    | some pattern => return pattern.text
    | none => refuse "empty regular expression" call.location

def textPattern? (call : Call) : Lowered (Option String) := do
  match call.name with
  | "startsWith" => return some ("^" ++ patternOf (← call.firstText))
  | "endsWith" => return some (patternOf (← call.firstText) ++ "$")
  | "includes" => return some (patternOf (← call.firstText))
  | "regex" => return some (← patternArgument call)
  | _ => return none

def constrainText (n : SchemaNode) (call : Call) : Lowered (Option SchemaNode) := do
  let k := n.keywords
  match LengthBound.ofMethod? call.name with
  | some length =>
    let (least, most) := length.set (← call.firstCount) (k.minLength, k.maxLength)
    return some (withKeywords n { k with minLength := least, maxLength := most })
  | none =>
    if call.name = "nonempty" then return some (withKeywords n { k with minLength := some 1 })
    else
      match formatFor? call.name with
      | some format => return some (withKeywords n { k with format := some format })
      | none => return (← textPattern? call).map (addPattern n)

def constrainNumber (n : SchemaNode) (call : Call) : Lowered (Option SchemaNode) := do
  let k := n.keywords
  match Bound.ofMethod? call.name, Bound.ofSignMethod? call.name with
  | some bound, _ => return some (withKeywords n (bound.set (← call.firstDouble) k))
  | none, some bound => return some (withKeywords n (bound.set (Double.zero false) k))
  | none, none => return if call.name = "int" then some (withKeywords n { k with type := some .integer }) else none

def constrainArray (n : SchemaNode) (call : Call) : Lowered (Option SchemaNode) := do
  let k := n.keywords
  match LengthBound.ofMethod? call.name with
  | some length =>
    let (least, most) := length.set (← call.firstCount) (k.minItems, k.maxItems)
    return some (withKeywords n { k with minItems := least, maxItems := most })
  | none => return if call.name = "nonempty" then some (withKeywords n { k with minItems := some 1 }) else none

def constrain (n : SchemaNode) (call : Call) : Lowered (Option SchemaNode) :=
  match n.keywords.type with
  | some .string => constrainText n call
  | some .number | some .integer => constrainNumber n call
  | some .array => constrainArray n call
  | _ => .ok none

end Builder
end SchemaAtlas
