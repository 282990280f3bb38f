import SchemaAtlas.Builder.Lowering.Basic

namespace SchemaAtlas
namespace Builder

open Script

-- Scalars, literals, and values that a script names.

-- The scalars without arguments, by the factory that makes each.
def scalar? (name : String) : Option SchemaNode :=
  match name with
  | "string" => some (.ofType .string)
  | "number" | "float64" => some (.ofType .number)
  | "float32" => some (.ofFormat .number "float")
  | "int" => some (.ofType .integer)
  | "int32" => some (.ofFormat .integer "int32")
  | "bigint" | "int64" => some (.ofFormat .integer "int64")
  | "boolean" => some (.ofType .boolean)
  | "date" => some (.ofFormat .string "date-time")
  | "null" => some (.ofType .null)
  | "any" | "unknown" => some {}
  | "undefined" | "void" => some (pushValidation {} name)
  | "never" => some { keywords := { enum := some [] } }
  | "nan" => some (pushValidation (.ofType .number) "nan")
  | _ => (formatFor? name).map (.ofFormat .string)

def literalNode (value : Json) : SchemaNode :=
  { keywords := { type := some (.ofValue value), const := some value } }

def buildScalar (base : Call) : Lowered SchemaNode :=
  if base.name = "literal" then
    match (base.argument? 0).bind Argument.value with
    | some value => .ok (literalNode value)
    | none => base.refuse "expects a literal value"
  else
    match scalar? base.name with
    | some node => .ok node
    | none => refuse ("unsupported primitive `" ++ base.name ++ "`") base.location

-- The members of an enumeration and the number that the next plain one takes, a
-- word of 64 bits that wraps.
structure Numbering where
  values : List Json := []
  next : Int64 := 0

-- A member with a whole value moves the count behind it; a plain member takes the
-- count. A value that is not known gives the whole enumeration up.
def Numbering.add (n : Numbering) (member : Tree) : Option Numbering :=
  if member.kind == .enumAssignment then do
    let value ← (← member.child? .value).literal?
    let next := match value.asWhole? with
      | some whole => Int64.ofInt whole + 1
      | none => n.next
    return { values := n.values ++ [value], next := next }
  else if member.key?.isSome then
    some { values := n.values ++ [.number (.whole n.next.toInt)], next := n.next + 1 }
  else some n

def enumValues? (body : Tree) : Option (List Json) := (body.parts.foldlM Numbering.add {}).map Numbering.values

-- The values behind a name that one statement declares. The outer `none` says
-- that it does not declare the name.
def declaredValues (name : String) (statement : Tree) : Option (Option (List Json)) :=
  let declaration? := if statement.kind == .exportStatement then statement.child? .declaration else some statement
  match declaration? with
  | none => none
  | some declaration =>
    match declaration.kind with
    | .enumDeclaration =>
      if (declaration.child? .name).any (·.text == name) then some ((declaration.child? .body).bind enumValues?)
      else none
    | .lexicalDeclaration | .variableDeclaration =>
      (declaration.parts.find? fun d => (d.child? .name).any (·.text == name)).map fun declarator => do
        let members ← (← (← declarator.child? .value).literal?).asObject?
        return Entries.values members
    | _ => none

def namedValues? (root : Tree) (name : String) : Option (List Json) := (root.parts.findSome? (declaredValues name)).join

def commonType? (values : List Json) : Option SchemaType :=
  match values with
  | [] => none
  | first :: _ => if values.all fun v => SchemaType.ofValue v = SchemaType.ofValue first then some (.ofValue first) else none

-- An enumeration by name. What the script does not declare stays a reference.
def namedEnum (cx : Context) (name : String) : SchemaNode :=
  match namedValues? cx.root name with
  | some values => { keywords := { type := commonType? values, enum := some values } }
  | none => referenceTo name

-- The expression that a function gives: its body, or what its first `return` at
-- the top of its block gives.
def givenBy? (function : Site) : Option Site :=
  match function.kind with
  | .arrowFunction | .functionExpression => do
    let body ← function.child? .body
    if body.kind != .statementBlock then return body
    else
      let statement ← body.parts.find? (·.kind == .returnStatement)
      statement.parts.head?
  | _ => none

def buildLazy (lower : Lower) (cx : Context) (base : Call) : Lowered SchemaNode := do
  let argument := (← base.first).site.unwrap
  match givenBy? argument with
  | some body => lower cx body
  | none => refuse "`lazy` expects a function returning a schema" argument.location

def buildNativeEnum (cx : Context) (base : Call) : Lowered SchemaNode := do
  let argument := (← base.first).site.unwrap
  if argument.kind == .identifier then return namedEnum cx argument.text
  else refuse "`nativeEnum` expects an enum identifier" argument.location

end Builder
end SchemaAtlas
