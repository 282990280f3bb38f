import SchemaAtlas.Script.Grammar.Literals

namespace SchemaAtlas
namespace Script
namespace Grammar

open Reading

-- Binding patterns and parameters.

def thisLeaf : Reading Tree := do
  check (← atWord "this")
  leaf (.other "this")

def defaulted (r : Rules) (kind : Kind) (pattern : Reading Tree) : Reading Tree := do
  let start ← here
  let left ← pattern
  if ← acceptSign "=" then
    let value ← r.expression
    close start kind [left.withRole .left, value]
  else return left

def memberTarget (r : Rules) : Reading Tree := do
  let start ← here
  let base ← identifier <|> thisLeaf
  check ((← atSign ".") || (← atSign "["))
  grow base fun left => do
    if ← acceptSign "." then
      let name ← propertyName r.expression
      return some (← close start .member [left.withRole .object, name.withRole .property])
    else if ← acceptSign "[" then
      let index ← r.expression
      sign "]"
      return some (← close start (.other "subscript_expression") [left.withRole .object, index])
    else return none

def target (r : Rules) : Reading Tree := memberTarget r <|> r.pattern

def restPattern (r : Rules) : Reading Tree :=
  within .restPattern do
    sign "..."
    return [← target r]

def pairPattern (r : Rules) : Reading Tree :=
  within .pairPattern do
    let key ← propertyName r.expression
    sign ":"
    let value ← defaulted r .assignmentPattern (target r)
    return [key.withRole .key, value.withRole .value]

def shorthandPattern (r : Rules) : Reading Tree := defaulted r .objectAssignmentPattern (anyName .shorthandPattern)

def objectPattern (r : Rules) : Reading Tree :=
  within .objectPattern do
    sign "\x7b"
    listUpTo "\x7d" "," (restPattern r <|> pairPattern r <|> shorthandPattern r)

def arrayPattern (r : Rules) : Reading Tree :=
  within .arrayPattern do
    sign "["
    listUpTo "]" "," (restPattern r <|> defaulted r .assignmentPattern (target r))

def pattern (r : Rules) : Reading Tree := identifier <|> objectPattern r <|> arrayPattern r

def ascription (r : Rules) : Reading Tree :=
  within (.other "type_annotation") do
    sign ":"
    return [← r.type]

def optionalAscription (r : Rules) : Reading (List Tree) := do listIf (← atSign ":") (ascription r)

def initializer (r : Rules) : Reading (List Tree) := do
  if ← acceptSign "=" then return [(← r.expression).withRole .value] else return []

def accessWords : List String := ["public", "private", "protected", "readonly", "override", "static", "accessor"]

-- Modifiers before a parameter or a member. A word that something else follows is
-- the name itself.
def modifiers (words : List String) (follows : Token → Bool) : Reading Unit := do
  let _ ← many (do
    let t ← peek
    if t.shape == .name && words.contains t.text && follows t.next.token then
      take t
      return some ()
    else return none)

def startsParameter (t : Token) : Bool :=
  isName t || (t.shape == .sign && ["\x7b", "[", "..."].contains t.text)

def decorators (r : Rules) : Reading (List Tree) :=
  many (do
    if ← atSign "@" then
      return some (← within (.other "decorator") do
        sign "@"
        return [← r.unary])
    else return none)

def parameter (r : Rules) : Reading Tree := do
  let start ← here
  let decorators ← decorators r
  modifiers accessWords startsParameter
  let pattern ← thisLeaf <|> restPattern r <|> r.pattern
  let mayLack ← acceptSign "?"
  let ascribed ← optionalAscription r
  let value ← initializer r
  let kind := if mayLack then Kind.optionalParameter else .requiredParameter
  close start kind (decorators ++ [pattern.withRole .pattern] ++ ascribed ++ value)

def formalParameters (r : Rules) : Reading Tree :=
  within .formalParameters do
    sign "("
    listUpTo ")" "," (parameter r)

end Grammar
end Script
end SchemaAtlas
