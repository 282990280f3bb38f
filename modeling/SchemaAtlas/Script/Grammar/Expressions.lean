import SchemaAtlas.Script.Grammar.Types

namespace SchemaAtlas
namespace Script
namespace Grammar

open Reading

-- Expressions, from the innermost form outwards.

def sequence (r : Rules) : Reading Tree := do
  let start ← here
  let first ← r.expression
  grow first fun left => do
    if ← acceptSign "," then
      let right ← r.expression
      return some (← close start (.other "sequence_expression") [left, right])
    else return none

def spread (r : Rules) : Reading Tree :=
  within .spread do
    sign "..."
    return [← r.expression]

def element (r : Rules) : Reading Tree := do if ← atSign "..." then spread r else r.expression

def array (r : Rules) : Reading Tree :=
  within .array do
    sign "["
    listUpTo "]" "," (element r)

def block (r : Rules) : Reading Tree :=
  within .statementBlock do
    sign "\x7b"
    let statements ← many (do if ← atSign "\x7d" then return none else return some (← r.statement))
    sign "\x7d"
    return statements

def functionRest (r : Rules) : Reading (List Tree) := do
  let signature ← callSignature r
  return signature ++ [(← block r).withRole .body]

def methodWords : List String := accessWords ++ ["async", "get", "set", "abstract", "declare"]

def startsMethodName (t : Token) : Bool := startsMember t || (t.shape == .sign && t.text == "*")

def startsSignature : Reading Unit := do check ((← atSign "(") || (← atSign "<"))

def methodName (r : Rules) : Reading Tree := do
  let rest : Reading Tree := do
    let _ ← acceptSign "*"
    let name ← propertyName r.expression
    let _ ← acceptSign "?"
    startsSignature
    return name.withRole .name
  (do modifiers methodWords startsMethodName; rest) <|> rest

def method (r : Rules) : Reading Tree :=
  within .method do
    let name ← methodName r
    return name :: (← functionRest r)

-- A key without its value takes an identifier that is missing.
def pair (r : Rules) : Reading Tree :=
  within .pair do
    let key ← propertyName r.expression
    sign ":"
    let value ← if (← atSign "\x7d") || (← atSign ",") then missing "identifier" else r.expression
    return [key.withRole .key, value.withRole .value]

def shorthand : Reading Tree := anyName .shorthandProperty

def objectMember (r : Rules) : Reading Tree := do
  if ← atSign "..." then spread r
  else if ← ahead (methodName r) then method r
  else pair r <|> shorthand

def object (r : Rules) : Reading Tree :=
  within .object do
    sign "\x7b"
    listUpTo "\x7d" "," (objectMember r)

def endsStatement (t : Token) : Bool :=
  t.shape == .stop || (t.shape == .sign && [";", "\x7d"].contains t.text)

-- Arguments up to the closing parenthesis. Where the statement ends first, the
-- parenthesis is missing; a token with no comma before it is out of place.
def arguments (r : Rules) : Reading Tree :=
  within .arguments do
    sign "("
    let items ← many (do
      if ← atSign ")" then return none
      if ← acceptSign "," then return some []
      if endsStatement (← peek) then return none
      let item ← element r
      if (← atSign ")") || (← atSign ",") || endsStatement (← peek) then return some [item]
      else return some [item, ← stray])
    let items := items.flatten
    if ← acceptSign ")" then return items else return items ++ [← missing ")"]

def parenthesized (r : Rules) : Reading Tree :=
  within .parenthesized do
    sign "("
    let comments := (← peek).comments
    let inner ← sequence r
    let ascribed ← optionalAscription r
    if ← acceptSign ")" then return comments ++ [inner] ++ ascribed
    else do
      check (endsStatement (← peek))
      return comments ++ [inner, ← missing ")"]

def functionExpression (r : Rules) : Reading Tree := do
  let start ← here
  let _ ← acceptWord "async"
  word "function"
  let generator ← acceptSign "*"
  let name ← if (← atSign "(") || (← atSign "<") then pure [] else pure [(← anyName .identifier).withRole .name]
  let rest ← functionRest r
  close start (if generator then .generatorFunction else .functionExpression) (name ++ rest)

-- A chain of members without calls, as `new` takes it.
def constructed (r : Rules) : Reading Tree := do
  let start ← here
  let base ← r.primary
  grow base fun left => do
    if ← acceptSign "." then
      let name ← propertyName r.expression
      return some (← close start .member [left.withRole .object, name.withRole .property])
    else if ← acceptSign "[" then
      let index ← sequence r
      sign "]"
      return some (← close start (.other "subscript_expression") [left.withRole .object, index])
    else return none

def newExpression (r : Rules) : Reading Tree :=
  other "new_expression" do
    word "new"
    if ← acceptSign "." then return [← anyName (.other "property_identifier")]
    let target ← constructed r
    let generics ← maybe (do
      let generics ← typeArguments r
      check (← atSign "(")
      return generics)
    let arguments ← listIf (← atSign "(") (arguments r)
    return target :: generics.toList ++ arguments

def plainWords : List (String × Kind) :=
  [("true", .true), ("false", .false), ("null", .null), ("undefined", .other "undefined"), ("this", .other "this"),
   ("super", .other "super"), ("import", .other "import")]

-- An expression without a sign on either side, given how classes are read.
def primary (r : Rules) (classExpression : Reading Tree) : Reading Tree := do
  let t ← peek
  match t.shape with
  | .quote => string
  | .number => number
  | .backquote => template (sequence r)
  | .privateName => leaf (.other "private_property_identifier")
  | .name =>
    match plainWords.lookup t.text with
    | some kind => leaf kind
    | none =>
      if t.text == "function" then functionExpression r
      else if t.text == "async" && t.next.token.text == "function" && !t.next.token.newline then functionExpression r
      else if t.text == "class" then classExpression
      else if t.text == "new" then newExpression r
      else identifier
  | .sign =>
    if t.text == "(" then parenthesized r
    else if t.text == "[" then array r
    else if t.text == "\x7b" then object r
    else if t.text == "/" || t.text == "/=" then regex
    else if t.text == "@" then classExpression
    else failure
  | _ => failure

def memberName (r : Rules) : Reading (List Tree) := do
  let strays ← many (do if ← atSign "." then return some (← stray) else return none)
  let t ← peek
  let name ← match t.shape with
    | .name => leaf .propertyIdentifier
    | .privateName => propertyName r.expression
    | _ => failure
  return strays ++ [name.withRole .property]

def endsInstance (t : Token) : Bool :=
  t.shape == .stop || t.newline || (t.shape == .sign && [")", "]", ",", ";", "\x7d", ":", ".", "?."].contains t.text)

def chainStep (r : Rules) (start : Cursor) (left : Tree) : Reading (Option Tree) := do
  let t ← peek
  let call (generics : List Tree) : Reading (Option Tree) := do
    let arguments ← arguments r
    return some (← close start .call ([left.withRole .function] ++ generics ++ [arguments.withRole .arguments]))
  let tagged : Reading (Option Tree) := do
    let text ← template (sequence r)
    return some (← close start .call [left.withRole .function, text.withRole .arguments])
  let index : Reading (Option Tree) := do
    sign "["
    let index ← sequence r
    sign "]"
    return some (← close start (.other "subscript_expression") [left.withRole .object, index])
  let member : Reading (Option Tree) := do
    return some (← close start .member (left.withRole .object :: (← memberName r)))
  let generic : Reading (Option Tree) := do
    let generics ← typeArguments r
    if ← atSign "(" then call [generics]
    else if (← peek).shape == .backquote then tagged
    else do
      check (endsInstance (← peek))
      return some (← close start (.other "instantiation_expression") [left.withRole .function, generics])
  if t.shape == .backquote then tagged
  else if t.shape != .sign then return none
  else if t.text == "." then do take t; member
  else if t.text == "?." then do
    take t
    if ← atSign "(" then call []
    else if ← atSign "[" then index
    else if ← atSign "<" then generic
    else member
  else if t.text == "[" then index
  else if t.text == "(" then call []
  else if t.text == "!" && !t.newline then do
    take t
    return some (← close start .nonNull [left])
  else if t.text == "<" then generic <|> pure none
  else return none

def chain (r : Rules) (classExpression : Reading Tree) : Reading Tree := do
  let start ← here
  let base ← primary r classExpression
  grow base (chainStep r start)

def updated (r : Rules) (classExpression : Reading Tree) : Reading Tree := do
  let start ← here
  let inner ← chain r classExpression
  let t ← peek
  if t.shape == .sign && (t.text == "++" || t.text == "--") && !t.newline then
    take t
    close start (.other "update_expression") [inner.withRole .argument]
  else return inner

def typeAssertion (r : Rules) : Reading Tree :=
  other "type_assertion" do
    let generics ← typeArguments r
    return [generics, ← r.unary]

def unary (r : Rules) (classExpression : Reading Tree) : Reading Tree := do
  let t ← peek
  let under (kind : Kind) : Reading Tree :=
    within kind do
      take t
      return [(← r.unary).withRole .argument]
  if t.shape == .sign && ["!", "~", "-", "+"].contains t.text then under (.unary t.text)
  else if t.shape == .sign && ["++", "--"].contains t.text then under (.other "update_expression")
  else if t.shape == .name && ["typeof", "void", "delete"].contains t.text then under (.unary t.text)
  else if t.shape == .sign && t.text == "<" then typeAssertion r
  else if t.shape == .name && t.text == "await" then under (.other "await_expression") <|> updated r classExpression
  else updated r classExpression

def operatorLevels : List (List String) :=
  [["??"], ["||"], ["&&"], ["|"], ["^"], ["&"], ["===", "!==", "==", "!="], ["<=", ">=", "<", ">", "instanceof", "in"],
   ["<<", ">>>", ">>"], ["+", "-"], ["*", "/", "%"], ["**"]]

-- Signs that an operator of the same beginning must not be taken from.
def assignments : List String :=
  [">>>=", "<<=", ">>=", "**=", "&&=", "||=", "??=", "+=", "-=", "*=", "/=", "%=", "&=", "|=", "^="]

-- Longer signs before the signs they start with.
def operators : List String := [3, 2, 1].flatMap fun length => operatorLevels.flatten.filter (·.length == length)

def operatorAt (t : Token) : Option String :=
  match t.shape with
  | .name => if t.text == "instanceof" || t.text == "in" then some t.text else none
  | .sign =>
    let stands (sign : String) : Bool := sign.toList.isPrefixOf t.start.rest
    if assignments.any stands || ["=>", "++", "--"].any stands then none
    else operators.find? fun sign => sign != "in" && stands sign
  | _ => none

def takeOperator (t : Token) (operator : String) : Reading Unit := set (t.start.advance operator.length)

def joined (inner : Reading Tree) : List (List String) → Reading Tree
  | [] => inner
  | level :: tighter => do
    let start ← here
    let first ← joined inner tighter
    grow first fun left => do
      let t ← peek
      match operatorAt t with
      | some operator =>
        if level.contains operator then
          takeOperator t operator
          let right ← joined inner tighter
          return some (← close start (.other "binary_expression") [left.withRole .left, right])
        else return none
      | none => return none

def typedStep (r : Rules) (start : Cursor) (left : Tree) : Reading (Option Tree) := do
  let t ← peek
  if t.newline || t.shape != .name then return none
  else if t.text == "as" then
    take t
    if ← acceptWord "const" then return some (← close start .asType [left])
    else
      let type ← r.type
      return some (← close start .asType [left, type])
  else if t.text == "satisfies" then
    take t
    let type ← r.type
    return some (← close start .satisfiesType [left, type])
  else return none

def tighterThan (operator : String) : List (List String) → List (List String)
  | [] => []
  | level :: tighter => if level.contains operator then tighter else tighterThan operator tighter

-- Joined values and the types they are given. Behind a type further operators
-- may follow.
def binary (r : Rules) : Reading Tree := do
  let start ← here
  let first ← joined r.unary operatorLevels
  grow first fun left => do
    match ← typedStep r start left with
    | some typed => return some typed
    | none =>
      let t ← peek
      match operatorAt t with
      | some operator =>
        takeOperator t operator
        let right ← joined r.unary (tighterThan operator operatorLevels)
        return some (← close start (.other "binary_expression") [left.withRole .left, right])
      | none => return none

def conditional (r : Rules) : Reading Tree := do
  let start ← here
  let test ← binary r
  if ← acceptSign "?" then
    let yes ← r.expression
    sign ":"
    let no ← r.expression
    close start (.other "ternary_expression") [test, yes, no]
  else return test

def arrowBody (r : Rules) : Reading Tree := do
  if ← atSign "\x7b" then block r else r.expression

def arrow : Reading Unit := do
  check !(← peek).newline
  sign "=>"

def arrowFunction (r : Rules) : Reading Tree :=
  within .arrowFunction do
    let single : Reading (List Tree) := do
      let name ← identifier
      arrow
      return [name.withRole .parameter]
    let full : Reading (List Tree) := do
      let signature ← callSignature r
      arrow
      return signature
    let asynchronous (head : Reading (List Tree)) : Reading (List Tree) := do
      word "async"
      check !(← peek).newline
      head
    let head ← single <|> full <|> asynchronous single <|> asynchronous full
    return head ++ [(← arrowBody r).withRole .body]

def startsArrow (t : Token) : Bool :=
  isFreeName t || (t.shape == .sign && (t.text == "(" || t.text == "<"))

def yieldExpression (r : Rules) : Reading Tree :=
  other "yield_expression" do
    word "yield"
    let _ ← acceptSign "*"
    let t ← peek
    listIf (!(t.newline || endsInstance t)) r.expression

def assignmentAt (t : Token) : Option String :=
  if t.shape != .sign then none
  else
    let stands (sign : String) : Bool := sign.toList.isPrefixOf t.start.rest
    match assignments.find? stands with
    | some sign => some sign
    | none => if t.text == "=" then some "=" else none

def assignedPattern (r : Rules) : Reading Tree := do
  let t ← peek
  check (t.shape == .sign && (t.text == "[" || t.text == "\x7b"))
  let left ← r.pattern
  check (← atSign "=")
  return left

def assignment (r : Rules) : Reading Tree := do
  let start ← here
  let left ← assignedPattern r <|> conditional r
  let t ← peek
  match assignmentAt t with
  | some operator =>
    takeOperator t operator
    let right ← r.expression
    close start (.other "assignment_expression") [left.withRole .left, right]
  | none => return left

def expression (r : Rules) : Reading Tree := do
  let t ← peek
  if t.shape == .name && t.text == "yield" then yieldExpression r <|> assignment r
  else if startsArrow t then arrowFunction r <|> assignment r
  else assignment r

end Grammar
end Script
end SchemaAtlas
