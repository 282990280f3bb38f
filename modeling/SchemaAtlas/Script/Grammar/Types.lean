import SchemaAtlas.Script.Grammar.Patterns

namespace SchemaAtlas
namespace Script
namespace Grammar

open Reading

-- Types. Names of values can occur in them: behind `typeof`, before a dot, and as
-- parameters.

def other (label : String) (inner : Reading (List Tree)) : Reading Tree := within (.other label) inner

def typeArguments (r : Rules) : Reading Tree :=
  other "type_arguments" do
    sign "<"
    listUpTo ">" "," r.type

def optionalTypeArguments (r : Rules) : Reading (List Tree) := do listIf (← atSign "<") (typeArguments r)

def typeParameter (r : Rules) : Reading Tree :=
  other "type_parameter" do
    modifiers ["const", "in", "out"] isName
    let name ← anyName (.other "type_identifier")
    let bound ← if ← acceptWord "extends" then pure [← r.type] else pure []
    let standing ← if ← acceptSign "=" then pure [← r.type] else pure []
    return name.withRole .name :: bound ++ standing

def typeParameters (r : Rules) : Reading Tree :=
  other "type_parameters" do
    sign "<"
    listUpTo ">" "," (typeParameter r)

def optionalTypeParameters (r : Rules) : Reading (List Tree) := do listIf (← atSign "<") (typeParameters r)

def typePredicate (r : Rules) : Reading Tree :=
  other "type_predicate" do
    let name ← thisLeaf <|> identifier
    check !(← peek).newline
    word "is"
    return [name.withRole .name, ← r.type]

def assertion (r : Rules) : Reading Tree :=
  other "asserts" do
    word "asserts"
    return [← typePredicate r <|> thisLeaf <|> identifier]

def returnType (r : Rules) : Reading Tree := assertion r <|> typePredicate r <|> r.type

def optionalReturn (r : Rules) : Reading (List Tree) := do
  listIf (← atSign ":") (other "type_annotation" do
    sign ":"
    return [← returnType r])

def callSignature (r : Rules) : Reading (List Tree) := do
  let generics ← optionalTypeParameters r
  let parameters ← formalParameters r
  let result ← optionalReturn r
  return generics ++ [parameters.withRole .parameters] ++ result

def functionType (r : Rules) : Reading Tree :=
  other "function_type" do
    let _ ← acceptWord "abstract"
    let _ ← acceptWord "new"
    let generics ← optionalTypeParameters r
    let parameters ← formalParameters r
    sign "=>"
    return generics ++ [parameters.withRole .parameters, ← returnType r]

-- A name, or names with dots between them. The last one is a type, the first one
-- a value.
def typeName : Reading Tree := do
  let start ← here
  let first ← peek
  check (isName first)
  take first
  if ← atSign "." then
    let module ← close start .identifier []
    grow module fun module => do
      if ← acceptSign "." then
        let stop ← peek
        check (isName stop)
        take stop
        let last := stop.start.tree (if stop.next.token.text == "." then .propertyIdentifier else .other "type_identifier") []
          stop.next
        return some (← close start (.other "nested_type_identifier") [module, last])
      else return none
  else close start (.other "type_identifier") []

def namedType (r : Rules) : Reading Tree := do
  let start ← here
  let name ← typeName
  if (← atSign "<") then
    let arguments ← typeArguments r
    close start (.other "generic_type") [name.withRole .name, arguments]
  else return name

def typeQuery (r : Rules) : Reading Tree :=
  other "type_query" do
    word "typeof"
    let start ← here
    let base ← thisLeaf <|> identifier <|> anyName (.other "import")
    let value ← grow base fun value => do
      if ← acceptSign "." then
        let name ← propertyName r.expression
        return some (← close start .member [value.withRole .object, name.withRole .property])
      else if (← atSign "(") then
        sign "("
        let inner ← listUpTo ")" "," r.type
        return some (← close start (.other "call_type") (value :: inner))
      else return none
    return value :: (← optionalTypeArguments r)

def importType (r : Rules) : Reading Tree :=
  other "import_type" do
    word "import"
    sign "("
    let inner ← listUpTo ")" "," r.type
    let _ ← many (do
      if ← acceptSign "." then
        let _ ← anyName (.other "type_identifier")
        return some ()
      else return none)
    return inner ++ (← optionalTypeArguments r)

def templateType (r : Rules) : Reading Tree := template r.type

def tupleMember (r : Rules) : Reading Tree := do
  let start ← here
  let _ ← acceptSign "..."
  let named : Reading Tree := do
    let name ← identifier
    let _ ← acceptSign "?"
    let ascribed ← ascription r
    close start .requiredParameter [name.withRole .name, ascribed]
  let plain : Reading Tree := do
    let inner ← r.type
    if ← acceptSign "?" then close start (.other "optional_type") [inner] else return inner
  named <|> plain

def indexMember (r : Rules) : Reading Tree :=
  other "index_signature" do
    let _ ← (acceptSign "+" <|> acceptSign "-")
    let _ ← acceptSign "-"
    let _ ← acceptWord "readonly"
    sign "["
    let plain : Reading (List Tree) := do
      let name ← identifier
      sign ":"
      return [name.withRole .name, ← r.type]
    let mapped : Reading (List Tree) := do
      let name ← anyName (.other "type_identifier")
      word "in"
      let source ← r.type
      let renamed ← if ← acceptWord "as" then pure [← r.type] else pure []
      return [name, source] ++ renamed
    let inner ← plain <|> mapped
    sign "]"
    let _ ← acceptSign "+"
    let _ ← acceptSign "-"
    let _ ← acceptSign "?"
    return inner ++ (← optionalAscription r)

def startsMember (t : Token) : Bool :=
  isName t || t.shape == .quote || t.shape == .number || t.shape == .privateName ||
    (t.shape == .sign && t.text == "[")

def namedMember (r : Rules) : Reading Tree := do
  let start ← here
  let rest : Reading Tree := do
    let name ← propertyName r.expression
    let _ ← acceptSign "?"
    if (← atSign "(") || (← atSign "<") then
      close start (.other "method_signature") (name.withRole .name :: (← callSignature r))
    else close start (.other "property_signature") (name.withRole .name :: (← optionalAscription r))
  (do modifiers (accessWords ++ ["get", "set", "async"]) startsMember; rest) <|> rest

def typeMember (r : Rules) : Reading Tree := do
  if (← atSign "(") || (← atSign "<") then other "call_signature" (callSignature r)
  else if (← atWord "new") && (← ahead (do word "new"; callSignature r)) then
    other "construct_signature" do
      word "new"
      callSignature r
  else indexMember r <|> namedMember r

def objectType (r : Rules) : Reading Tree :=
  other "object_type" do
    sign "\x7b"
    let members ← many (do
      if ← atSign "\x7d" then return none
      if ← accept (fun t => t.shape == .sign && (t.text == ";" || t.text == ",")) then return some []
      return some [← typeMember r])
    sign "\x7d"
    return members.flatten

def signedNumber : Reading Tree :=
  within (.unary "-") do
    sign "-"
    return [(← number).withRole .argument]

-- A name that a condition gives to a type, with its bound.
def inferredType (r : Rules) : Reading Tree :=
  other "infer_type" do
    word "infer"
    let name ← anyName (.other "type_identifier")
    let bound ← maybe (do
      word "extends"
      let bound ← r.type
      check !(← atSign "?")
      return bound)
    return name :: bound.toList

def primaryType (r : Rules) : Reading Tree := do
  let t ← peek
  match t.shape with
  | .quote => string
  | .number => number
  | .backquote => templateType r
  | .name =>
    if t.text == "typeof" then typeQuery r
    else if t.text == "import" then importType r
    else if t.text == "this" then thisLeaf
    else if t.text == "infer" && isName t.next.token then inferredType r
    else if ["keyof", "unique", "readonly"].contains t.text && startsOperand t.next.token then
      other "operator_type" do
        take t
        return [← r.type]
    else namedType r
  | _ =>
    if ← atSign "\x7b" then objectType r
    else if ← atSign "[" then
      other "tuple_type" do
        sign "["
        listUpTo "]" "," (tupleMember r)
    else if ← atSign "(" then
      other "parenthesized_type" do
        sign "("
        let inner ← r.type
        sign ")"
        return [inner]
    else signedNumber
where
  startsOperand (t : Token) : Bool :=
    isName t || t.shape == .quote || t.shape == .backquote || t.shape == .number ||
      (t.shape == .sign && ["(", "[", "\x7b", "-"].contains t.text)

def arrayType (r : Rules) : Reading Tree := do
  let start ← here
  let base ← primaryType r
  grow base fun base => do
    if (← atSign "[") && !(← peek).newline then
      sign "["
      let index ← if ← atSign "]" then pure [] else pure [← r.type]
      sign "]"
      return some (← close start (.other "array_type") (base :: index))
    else return none

def joinedType (label joint : String) (inner : Reading Tree) : Reading Tree := do
  let start ← here
  let _ ← acceptSign joint
  let first ← inner
  grow first fun left => do
    if ← acceptSign joint then
      let right ← inner
      return some (← close start (.other label) [left, right])
    else return none

def unionType (r : Rules) : Reading Tree := joinedType "union_type" "|" (joinedType "intersection_type" "&" (arrayType r))

def conditionalType (r : Rules) : Reading Tree := do
  let start ← here
  let left ← unionType r
  let chosen : Reading Tree := do
    check !(← peek).newline
    word "extends"
    let right ← unionType r
    sign "?"
    let yes ← r.type
    sign ":"
    let no ← r.type
    close start (.other "conditional_type") [left, right, yes, no]
  if ← atWord "extends" then chosen <|> pure left else return left

def startsFunctionType (t : Token) : Bool :=
  (t.shape == .sign && (t.text == "(" || t.text == "<")) ||
    (t.shape == .name && (t.text == "new" || t.text == "abstract"))

def type (r : Rules) : Reading Tree := do
  if startsFunctionType (← peek) then functionType r <|> conditionalType r else conditionalType r

end Grammar
end Script
end SchemaAtlas
