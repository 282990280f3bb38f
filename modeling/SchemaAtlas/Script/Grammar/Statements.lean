import SchemaAtlas.Script.Grammar.Expressions

namespace SchemaAtlas
namespace Script
namespace Grammar

open Reading

-- Classes, declarations and statements.

-- The end of a statement: a semicolon, a closing brace, the end of the script, or
-- the end of a line.
def statementEnd : Reading Unit := do
  if ← acceptSign ";" then return
  let t ← peek
  check (t.shape == .stop || t.newline || (t.shape == .sign && t.text == "\x7d"))

-- The value in front of a statement's end. What stands between them is out of
-- place.
def endedValue (value : Reading Tree) : Reading (List Tree) := do
  let t ← value
  let strays ← many (do if ← ahead statementEnd then return none else return some (← stray))
  statementEnd
  return t :: strays

-- Classes.

def staticBlock (r : Rules) : Reading Tree :=
  other "class_static_block" do
    word "static"
    return [(← block r).withRole .body]

-- A member in front of a signature; without a body it only declares.
def classMethod (r : Rules) : Reading Tree := do
  let start ← here
  let name ← methodName r
  let signature ← callSignature r
  if ← atSign "\x7b" then
    let body ← block r
    close start .method (name :: signature ++ [body.withRole .body])
  else close start (.other "method_signature") (name :: signature)

def startsFieldName (t : Token) : Bool := startsMember t

def classField (r : Rules) : Reading Tree :=
  other "public_field_definition" do
    let rest : Reading (List Tree) := do
      let name ← propertyName r.expression
      let _ ← (acceptSign "?" <|> acceptSign "!")
      let _ ← acceptSign "!"
      let ascribed ← optionalAscription r
      let value ← initializer r
      check (← ahead statementEnd)
      return name.withRole .name :: ascribed ++ value
    (do modifiers (accessWords ++ ["abstract", "declare"]) startsFieldName; rest) <|> rest

def classMember (r : Rules) : Reading (List Tree) := do
  let decorations ← decorators r
  let index : Reading Tree := do
    modifiers accessWords startsMember
    indexMember r
  let member ← staticBlock r <|> (do check (← ahead (methodName r)); classMethod r) <|> index <|> classField r
  return decorations ++ [member]

def classBody (r : Rules) : Reading Tree :=
  within .classBody do
    sign "\x7b"
    let members ← many (do
      if ← atSign "\x7d" then return none
      if ← acceptSign ";" then return some []
      return some (← classMember r))
    sign "\x7d"
    return members.flatten

def classHeritage (r : Rules) : Reading (List Tree) := do
  let extended ← if ← acceptWord "extends" then do
      let value ← r.unary
      pure (value :: (← optionalTypeArguments r))
    else pure []
  let implemented ← if ← acceptWord "implements" then do
      let first ← r.type
      let others ← many (do if ← acceptSign "," then return some (← r.type) else return none)
      pure (first :: others)
    else pure []
  return extended ++ implemented

def className : Reading (List Tree) := do
  let t ← peek
  listIf (isName t && t.text != "extends" && t.text != "implements") (anyName (.other "type_identifier"))

def classRest (r : Rules) : Reading (List Tree) := do
  let name ← className
  let generics ← optionalTypeParameters r
  let heritage ← classHeritage r
  let body ← classBody r
  return name.map (·.withRole .name) ++ generics ++ heritage ++ [body.withRole .body]

def classExpression (r : Rules) : Reading Tree :=
  other "class" do
    let decorations ← decorators r
    word "class"
    return decorations ++ (← classRest r)

def classDeclaration (r : Rules) : Reading Tree := do
  let start ← here
  let decorations ← decorators r
  let isAbstract ← acceptWord "abstract"
  word "class"
  let rest ← classRest r
  close start (if isAbstract then .abstractClassDeclaration else .classDeclaration) (decorations ++ rest)

-- Declarations.

def declarator (r : Rules) : Reading Tree :=
  within .declarator do
    let name ← r.pattern
    let _ ← acceptSign "!"
    let ascribed ← optionalAscription r
    let value ← initializer r
    return name.withRole .name :: ascribed ++ value

def declarators (r : Rules) : Reading (List Tree) := do
  let first ← declarator r
  let others ← many (do if ← acceptSign "," then return some (← declarator r) else return none)
  return first :: others

def bindings (r : Rules) : Reading (Kind × List Tree) := do
  let t ← peek
  check (t.shape == .name && ["let", "const", "var"].contains t.text)
  take t
  return (if t.text == "var" then .variableDeclaration else .lexicalDeclaration, ← declarators r)

def bindingList (r : Rules) : Reading Tree := do
  let start ← here
  let (kind, names) ← bindings r
  let strays ← many (do if ← ahead statementEnd then return none else return some (← stray))
  statementEnd
  close start kind (names ++ strays)

def functionDeclaration (r : Rules) : Reading Tree := do
  let start ← here
  let _ ← acceptWord "async"
  word "function"
  let generator ← acceptSign "*"
  let name ← anyName .identifier
  let signature ← callSignature r
  let name := name.withRole .name
  if ← atSign "\x7b" then
    let body ← block r
    close start (if generator then .generatorDeclaration else .functionDeclaration)
      (name :: signature ++ [body.withRole .body])
  else
    statementEnd
    close start (.other "function_signature") (name :: signature)

-- A member of an enumeration, with or without its value.
def enumMember (r : Rules) : Reading Tree := do
  let start ← here
  let name ← propertyName r.expression
  let value ← initializer r
  if value.isEmpty then return name.withRole .name
  else close start .enumAssignment (name.withRole .name :: value)

def enumDeclaration (r : Rules) : Reading Tree :=
  within .enumDeclaration do
    let _ ← acceptWord "const"
    word "enum"
    let name ← anyName .identifier
    let body ← other "enum_body" do
      sign "\x7b"
      listUpTo "\x7d" "," (enumMember r)
    return [name.withRole .name, body.withRole .body]

def interfaceDeclaration (r : Rules) : Reading Tree :=
  other "interface_declaration" do
    word "interface"
    let name ← anyName (.other "type_identifier")
    let generics ← optionalTypeParameters r
    let extended ← if ← acceptWord "extends" then do
        let first ← r.type
        let others ← many (do if ← acceptSign "," then return some (← r.type) else return none)
        pure (first :: others)
      else pure []
    let body ← objectType r
    return name.withRole .name :: generics ++ extended ++ [body.withRole .body]

def aliasDeclaration (r : Rules) : Reading Tree :=
  other "type_alias_declaration" do
    word "type"
    check !(← peek).newline
    let name ← anyName (.other "type_identifier")
    let generics ← optionalTypeParameters r
    sign "="
    let value ← r.type
    statementEnd
    return name.withRole .name :: generics ++ [value.withRole .value]

def dottedName : Reading Tree := do
  let start ← here
  let first ← anyName .identifier
  grow first fun left => do
    if ← acceptSign "." then
      let last ← anyName .propertyIdentifier
      return some (← close start (.other "nested_identifier") [left.withRole .object, last.withRole .property])
    else return none

def namespaceDeclaration (r : Rules) : Reading Tree :=
  other "internal_module" do
    check (← accept fun t => t.shape == .name && ["namespace", "module"].contains t.text)
    check !(← peek).newline
    let name ← string <|> dottedName
    if ← atSign "\x7b" then return [name.withRole .name, (← block r).withRole .body]
    else
      statementEnd
      return [name.withRole .name]

def globalBlock (r : Rules) : Reading Tree := do
  word "global"
  block r

def declaration (r : Rules) : Reading Tree := do
  let t ← peek
  let next := t.next.token
  match t.text with
  | "const" => if next.text == "enum" then enumDeclaration r else bindingList r
  | "var" => bindingList r
  | "let" => if isName next || next.text == "[" || next.text == "\x7b" then bindingList r else failure
  | "function" => functionDeclaration r
  | "async" => if next.text == "function" && !next.newline then functionDeclaration r else failure
  | "class" | "@" => classDeclaration r
  | "abstract" => if next.text == "class" then classDeclaration r else failure
  | "enum" => enumDeclaration r
  | "interface" => interfaceDeclaration r
  | "type" => aliasDeclaration r
  | "namespace" | "module" => namespaceDeclaration r
  | "global" => globalBlock r
  | _ => failure

def ambient (r : Rules) : Reading Tree :=
  other "ambient_declaration" do
    word "declare"
    check !(← peek).newline
    return [← declaration r]

-- Statements.

def condition (r : Rules) : Reading Tree :=
  within .parenthesized do
    sign "("
    let inner ← sequence r
    sign ")"
    return [inner]

def ifStatement (r : Rules) : Reading Tree :=
  other "if_statement" do
    word "if"
    let test ← condition r
    let yes ← r.statement
    let no ← if ← acceptWord "else" then pure [← r.statement] else pure []
    return test :: yes :: no

def whileStatement (r : Rules) : Reading Tree :=
  other "while_statement" do
    check ((← acceptWord "while") || (← acceptWord "with"))
    return [← condition r, ← r.statement]

def doStatement (r : Rules) : Reading Tree :=
  other "do_statement" do
    word "do"
    let body ← r.statement
    word "while"
    let test ← condition r
    let _ ← acceptSign ";"
    return [body, test]

def loopTarget (r : Rules) : Reading Tree := do
  let t ← peek
  let fresh : Reading Tree := do
    check (t.shape == .name && ["let", "const", "var"].contains t.text)
    take t
    r.pattern
  let target ← fresh <|> assignedTarget <|> r.unary
  check ((← atWord "of") || (← atWord "in"))
  return target
where
  assignedTarget : Reading Tree := do
    let t ← peek
    check (t.shape == .sign)
    r.pattern

def loopOver (r : Rules) : Reading Tree :=
  within .forInStatement do
    word "for"
    let _ ← acceptWord "await"
    sign "("
    let target ← loopTarget r
    check ((← acceptWord "of") || (← acceptWord "in"))
    let source ← sequence r
    sign ")"
    return [target.withRole .left, source, ← r.statement]

def loopStart (r : Rules) : Reading (List Tree) := do
  if ← acceptSign ";" then return []
  let start ← here
  let declared : Reading Tree := do
    let (kind, names) ← bindings r
    sign ";"
    close start kind names
  let plain : Reading Tree := do
    let value ← sequence r
    sign ";"
    close start (.other "expression_statement") [value]
  return [(← declared <|> plain).withRole .initializer]

def loopCount (r : Rules) : Reading Tree :=
  within .forStatement do
    word "for"
    sign "("
    let start ← loopStart r
    let test ← listIf (!(← atSign ";")) (sequence r)
    sign ";"
    let step ← listIf (!(← atSign ")")) (sequence r)
    sign ")"
    return start ++ test ++ step ++ [← r.statement]

def switchCase (r : Rules) : Reading Tree :=
  other "switch_case" do
    let value ← if ← acceptWord "default" then pure [] else do
      word "case"
      pure [← sequence r]
    sign ":"
    let body ← many (do
      if (← atSign "\x7d") || (← atWord "case") || (← atWord "default") then return none
      else return some (← r.statement))
    return value ++ body

def switchStatement (r : Rules) : Reading Tree :=
  other "switch_statement" do
    word "switch"
    let value ← condition r
    let body ← within .switchBody do
      sign "\x7b"
      let cases ← many (do if ← atSign "\x7d" then return none else return some (← switchCase r))
      sign "\x7d"
      return cases
    return [value, body.withRole .body]

def catchClause (r : Rules) : Reading Tree :=
  within .catchClause do
    word "catch"
    let caught ← if ← acceptSign "(" then do
        let name ← r.pattern
        let ascribed ← optionalAscription r
        sign ")"
        pure (name.withRole .parameter :: ascribed)
      else pure []
    return caught ++ [(← block r).withRole .body]

def tryStatement (r : Rules) : Reading Tree :=
  other "try_statement" do
    word "try"
    let body ← block r
    let handler ← listIf (← atWord "catch") (catchClause r)
    let last ← if ← acceptWord "finally" then pure [← block r] else pure []
    return body.withRole .body :: handler ++ last

def returnStatement (r : Rules) : Reading Tree :=
  within .returnStatement do
    word "return"
    if ← ahead statementEnd then
      statementEnd
      return []
    else endedValue (sequence r)

def throwStatement (r : Rules) : Reading Tree :=
  other "throw_statement" do
    word "throw"
    endedValue (sequence r)

def jumpStatement : Reading Tree :=
  other "jump_statement" do
    check (← accept fun t => t.shape == .name && ["break", "continue", "debugger"].contains t.text)
    let t ← peek
    let label ← listIf (isName t && !t.newline) (leaf (.other "statement_identifier"))
    statementEnd
    return label

def labelled (r : Rules) : Reading Tree :=
  other "labeled_statement" do
    let t ← peek
    check (isFreeName t)
    take t
    sign ":"
    return [← r.statement]

def emptyStatement : Reading Tree :=
  other "empty_statement" do
    sign ";"
    return []

def expressionStatement (r : Rules) : Reading Tree := other "expression_statement" (endedValue (sequence r))

def plainStatement (r : Rules) : Reading Tree := do
  let t ← peek
  match t.text with
  | "\x7b" => block r
  | ";" => emptyStatement
  | "if" => ifStatement r
  | "while" | "with" => whileStatement r
  | "do" => doStatement r
  | "for" => loopOver r <|> loopCount r
  | "switch" => switchStatement r
  | "try" => tryStatement r
  | "return" => returnStatement r
  | "throw" => throwStatement r
  | "break" | "continue" | "debugger" => jumpStatement
  | _ =>
    if isFreeName t && t.next.token.text == ":" then labelled r else expressionStatement r

end Grammar
end Script
end SchemaAtlas
