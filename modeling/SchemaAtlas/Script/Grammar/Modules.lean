import SchemaAtlas.Script.Grammar.Statements

namespace SchemaAtlas
namespace Script
namespace Grammar

open Reading

-- Imports and exports.

def exportedName : Reading Tree := string <|> anyName .identifier

-- `name`, or `name as other`, each possibly only as a type.
def specifier (kind : Kind) : Reading Tree :=
  within kind do
    let renamed : Reading (List Tree) := do
      let name ← exportedName
      word "as"
      let given ← exportedName
      check ((← atSign ",") || (← atSign "\x7d"))
      return [name.withRole .name, given.withRole .alias]
    let single : Reading (List Tree) := do
      let name ← exportedName
      check ((← atSign ",") || (← atSign "\x7d"))
      return [name.withRole .name]
    let typed (inner : Reading (List Tree)) : Reading (List Tree) := do
      check ((← acceptWord "type") || (← acceptWord "typeof"))
      inner
    single <|> renamed <|> typed single <|> typed renamed

def namedList (kind item : Kind) : Reading Tree :=
  within kind do
    sign "\x7b"
    listUpTo "\x7d" "," (specifier item)

def namespaceImport : Reading Tree :=
  within .namespaceImport do
    sign "*"
    word "as"
    return [← anyName .identifier]

def importClause : Reading Tree :=
  within .importClause do
    let groups : Reading Tree := namespaceImport <|> namedList .namedImports .importSpecifier
    if (← atSign "*") || (← atSign "\x7b") then return [← groups]
    else
      let name ← anyName .identifier
      if ← acceptSign "," then return [name, ← groups] else return [name]

def fromClause : Reading Tree := do
  word "from"
  return (← string).withRole .source

def importAttributes (r : Rules) : Reading (List Tree) := do
  if (← acceptWord "with") || (← acceptWord "assert") then return [← object r] else return []

def requireClause : Reading Tree :=
  other "import_require_clause" do
    let name ← anyName .identifier
    sign "="
    word "require"
    sign "("
    let source ← string
    sign ")"
    return [name, source.withRole .source]

def importAlias : Reading Tree :=
  other "import_alias" do
    word "import"
    let name ← anyName .identifier
    sign "="
    let target ← dottedName
    statementEnd
    return [name, target]

def importStatement (r : Rules) : Reading Tree :=
  within .importStatement do
    word "import"
    let clause : Reading (List Tree) := do
      let clause ← importClause
      return [clause, ← fromClause]
    let typed (inner : Reading (List Tree)) : Reading (List Tree) := do
      check ((← acceptWord "type") || (← acceptWord "typeof"))
      inner
    let bare : Reading (List Tree) := do return [(← string).withRole .source]
    let required : Reading (List Tree) := do return [← requireClause]
    let parts ← bare <|> clause <|> required <|> typed clause <|> typed required
    let attributes ← importAttributes r
    statementEnd
    return parts ++ attributes

def exportStatement (r : Rules) : Reading Tree :=
  within .exportStatement do
    let decorations ← decorators r
    word "export"
    let ended (inner : Reading (List Tree)) : Reading (List Tree) := do
      let parts ← inner
      statementEnd
      return parts
    let star : Reading (List Tree) := ended do
      let _ ← acceptWord "type"
      sign "*"
      let named ← if ← acceptWord "as" then pure [← exportedName] else pure []
      let source ← fromClause
      return named ++ source :: (← importAttributes r)
    let listed : Reading (List Tree) := ended do
      let _ ← acceptWord "type"
      let names ← namedList (.other "export_clause") (.other "export_specifier")
      let source ← listIf (← atWord "from") fromClause
      return names :: source ++ (← importAttributes r)
    let assigned : Reading (List Tree) := ended do
      sign "="
      return [← r.expression]
    let asNamespace : Reading (List Tree) := ended do
      word "as"
      word "namespace"
      return [← anyName .identifier]
    let standing : Reading (List Tree) := do
      word "default"
      let declared : Reading (List Tree) := do return [(← interfaceDeclaration r <|> functionDeclaration r <|>
        classDeclaration r).withRole .declaration]
      let valued : Reading (List Tree) := do
        match ← endedValue (sequence r) with
        | value :: strays => return value.withRole .value :: strays
        | [] => failure
      declared <|> valued
    let declared : Reading (List Tree) := do
      return [(← importAlias <|> ambient r <|> declaration r).withRole .declaration]
    return decorations ++ (← star <|> listed <|> assigned <|> asNamespace <|> standing <|> declared)

def statement (r : Rules) : Reading Tree := do
  let t ← peek
  match t.text with
  | "import" => importAlias <|> importStatement r <|> plainStatement r
  | "export" => exportStatement r
  | "@" => exportStatement r <|> declaration r
  | "declare" => ambient r <|> plainStatement r
  | "type" | "namespace" | "module" | "global" | "abstract" | "async" | "let" | "interface" | "enum" =>
    declaration r <|> plainStatement r
  | "const" | "var" | "function" | "class" => declaration r
  | _ => plainStatement r

def rules : Nat → Rules
  | 0 => { expression := failure, unary := failure, primary := failure, pattern := failure, type := failure,
           statement := failure }
  | levels + 1 => {
    expression := fun c => expression (rules levels) c
    unary := fun c => unary (rules levels) (classExpression (rules levels)) c
    primary := fun c => primary (rules levels) (classExpression (rules levels)) c
    pattern := fun c => pattern (rules levels) c
    type := fun c => type (rules levels) c
    statement := fun c => statement (rules levels) c }

-- Statements up to the end of the script. A token that starts none is out of
-- place.
def statements (r : Rules) : Reading (List Tree) :=
  many (do
    let t ← peek
    if t.shape == .stop then return none
    else return some (← r.statement <|> stray))

-- A first line that names an interpreter is skipped.
def skipInterpreter (c : Cursor) : Cursor :=
  match c.rest with
  | '#' :: '!' :: _ => c.skipWhile fun x => !isLineEnd x
  | _ => c

end Grammar

-- The tree of a script. Every level of rules below the statements takes at least
-- one character, or leads to one that does.
def parse (text : String) : Tree :=
  let start := Grammar.skipInterpreter (Cursor.ofText text)
  let whole := (Grammar.statements (Grammar.rules (6 * text.length + 16))).run start
  match whole with
  | some (children, stop) => start.tree .program children stop
  | none => start.tree .program [] start

end Script
end SchemaAtlas
