import SchemaAtlas.Builder.Chain
import SchemaAtlas.Builder.Diagnostic

namespace SchemaAtlas
namespace Builder

open Script

structure Declaration where
  name : String
  value : Site
  exported : Bool
deriving Repr

namespace Declaration

def ofStatement? (statement : Site) : Option (Site × Bool) :=
  match statement.kind with
  | .exportStatement => (statement.child? .declaration).map (·, true)
  | _ => some (statement, false)

def declarators (declaration : Site) : List Site :=
  match declaration.kind with
  | .lexicalDeclaration | .variableDeclaration => declaration.parts.filter (·.kind == .declarator)
  | _ => []

def ofDeclarator? (exported : Bool) (declarator : Site) : Option Declaration := do
  let name ← declarator.child? .name
  let value ← declarator.child? .value
  if name.kind == .identifier then some { name := name.text, value := value, exported := exported } else none

def initialized (root : Tree) : List Declaration :=
  (Site.root root).parts.flatMap fun statement =>
    match ofStatement? statement with
    | some (declaration, exported) => (declarators declaration).filterMap (ofDeclarator? exported)
    | none => []

def start? (b : Bindings) (d : Declaration) : Option (Option String) := (b.chain? d.value).map Chain.rootName?

def accept (candidates : List (String × Option (Option String))) (accepted : List String) : List String :=
  accepted ++ (candidates.filter fun (name, start) =>
    !accepted.contains name && match start with
      | some (some root) => accepted.contains root
      | _ => false).map Prod.fst

-- The names that lead to a builder through other names. Each round settles one
-- more step, so as many rounds as candidates are enough.
def acceptedNames (candidates : List (String × Option (Option String))) : List String :=
  let built := (candidates.filter fun (_, start) => start == some none).map Prod.fst
  Nat.repeat (accept candidates) candidates.length built

def find (b : Bindings) (root : Tree) : List Declaration :=
  let all := initialized root
  let accepted := acceptedNames (all.map fun d => (d.name, d.start? b))
  all.filter fun d => accepted.contains d.name

def duplicate (d : Declaration) : Diagnostic :=
  ((Diagnostic.of .duplicateDeclaration ("`" ++ d.name ++ "` is already declared; this declaration is ignored")).at_
    d.value.location).inDeclaration d.name

def unique : List String → List Declaration → List Declaration × List Diagnostic
  | _, [] => ([], [])
  | seen, d :: rest =>
    let (kept, reported) := unique (d.name :: seen) rest
    if seen.contains d.name then (kept, d.duplicate :: reported) else (d :: kept, reported)

end Declaration
end Builder
end SchemaAtlas
