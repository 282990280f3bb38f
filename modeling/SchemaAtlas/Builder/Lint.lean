import SchemaAtlas.Builder.Constraint
import SchemaAtlas.Builder.Declaration

namespace SchemaAtlas
namespace Builder

open Script

-- Findings on every builder chain of a script, before any of them is lowered:
-- methods that have a newer form, and shapes that only running them would tell.

inductive ShapeKind where
  | text | object | list | other
deriving DecidableEq, Repr

namespace ShapeKind

def ofFactory (name : String) : ShapeKind :=
  if name = "string" ∨ (formatFor? name).isSome then .text
  else if ["object", "strictObject", "looseObject"].contains name then .object
  else if ["array", "tuple", "set"].contains name then .list
  else .other

def after (kind : ShapeKind) (method : String) : ShapeKind :=
  if method = "array" then .list
  else if ["or", "and", "keyof", "transform", "pipe"].contains method then .other
  else kind

def legacyMethods : ShapeKind → List String
  | .text => ["nonempty"]
  | .object => ["deepPartial", "merge", "nonstrict", "setKey"]
  | _ => []

end ShapeKind

def legacyMessage (kind : ShapeKind) (method : String) : String :=
  "`" ++ method ++ "` " ++ (if kind = .text then "on strings " else "") ++ "is legacy syntax"

def replacement (call : Call) : String :=
  match call.name with
  | "nonempty" => ".min(1)"
  | "deepPartial" => ".partial() on each nested object"
  | "merge" =>
    let other := (call.argument? 0).map (·.site.unwrap)
    let name := (other.filter (·.kind == .identifier)).map Site.text
    ".extend(" ++ name.getD "Other" ++ ".shape)"
  | "nonstrict" => ".passthrough()"
  | "setKey" =>
    let key := ((call.argument? 0).bind Argument.text?).getD "key"
    ".extend(\x7b " ++ key ++ ": schema \x7d)"
  | other => "." ++ other ++ "()"

def shapeCalls : List String := ["object", "strictObject", "looseObject", "extend", "safeExtend"]

def unreadable (what : String) (site : Site) : Diagnostic :=
  (Diagnostic.of .nonAnalyzableSchema (what ++ " `" ++ site.text ++ "` cannot be analyzed statically")).at_ site.location

-- A key in brackets or a spread is known only when the script runs.
def memberFindings (member : Site) : List Diagnostic :=
  let computed (role : Role) : List Diagnostic :=
    match member.child? role with
    | some key => if key.kind == .computedName then [unreadable "computed property key" key] else []
    | none => []
  match member.kind with
  | .pair => computed .key
  | .method => computed .name
  | .spread => [unreadable "spread-merged property set" member]
  | _ => []

def shapeFindings (call : Call) : List Diagnostic :=
  match call.argument? 0 with
  | some a =>
    let literal := a.site.unwrap
    if shapeCalls.contains call.name && literal.kind == .object then literal.parts.flatMap memberFindings else []
  | none => []

def legacyFindings (kind : ShapeKind) (call : Call) : List Diagnostic :=
  if kind.legacyMethods.contains call.name then
    [((Diagnostic.of .legacySyntax (legacyMessage kind call.name)).at_ call.location).withReplacement (replacement call)]
  else []

def callFindings : ShapeKind → List Call → List Diagnostic
  | _, [] => []
  | kind, call :: rest => legacyFindings kind call ++ shapeFindings call ++ callFindings (kind.after call.name) rest

def chainFindings (chain : Chain) (start : ShapeKind) : List Diagnostic :=
  (match chain.base? with
    | some base => shapeFindings base
    | none => []) ++ callFindings start chain.calls

abbrev Kinds := Entries ShapeKind

def startKind? (kinds : Kinds) (chain : Chain) : Option ShapeKind :=
  match chain.root with
  | .builder base _ => some (.ofFactory base.name)
  | .identifier site => kinds.get? site.text

def declarationKind (b : Bindings) (kinds : Kinds) (d : Declaration) : ShapeKind :=
  match b.chain? d.value with
  | some chain => chain.calls.foldl (fun kind call => kind.after call.name) ((startKind? kinds chain).getD .other)
  | none => .other

def kindRound (b : Bindings) (declarations : List Declaration) (kinds : Kinds) : Kinds :=
  declarations.foldl (fun kinds d => kinds.insert d.name (declarationKind b kinds d)) kinds

-- The kind of every declaration. The second round settles names that stand before
-- the one they start from.
def declarationKinds (b : Bindings) (declarations : List Declaration) : Kinds :=
  kindRound b declarations (kindRound b declarations [])

def isOutermost (s : Site) : Bool :=
  match s.above with
  | member :: call :: _ =>
    !(member.kind == .member && s.tree.role == .object && member.role == .function && call.kind == .call)
  | _ => true

def enclosing? (declarations : List Declaration) (s : Site) : Option Declaration :=
  declarations.find? fun d => d.value.tree.offset ≤ s.tree.offset && s.tree.finish ≤ d.value.tree.finish

def siteFindings (b : Bindings) (kinds : Kinds) (declarations : List Declaration) (s : Site) : List Diagnostic :=
  if s.kind == .call && isOutermost s then
    match b.chain? s with
    | none => []
    | some chain =>
      match startKind? kinds chain with
      | none => []
      | some start =>
        let found := chainFindings chain start
        match enclosing? declarations s with
        | some d => found.map (·.inDeclaration d.name)
        | none => found
  else []

def comesBefore (a b : Diagnostic) : Bool :=
  match a.location, b.location with
  | none, _ => true
  | some _, none => false
  | some l, some m => l.line < m.line || (l.line == m.line && l.column ≤ m.column)

def findings (b : Bindings) (root : Tree) (declarations : List Declaration) : List Diagnostic :=
  let kinds := declarationKinds b declarations
  ((Site.root root).preorder.flatMap (siteFindings b kinds declarations)).mergeSort comesBefore

end Builder
end SchemaAtlas
