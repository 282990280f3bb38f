import SchemaAtlas.Entries
import SchemaAtlas.Script.Literal
import SchemaAtlas.Script.Scope

namespace SchemaAtlas
namespace Builder

open Script

-- What a name bound by an import stands for: the builder itself, or one of its
-- factories.
inductive Binding where
  | namespace
  | factory (name : String)
deriving DecidableEq, Repr

-- The builder names of one script. `foreign` are the names imported from other
-- modules, `ambient` the name taken for the builder without an import.
structure Bindings where
  imported : Entries Binding := []
  foreign : List String := []
  ambient : Option String := none
deriving Repr

namespace Bindings

def bind (fromBuilder : Bool) (b : Bindings) (local_ : String) (binding : Binding) : Bindings :=
  if fromBuilder then { b with imported := b.imported.insert local_ binding }
  else { b with foreign := local_ :: b.foreign }

-- `z` and the default export are the builder; any other export is a factory.
def ofExport (name : String) : Binding := if name = "z" ∨ name = "default" then .namespace else .factory name

def addSpecifier (fromBuilder : Bool) (b : Bindings) (specifier : Tree) : Bindings :=
  if specifier.kind != .importSpecifier then b
  else
    match specifier.child? .name with
    | none => b
    | some name => b.bind fromBuilder ((specifier.child? .alias).getD name).text (ofExport name.text)

def addPart (fromBuilder : Bool) (b : Bindings) (part : Tree) : Bindings :=
  match part.kind with
  | .identifier => b.bind fromBuilder part.text .namespace
  | .namespaceImport =>
    match part.parts.find? (·.kind == .identifier) with
    | some name => b.bind fromBuilder name.text .namespace
    | none => b
  | .namedImports => part.parts.foldl (addSpecifier fromBuilder) b
  | _ => b

def addImport (settings : ParseSettings) (b : Bindings) (statement : Tree) : Bindings :=
  match statement.child? .source with
  | none => b
  | some source =>
    let clauses := statement.parts.filter (·.kind == .importClause)
    (clauses.flatMap Tree.parts).foldl (addPart (settings.builderModules.contains source.stringValue)) b

def importsBuilder (settings : ParseSettings) (statement : Tree) : Bool :=
  (statement.child? .source).any fun source => settings.builderModules.contains source.stringValue

-- The bindings of a whole script. The ambient name counts only where no builder
-- module is imported.
def collect (settings : ParseSettings) (root : Tree) : Bindings :=
  let imports := root.parts.filter (·.kind == .importStatement)
  let bindings := imports.foldl (addImport settings) {}
  if settings.allowAmbientBuilder && !imports.any (importsBuilder settings) then
    { bindings with ambient := some settings.ambientIdentifier }
  else bindings

def isEmpty (b : Bindings) : Bool := b.imported.isEmpty && b.ambient.isNone

-- What a name is bound to at the top of the script.
def top? (b : Bindings) (name : String) : Option Binding :=
  match b.imported.get? name with
  | some binding => some binding
  | none => if b.ambient = some name ∧ !b.foreign.contains name then some .namespace else none

-- What an identifier is bound to where it stands.
def resolve (b : Bindings) (s : Site) : Option Binding :=
  if s.isShadowed s.text then none else b.top? s.text

end Bindings
end Builder
end SchemaAtlas
