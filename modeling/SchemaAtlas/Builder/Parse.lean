import SchemaAtlas.Builder.ClosestName
import SchemaAtlas.Builder.Lint
import SchemaAtlas.Builder.Lowering.Expression
import SchemaAtlas.Graph.Analysis
import SchemaAtlas.Script.Grammar.Modules

namespace SchemaAtlas
namespace Builder

open Script

-- A script as a document. A declaration gives a schema or a diagnostic; one that
-- fails does not keep the others back.

def sourceFormat : String := "builder-syntax"

structure Outcome where
  document : Document
  diagnostics : List Diagnostic
  advisories : List Diagnostic
deriving Repr

def Outcome.hasErrors (o : Outcome) : Bool := o.diagnostics.any Diagnostic.isError

structure Survey where
  root : Tree
  bindings : Bindings
  declarations : List Declaration
  duplicates : List Diagnostic
  found : List Diagnostic

def Survey.ofTree (settings : ParseSettings) (root : Tree) : Survey :=
  let bindings := Bindings.collect settings root
  let (declarations, duplicates) := Declaration.unique [] (Declaration.find bindings root)
  { root := root, bindings := bindings, declarations := declarations, duplicates := duplicates
    found := findings bindings root declarations }

def survey (settings : ParseSettings) (source : String) : Survey := .ofTree settings (Script.parse source)

-- Only what the lint has to say.
def lint (settings : ParseSettings) (source : String) : List Diagnostic :=
  let r := survey settings source
  r.duplicates ++ r.found

def brokenRefusal? (value : Tree) : Option Refusal :=
  value.broken?.map fun broken =>
    let message := match broken.kind with
      | .missing label => "missing `" ++ label ++ "`"
      | _ => "unexpected syntax"
    .at_ message broken.location

-- What becomes of one declaration: a schema, a refusal, or nothing where the lint
-- has rejected it.
inductive Fate where
  | emitted (declaration : Declaration) (schema : SchemaNode)
  | refused (diagnostic : Diagnostic)
  | rejected
deriving Repr

def Fate.schema? : Fate → Option (Declaration × SchemaNode)
  | .emitted declaration schema => some (declaration, schema)
  | _ => none

def Fate.diagnostic? : Fate → Option Diagnostic
  | .refused diagnostic => some diagnostic
  | _ => none

def Survey.rejects (r : Survey) (name : String) : Bool :=
  r.found.any fun d => d.isError && d.declaration == some name

def Survey.fate (settings : ParseSettings) (r : Survey) (d : Declaration) : Fate :=
  match brokenRefusal? d.value.tree with
  | some refusal => .refused (refusal.toDiagnostic d.name)
  | none =>
    if r.rejects d.name then .rejected
    else
      match lowerExpression { bindings := r.bindings, root := r.root, maxDepth := settings.maxDepth } d.value with
      | .ok schema => .emitted d (schema.finalizeTree 0)
      | .error refusal => .refused (refusal.toDiagnostic d.name)

def missingDescription (d : Declaration) : Diagnostic :=
  (((Diagnostic.of .missingDescription ("exported schema `" ++ d.name ++ "` has no description")).at_
    d.value.location).inDeclaration d.name).withReplacement ".describe(\"...\")"

def danglingReference (d : Declaration) (emitted declared : List String) (target : String) : Diagnostic :=
  let message := if declared.contains target then "was rejected and contributes no schema"
    else "is not a schema declared in this file"
  let advice := (Diagnostic.of .unresolvedReference ("`" ++ target ++ "` " ++ message)).inDeclaration d.name
  let site := d.value.tree.find? fun t => t.kind == .identifier && t.text == target
  let hint := if declared.contains target then none else closestName? target emitted
  { advice with location := site.map Tree.location, replacement := hint }

def advise (settings : ParseSettings) (emitted declared : List String) (d : Declaration) (schema : SchemaNode) :
    List Diagnostic :=
  let targets := schema.metadata.dependencies.references.filterMap schemaNameOf?
  (if settings.requireDescriptions && d.exported && schema.keywords.description.isNone then [missingDescription d] else [])
    ++ (targets.filter fun target => !emitted.contains target).map (danglingReference d emitted declared)

def Survey.outcome (settings : ParseSettings) (r : Survey) : Outcome :=
  let fates := r.declarations.map (r.fate settings)
  let schemas := fates.filterMap Fate.schema?
  let emitted := schemas.map fun (d, _) => d.name
  let declared := r.declarations.map (·.name)
  let document : Document := {
    sourceFormatVersion := sourceFormat
    components := schemas.map fun (d, schema) => .schema d.name schema }
  { document := document.analyze
    diagnostics := r.duplicates ++ r.found ++ fates.filterMap Fate.diagnostic?
    advisories := schemas.flatMap fun (d, schema) => advise settings emitted declared d schema }

def parse (settings : ParseSettings) (source : String) : Outcome := (survey settings source).outcome settings

end Builder
end SchemaAtlas
