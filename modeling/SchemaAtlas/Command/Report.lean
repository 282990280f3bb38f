import SchemaAtlas.Builder.Parse
import SchemaAtlas.Document.Json
import SchemaAtlas.Files.Path
import SchemaAtlas.Json.Printer
import SchemaAtlas.Json.Reader
import SchemaAtlas.OpenApi.Build
import SchemaAtlas.Yaml.Reader

namespace SchemaAtlas
namespace Command

-- What a command leaves behind: its exit code, what it prints, and lines for the
-- person who called it.
structure Report where
  exit : Nat
  output : String := ""
  messages : List String := []
deriving DecidableEq, Repr

inductive TextForm where
  | json | yaml
deriving DecidableEq, Repr

namespace TextForm

def name : TextForm → String
  | .json => "JSON"
  | .yaml => "YAML"

def ofPath (path : String) : TextForm :=
  match Path.extension? path with
  | some "yaml" => .yaml
  | some "yml" => .yaml
  | _ => .json

def read? : TextForm → String → Option Json
  | .json => Json.read? 127
  | .yaml => Yaml.read? 128

end TextForm

inductive Fault where
  | settings
  | missing (path : String)
  | unreadable (path : String)
  | invalid (form : TextForm) (path : String)
  | notBuilt (path : String) (failure : Failure)
deriving DecidableEq, Repr

def Fault.message : Fault → String
  | .settings => "failed to load configuration"
  | .missing path => path ++ " does not exist"
  | .unreadable path => "failed to read " ++ path
  | .invalid form path => "invalid " ++ form.name ++ " in " ++ path
  | .notBuilt path failure => "failed to build " ++ path ++ ": " ++ failure.message

def Report.ofFault (fault : Fault) (before : List String) : Report :=
  { exit := 1, messages := before ++ ["Error: " ++ fault.message] }

def printed (format : OutputFormat) (value : Json) : String :=
  (match format with
    | .pretty => value.pretty
    | .compact => value.compact) ++ "\n"

def describedDocument (settings : BuildSettings) (path text : String) : Except Fault Document := do
  let form := TextForm.ofPath path
  let some source := form.read? text | throw (.invalid form path)
  match OpenApi.build settings.maxDepth source with
  | .ok document => pure document
  | .error failure => throw (.notBuilt path failure)

def buildReport (settings : Settings) (path text : String) : Report :=
  match describedDocument settings.build path text with
  | .ok document => { exit := 0, output := printed settings.format document.toJson }
  | .error fault => .ofFault fault []

def lines (path : String) (diagnostics : List Diagnostic) : List String :=
  diagnostics.map fun d => path ++ (if d.location.isSome then ":" else ": ") ++ d.text

def outcomeJson (o : Builder.Outcome) : Json :=
  .object (Json.field "ir" o.document.toJson ++ Json.field "diagnostics" (Json.listOf Diagnostic.toJson o.diagnostics) ++
    Json.field "advisories" (Json.listOf Diagnostic.toJson o.advisories))

structure Batch where
  files : List (String × String)
  fault : Option Fault := none

def parseReport (settings : Settings) (batch : Batch) : Report :=
  let outcomes := batch.files.map fun (path, text) => (path, Builder.parse settings.parse text)
  let messages := outcomes.flatMap fun (path, o) => lines path (o.diagnostics ++ o.advisories)
  match batch.fault with
  | some fault => .ofFault fault messages
  | none =>
    { exit := if outcomes.any fun (_, o) => o.hasErrors then 1 else 0
      output := printed settings.format (.object (outcomes.map fun (path, o) => (path, outcomeJson o)))
      messages := messages }

def lintReport (settings : Settings) (batch : Batch) : Report :=
  let messages := batch.files.flatMap fun (path, text) => lines path (Builder.lint settings.parse text)
  match batch.fault with
  | some fault => .ofFault fault messages
  | none =>
    if messages = [] then { exit := 0, output := "✅ No lint findings\n" }
    else { exit := 1, output := "❌ " ++ toString messages.length ++ " lint finding(s)\n", messages := messages }

def aligned (n : Nat) : String :=
  let digits := toString n
  String.ofList (List.replicate (4 - digits.length) ' ') ++ digits

def orderText (graph : DependencySummary) : String :=
  let rows := graph.topologicalOrder.zipIdx.map fun (name, i) =>
    aligned (i + 1) ++ ". " ++ name ++ (if graph.circularReferences.contains name then " ↻" else "") ++ "\n"
  let circular := if graph.circularReferences = [] then ""
    else "\nCircular: " ++ String.intercalate ", " graph.circularReferences ++ "\n"
  String.join rows ++ circular

def isScript (path : String) : Bool := (Path.extension? path).any ["ts", "tsx", "mts", "cts"].contains

-- Scripts below a folder count unless they belong to an installed package.
def isOwnScript (path : String) : Bool := isScript path && !(Path.names path).contains "node_modules"

def orderReport (settings : Settings) (path text : String) : Report :=
  if isScript path then
    let o := Builder.parse settings.parse text
    { exit := 0, output := orderText o.document.dependencyGraph, messages := lines path o.diagnostics }
  else
    match describedDocument settings.build path text with
    | .ok document => { exit := 0, output := orderText document.dependencyGraph }
    | .error fault => .ofFault fault []

end Command
end SchemaAtlas
