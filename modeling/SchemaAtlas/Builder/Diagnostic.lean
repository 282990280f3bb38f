import SchemaAtlas.Script.Location

namespace SchemaAtlas

open Json (field fieldOf fields? readName)

inductive Severity where
  | error | advisory
deriving DecidableEq, Repr

namespace Severity

def all : List Severity := [.error, .advisory]

def name : Severity → String
  | .error => "error"
  | .advisory => "advisory"

def ofName? (text : String) : Option Severity := all.find? (·.name == text)

end Severity

inductive DiagnosticCode where
  | legacySyntax | nonAnalyzableSchema | parseFailure | missingDescription | unresolvedReference | duplicateDeclaration
deriving DecidableEq, Repr

namespace DiagnosticCode

def all : List DiagnosticCode :=
  [.legacySyntax, .nonAnalyzableSchema, .parseFailure, .missingDescription, .unresolvedReference, .duplicateDeclaration]

def name : DiagnosticCode → String
  | .legacySyntax => "legacy-syntax"
  | .nonAnalyzableSchema => "non-analyzable-schema"
  | .parseFailure => "parse-failure"
  | .missingDescription => "missing-description"
  | .unresolvedReference => "unresolved-reference"
  | .duplicateDeclaration => "duplicate-declaration"

def ofName? (text : String) : Option DiagnosticCode := all.find? (·.name == text)

def severity : DiagnosticCode → Severity
  | .missingDescription | .unresolvedReference => .advisory
  | _ => .error

end DiagnosticCode

structure Diagnostic where
  code : DiagnosticCode
  severity : Severity
  message : String
  location : Option Location := none
  declaration : Option String := none
  replacement : Option String := none
deriving DecidableEq, Repr

namespace Diagnostic

def of (code : DiagnosticCode) (message : String) : Diagnostic :=
  { code := code, severity := code.severity, message := message }

def at_ (d : Diagnostic) (location : Location) : Diagnostic := { d with location := some location }
def inDeclaration (d : Diagnostic) (name : String) : Diagnostic := { d with declaration := some name }
def withReplacement (d : Diagnostic) (text : String) : Diagnostic := { d with replacement := some text }

def isError (d : Diagnostic) : Bool := d.severity == .error

def text (d : Diagnostic) : String :=
  (match d.location with | some l => l.text ++ ": " | none => "") ++
  "[" ++ d.code.name ++ "] " ++ d.message ++
  (match d.declaration with | some name => " (in " ++ name ++ ")" | none => "") ++
  (match d.replacement with | some text => "; use " ++ text | none => "")

def toJson (d : Diagnostic) : Json :=
  .object (field "code" (.string d.code.name) ++ field "severity" (.string d.severity.name) ++
    field "message" (.string d.message) ++ fieldOf "location" Location.toJson d.location ++
    fieldOf "declaration" .string d.declaration ++ fieldOf "replacement" .string d.replacement)

def ofJson? (value : Json) : Option Diagnostic := do
  let f ← fields? ["code", "severity", "message", "location", "declaration", "replacement"] value
  return { code := ← f.required? "code" (readName DiagnosticCode.ofName?)
           severity := ← f.required? "severity" (readName Severity.ofName?)
           message := ← f.required? "message" Json.asString?
           location := ← f.optional? "location" Location.ofJson?
           declaration := ← f.optional? "declaration" Json.asString?
           replacement := ← f.optional? "replacement" Json.asString? }

end Diagnostic
end SchemaAtlas
