namespace SchemaAtlas

-- How deep schemas and literals may nest unless something else is asked for.
def defaultMaxDepth : Nat := 128

structure BuildSettings where
  maxDepth : Nat := defaultMaxDepth
deriving DecidableEq, Repr

structure ParseSettings where
  builderModules : List String := ["zod", "zod/v4"]
  ambientIdentifier : String := "z"
  allowAmbientBuilder : Bool := true
  -- Exported declarations without a description are pointed out.
  requireDescriptions : Bool := false
  maxDepth : Nat := defaultMaxDepth
deriving DecidableEq, Repr

inductive OutputFormat where
  | pretty | compact
deriving DecidableEq, Repr

namespace OutputFormat

def all : List OutputFormat := [.pretty, .compact]

def name : OutputFormat → String
  | .pretty => "pretty"
  | .compact => "compact"

def ofName? (text : String) : Option OutputFormat := all.find? (·.name == text)

end OutputFormat

structure Settings where
  build : BuildSettings := {}
  parse : ParseSettings := {}
  format : OutputFormat := .pretty
deriving DecidableEq, Repr

end SchemaAtlas
