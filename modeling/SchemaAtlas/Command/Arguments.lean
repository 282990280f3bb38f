namespace SchemaAtlas
namespace Command

-- The command line. Options may stand before and after the verb, each once on
-- either side; the verb takes one path.

inductive Verb where
  | build | parse | lint | order
deriving DecidableEq, Repr

namespace Verb

def all : List Verb := [.build, .parse, .lint, .order]

def name : Verb → String
  | .build => "build"
  | .parse => "parse"
  | .lint => "lint"
  | .order => "order"

def ofName? (text : String) : Option Verb := all.find? (·.name == text)

def about : Verb → String
  | .build => "Build IR from an OpenAPI document (JSON or YAML)"
  | .parse => "Parse zod sources into IR"
  | .lint => "Run the lint pass only; exits non-zero on findings"
  | .order => "Print topological order and circular schemas"

def operand : Verb → String × String
  | .build => ("<FILE>", "")
  | .parse => ("<PATH>", "A source file or a directory of sources")
  | .lint => ("<PATH>", "")
  | .order => ("<FILE>", "OpenAPI document, or a zod source file")

end Verb

structure Options where
  settingsFile : Option String := none
  compact : Bool := false
deriving DecidableEq, Repr

def Options.mergedOver (inner outer : Options) : Options :=
  { settingsFile := inner.settingsFile.or outer.settingsFile, compact := inner.compact || outer.compact }

structure Invocation where
  options : Options
  verb : Verb
  path : String
deriving DecidableEq, Repr

inductive Request where
  | run (invocation : Invocation)
  | help (topic : Option Verb)
  | misuse
deriving DecidableEq, Repr

inductive Step where
  | option (options : Options) (rest : List String)
  | help
  | misuse
  | operand

def Options.withFile (o : Options) (path : String) (rest : List String) : Step :=
  if path = "" ∨ o.settingsFile.isSome then .misuse else .option { o with settingsFile := some path } rest

def Options.withCompact (o : Options) (rest : List String) : Step :=
  if o.compact then .misuse else .option { o with compact := true } rest

def Options.withNextFile (o : Options) : List String → Step
  | path :: rest => if path.startsWith "-" ∧ path ≠ "-" then .misuse else o.withFile path rest
  | [] => .misuse

-- An option by its letter; what follows the letter `c` is its value.
def shortOption (o : Options) (letters : List Char) (rest : List String) : Step :=
  match letters with
  | ['c'] => o.withNextFile rest
  | 'c' :: '=' :: value => o.withFile (String.ofList value) rest
  | 'c' :: value => o.withFile (String.ofList value) rest
  | 'h' :: _ => .help
  | _ => .misuse

def longOption (o : Options) (name : String) (rest : List String) : Step :=
  if name = "config" then o.withNextFile rest
  else if name.startsWith "config=" then o.withFile (name.drop 7).toString rest
  else if name = "compact" then o.withCompact rest
  else if name = "help" then .help
  else .misuse

def step (o : Options) (argument : String) (rest : List String) : Step :=
  match argument.toList with
  | '-' :: '-' :: name => longOption o (String.ofList name) rest
  | '-' :: letter :: letters => shortOption o (letter :: letters) rest
  | _ => .operand

def withOperand (path : Option String) (argument : String) : Option String :=
  if path.isSome ∨ argument = "" then none else some argument

def lastOperand? : Option String → List String → Option String
  | path, [] => path
  | path, argument :: rest => (withOperand path argument).bind fun path => lastOperand? (some path) rest

-- What follows the verb; `fuel` bounds the arguments.
def readOperands (outer : Options) (verb : Verb) : Nat → Options → Option String → List String → Request
  | 0, _, _, _ => .misuse
  | _ + 1, o, path, [] => finish o path
  | fuel + 1, o, path, argument :: rest =>
    if argument = "--" then finish o (lastOperand? path rest)
    else match step o argument rest with
    | .option o rest => readOperands outer verb fuel o path rest
    | .help => .help (some verb)
    | .misuse => .misuse
    | .operand =>
      match withOperand path argument with
      | some path => readOperands outer verb fuel o (some path) rest
      | none => .misuse
where
  finish (o : Options) : Option String → Request
    | some path => .run { options := o.mergedOver outer, verb := verb, path := path }
    | none => .misuse

def readTopic : List String → Request
  | [] => .help none
  | [name] => if name = "help" then .help none else ((Verb.ofName? name).map fun v => Request.help (some v)).getD .misuse
  | _ => .misuse

-- What stands before the verb; `fuel` bounds the arguments.
def readVerb : Nat → Options → List String → Request
  | 0, _, _ => .misuse
  | _ + 1, _, [] => .misuse
  | fuel + 1, o, argument :: rest =>
    if argument = "--" then .misuse
    else match step o argument rest with
    | .option o rest => readVerb fuel o rest
    | .help => .help none
    | .misuse => .misuse
    | .operand =>
      if argument = "help" then readTopic rest
      else match Verb.ofName? argument with
      | some verb => readOperands o verb (rest.length + 1) {} none rest
      | none => .misuse

def read (arguments : List String) : Request := readVerb (arguments.length + 1) {} arguments

-- Help.

def programName : String := "schema-ir"
def programAbout : String := "Build canonical schema IR from OpenAPI documents and zod sources"

def optionsHelp : String :=
  "Options:\n  -c, --config <CONFIG>  Configuration file\n      --compact          Print compact JSON\n" ++
    "  -h, --help             Print help\n"

def usage (topic : Option Verb) : String :=
  match topic with
  | none => "Usage: " ++ programName ++ " [OPTIONS] <COMMAND>\n"
  | some verb => "Usage: " ++ programName ++ " " ++ verb.name ++ " [OPTIONS] " ++ verb.operand.1 ++ "\n"

def help : Option Verb → String
  | none =>
    programAbout ++ "\n\n" ++ usage none ++ "\nCommands:\n" ++
      String.join (Verb.all.map fun v => "  " ++ v.name ++ (if v.name.length < 5 then "   " else "  ") ++ v.about ++ "\n") ++
      "  help   Print this message or the help of the given subcommand(s)\n\n" ++ optionsHelp
  | some verb =>
    verb.about ++ "\n\n" ++ usage (some verb) ++ "\nArguments:\n  " ++ verb.operand.1 ++ "  " ++ verb.operand.2 ++ "\n\n" ++
      optionsHelp

end Command
end SchemaAtlas
