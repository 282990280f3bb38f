import SchemaAtlas.Json.Basic
import SchemaAtlas.Number.Extended
import SchemaAtlas.Settings.Basic
import SchemaAtlas.Text.Lowercase

namespace SchemaAtlas

inductive Setting where
  | nothing
  | flag (value : Bool)
  | whole (value : Int)
  | real (value : ExtendedDouble)
  | text (value : String)
  | list (items : List Setting)
  | table (entries : List (String × Setting))
deriving Repr, Inhabited

namespace Setting

-- A value is taken for the type that is wanted wherever it can stand for one: a
-- switch counts one or none, a number is its own text, a text may spell either.

def lowerText (text : String) : String := String.ofList (Text.lower text)

def switch? (word : String) : Option Bool :=
  if ["true", "on", "yes"].contains word then some true
  else if ["false", "off", "no"].contains word then some false
  else none

def countText? (text : String) : Option Nat :=
  let digits := match text.toList with
    | '+' :: rest => rest
    | cs => cs
  (Numeral.natural? 10 digits).filter (· < Nat.pow 2 64)

def asCount? : Setting → Option Nat
  | .flag b => some b.toNat
  | .whole n => if 0 ≤ n then some n.toNat else none
  | .real x => some x.toCount
  | .text s => ((switch? (lowerText s)).map Bool.toNat).or (countText? s)
  | _ => none

def asFlag? : Setting → Option Bool
  | .flag b => some b
  | .whole n => some (n != 0)
  | .real x => some !x.isZero
  | .text s =>
    let word := lowerText s
    if word = "1" then some true else if word = "0" then some false else switch? word
  | _ => none

def asText? : Setting → Option String
  | .text s => some s
  | .flag b => some (if b then "true" else "false")
  | .whole n => some (toString n)
  | .real x => some x.text
  | _ => none

def asTexts? : Setting → Option (List String)
  | .list items => items.mapM asText?
  | _ => none

-- A format by its name in any case; a table with one key is named by the key.
def asFormat? : Setting → Option OutputFormat
  | .text s => OutputFormat.ofName? (lowerText s)
  | .table [(key, _)] => OutputFormat.ofName? (lowerText key)
  | _ => none

mutual

def ofJson : Json → Setting
  | .null => .nothing
  | .bool b => .flag b
  | .number (.whole n) => if n < Nat.pow 2 63 then .whole n else .real (.finite (Double.ofInt n))
  | .number (.double x) => .real (.finite x)
  | .string s => .text s
  | .array items => .list (ofItems items)
  | .object entries => .table (ofEntries entries)

def ofItems : List Json → List Setting
  | [] => []
  | item :: rest => ofJson item :: ofItems rest

def ofEntries : List (String × Json) → List (String × Setting)
  | [] => []
  | (key, value) :: rest => (key, ofJson value) :: ofEntries rest

end

-- The values of a section by key. A list gives them by position, in the order
-- of `keys`.
def section? (keys : List String) : Setting → Option (String → Option Setting)
  | .table entries => some (Entries.get? entries)
  | .list items => some fun key => (keys.zip items).lookup key
  | _ => none

end Setting

-- The value under a key, or what stands in its place; a value of another kind is
-- refused.
def readSetting (values : String → Option Setting) (key : String) (read? : Setting → Option α) (standing : α) :
    Option α :=
  match values key with
  | some value => read? value
  | none => some standing

def readSection (root : Entries Setting) (name : String) (keys : List String) : Option (String → Option Setting) :=
  match root.get? name with
  | some value => value.section? keys
  | none => some fun _ => none

namespace BuildSettings

def keys : List String := ["max_depth"]

def ofSettings? (values : String → Option Setting) : Option BuildSettings := do
  return { maxDepth := ← readSetting values "max_depth" Setting.asCount? defaultMaxDepth }

end BuildSettings

namespace ParseSettings

def keys : List String :=
  ["builder_modules", "ambient_identifier", "allow_ambient_builder", "require_descriptions", "max_depth"]

def ofSettings? (values : String → Option Setting) : Option ParseSettings := do
  let standing : ParseSettings := {}
  return {
    builderModules := ← readSetting values "builder_modules" Setting.asTexts? standing.builderModules
    ambientIdentifier := ← readSetting values "ambient_identifier" Setting.asText? standing.ambientIdentifier
    allowAmbientBuilder := ← readSetting values "allow_ambient_builder" Setting.asFlag? standing.allowAmbientBuilder
    requireDescriptions := ← readSetting values "require_descriptions" Setting.asFlag? standing.requireDescriptions
    maxDepth := ← readSetting values "max_depth" Setting.asCount? standing.maxDepth }

end ParseSettings

namespace Settings

def outputKeys : List String := ["format"]

-- The settings that a table holds. Keys that mean nothing are passed over.
def ofTable? (root : Entries Setting) : Option Settings := do
  let build ← readSection root "build" BuildSettings.keys
  let parse ← readSection root "parse" ParseSettings.keys
  let output ← readSection root "output" outputKeys
  return {
    build := ← BuildSettings.ofSettings? build
    parse := ← ParseSettings.ofSettings? parse
    format := ← readSetting output "format" Setting.asFormat? .pretty }

end Settings
end SchemaAtlas
