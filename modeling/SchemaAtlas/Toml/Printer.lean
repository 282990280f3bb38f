import SchemaAtlas.Toml.Scalar

namespace SchemaAtlas
namespace Toml

-- How settings are written.

def escaped (c : Char) : List Char :=
  if c.toNat = 8 then ['\\', 'b']
  else if c = '\t' then ['\\', 't']
  else if c.toNat = 12 then ['\\', 'f']
  else if c = '\r' then ['\\', 'r']
  else if c = '"' then ['\\', '"']
  else if c = '\\' then ['\\', '\\']
  else if c.toNat < 32 ∨ c.toNat = 127 then
    ['\\', 'u', '0', '0', (Nat.digitChar (c.toNat / 16)).toUpper, (Nat.digitChar (c.toNat % 16)).toUpper]
  else [c]

def longestRun (run longest : Nat) : List Char → Nat
  | [] => max run longest
  | '\'' :: rest => longestRun (run + 1) longest rest
  | _ :: rest => longestRun 0 (max run longest) rest

-- A text that would need escapes is written as it is where single quotes can hold
-- it: none three in a row, none at its end, and no control characters.
def isBare (cs : List Char) : Bool :=
  cs.any (fun c => c = '"' || c = '\\') && longestRun 0 0 cs < 3 && cs.getLast? ≠ some '\'' &&
    cs.all fun c => c = '\n' || isLineChar c

-- A text in quotes; one with line breaks stands between three quotes and starts on
-- a line of its own.
def quoted (text : String) : String :=
  let cs := text.toList
  let long := cs.contains '\n'
  if isBare cs then
    let quotes := if long || cs.contains '\'' then "'''" else "'"
    quotes ++ (if long then "\n" else "") ++ text ++ quotes
  else if long then
    "\"\"\"\n" ++ String.ofList (cs.flatMap fun c => if c = '\n' then [c] else escaped c) ++ "\"\"\""
  else "\"" ++ String.ofList (cs.flatMap escaped) ++ "\""

def quotedList : List String → String
  | [] => "[]"
  | [text] => "[" ++ quoted text ++ "]"
  | texts => "[\n" ++ String.join (texts.map fun text => "    " ++ quoted text ++ ",\n") ++ "]"

def flagText (b : Bool) : String := if b then "true" else "false"

def section_ (name : String) (pairs : List (String × String)) : String :=
  "[" ++ name ++ "]\n" ++ String.join (pairs.map fun (key, value) => key ++ " = " ++ value ++ "\n")

end Toml

namespace Settings

def text (s : Settings) : String :=
  String.intercalate "\n" [
    Toml.section_ "build" [("max_depth", toString s.build.maxDepth)],
    Toml.section_ "parse" [
      ("builder_modules", Toml.quotedList s.parse.builderModules),
      ("ambient_identifier", Toml.quoted s.parse.ambientIdentifier),
      ("allow_ambient_builder", Toml.flagText s.parse.allowAmbientBuilder),
      ("require_descriptions", Toml.flagText s.parse.requireDescriptions),
      ("max_depth", toString s.parse.maxDepth)],
    Toml.section_ "output" [("format", Toml.quoted s.format.name)]]

end Settings
end SchemaAtlas
