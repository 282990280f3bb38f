import SchemaAtlas.Files.Access
import SchemaAtlas.Json.Reader
import SchemaAtlas.Settings.Layers
import SchemaAtlas.Toml.Reader
import SchemaAtlas.Yaml.Reader

namespace SchemaAtlas

inductive SettingsForm where
  | toml | json | yaml
deriving DecidableEq, Repr

namespace SettingsForm

def extensions : List (String × SettingsForm) := [("toml", .toml), ("json", .json), ("yaml", .yaml), ("yml", .yaml)]

def ofPath? (path : String) : Option SettingsForm := (Path.extension? path).bind fun name => extensions.lookup name

def jsonTable? : Json → Option (Entries Setting)
  | .object entries => some (Setting.ofEntries entries)
  | _ => none

def levels : Nat := 127

def read? : SettingsForm → String → Option (Entries Setting)
  | .toml, text => Toml.read? text
  | .json, text => (Json.read? levels text).bind jsonTable?
  | .yaml, text => (Yaml.read? levels text).bind jsonTable?

end SettingsForm

namespace Settings

def fileName : String := "schema-ir.toml"
def folderName : String := "schema-ir"

def standardFiles : List String := [fileName, "." ++ fileName, "config/" ++ fileName]

-- The user's own file: in the folder that a variable names, else below the home
-- folder.
def userFile? (environment : Entries String) : Option String :=
  let folder? := match (environment.get? "XDG_CONFIG_HOME").filter Path.isAbsolute with
    | some folder => some folder
    | none => ((environment.get? "HOME").filter (· ≠ "")).map (Path.child · ".config")
  folder?.map fun folder => Path.child (Path.child folder folderName) fileName

def variableNames : List String :=
  let sections := [("build", BuildSettings.keys), ("parse", ParseSettings.keys), ("output", outputKeys)]
  ["HOME", "XDG_CONFIG_HOME"] ++ sections.flatMap fun (name, keys) =>
    (name :: keys.map fun key => name ++ Setting.variableSeparator ++ key).map fun tail =>
      (Setting.variableMark ++ tail).toUpper

def locate [Monad m] (files : FileAccess m) (name : String) : m (Option (String × SettingsForm)) := do
  if ← files.isFile name then
    return (SettingsForm.ofPath? name).map (name, ·)
  let found ← SettingsForm.extensions.filterM fun (extension, _) => files.isFile (name ++ "." ++ extension)
  return found.head?.map fun (extension, form) => (name ++ "." ++ extension, form)

def withoutMark (text : String) : String :=
  if text.toList.head? = some (Char.ofNat 0xFEFF) then (text.drop 1).toString else text

-- The settings of one file, `none` where they cannot be read. A file that may be
-- missing has none then.
def readFile [Monad m] (files : FileAccess m) (needed : Bool) (name : String) : m (Option (Entries Setting)) := do
  let missing := if needed then none else some []
  match ← locate files name with
  | none => return missing
  | some (path, form) =>
    match ← files.read? path with
    | none => return missing
    | some text => return form.read? (withoutMark text)

-- All settings: those of the standard files, the user's file, the named file, which
-- has to be there, and the variables, each over the ones before.
def load [Monad m] (files : FileAccess m) (environment : Entries String) (named : Option String) :
    m (Option Settings) := do
  let optionalFiles := standardFiles ++ (userFile? environment).toList
  let standing ← optionalFiles.mapM (readFile files false)
  let chosen ← named.toList.mapM (readFile files true)
  return do
    let layers ← (standing ++ chosen).mapM id
    let root := (layers ++ [Setting.ofVariables environment]).foldl Setting.putAll []
    Settings.ofTable? root

end Settings
end SchemaAtlas
