import SchemaAtlas.Command.Run

namespace SchemaAtlas
namespace Main

-- The files and variables of the machine.

def kindOf (path : String) : IO (Option IO.FS.FileType) := do
  try
    let place ← IO.FS.realPath path
    return some (← place.metadata).type
  catch _ => return none

def readText (path : String) : IO (Option String) := do
  try
    return some (← IO.FS.readFile path)
  catch _ => return none

-- The files below a folder. Links are not followed, and folders that cannot be
-- read have none.
partial def filesBelow (path : String) : IO (List String) := do
  try
    let place ← IO.FS.realPath path
    let entries ← place.readDir
    let found ← entries.toList.mapM fun entry => do
      let below := Path.child path entry.fileName
      match (← entry.path.symlinkMetadata).type with
      | .dir => filesBelow below
      | .file => return [below]
      | _ => return []
    return found.flatten
  catch _ => return []

def access : FileAccess IO where
  isFile path := return (← kindOf path) == some .file
  isFolder path := return (← kindOf path) == some .dir
  read? := readText
  filesBelow := filesBelow

def environment : IO (Entries String) := do
  let found ← Settings.variableNames.mapM fun name => return (← IO.getEnv name).map fun value => (name, value)
  return found.filterMap id

-- Prints what the program has to say about the arguments, and ends with its exit code.
def run (arguments : List String) : IO UInt32 := do
  let report : Command.Report ← Command.run access (← environment) arguments
  for line in report.messages do
    IO.eprintln line
  IO.print report.output
  return report.exit.toUInt32

end Main
end SchemaAtlas

def main (arguments : List String) : IO UInt32 := SchemaAtlas.Main.run arguments
