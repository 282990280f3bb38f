import SchemaAtlas.Command.Arguments
import SchemaAtlas.Command.Report
import SchemaAtlas.Settings.Load

namespace SchemaAtlas
namespace Command

-- Commands ask for files and hand their texts on; what comes of the texts is in
-- the reports.

-- One file is taken as it is; of a folder, the scripts in order.
def scripts [Monad m] (files : FileAccess m) (path : String) : m (Except Fault (List String)) := do
  if ← files.isFile path then return .ok [path]
  if ← files.isFolder path then
    let below ← files.filesBelow path
    return .ok ((below.filter isOwnScript).mergeSort Path.before)
  return .error (.missing path)

def readAll [Monad m] (files : FileAccess m) : List String → m Batch
  | [] => return { files := [] }
  | path :: rest => do
    match ← files.read? path with
    | none => return { files := [], fault := some (.unreadable path) }
    | some text =>
      let batch ← readAll files rest
      return { batch with files := (path, text) :: batch.files }

def withText [Monad m] (files : FileAccess m) (path : String) (report : String → Report) : m Report := do
  match ← files.read? path with
  | some text => return report text
  | none => return .ofFault (.unreadable path) []

def withScripts [Monad m] (files : FileAccess m) (path : String) (report : Batch → Report) : m Report := do
  match ← scripts files path with
  | .ok paths => return report (← readAll files paths)
  | .error fault => return .ofFault fault []

def perform [Monad m] (files : FileAccess m) (settings : Settings) (verb : Verb) (path : String) : m Report :=
  match verb with
  | .build => withText files path (buildReport settings path)
  | .parse => withScripts files path (parseReport settings)
  | .lint => withScripts files path (lintReport settings)
  | .order => withText files path (orderReport settings path)

def runInvocation [Monad m] (files : FileAccess m) (environment : Entries String) (i : Invocation) : m Report := do
  match ← Settings.load files environment i.options.settingsFile with
  | none => return .ofFault .settings []
  | some settings =>
    let settings := if i.options.compact then { settings with format := .compact } else settings
    perform files settings i.verb i.path

def run [Monad m] (files : FileAccess m) (environment : Entries String) (arguments : List String) : m Report :=
  match read arguments with
  | .run invocation => runInvocation files environment invocation
  | .help topic => return { exit := 0, output := help topic }
  | .misuse => return { exit := 2, messages := ["error: these arguments are not understood", "", usage none] }

end Command
end SchemaAtlas
