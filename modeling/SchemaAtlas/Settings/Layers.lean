import SchemaAtlas.Settings.Setting

namespace SchemaAtlas
namespace Setting

-- Settings from several places, one over the other. Keys do not depend on case.

mutual

def mergedOver (below : Option Setting) : Setting → Setting
  | .table entries =>
    match entries, below with
    | [], some standing => standing
    | _, some (.table standing) => .table (entriesOver standing entries)
    | _, _ => .table (entriesOver [] entries)
  | value => value

def entriesOver (standing : Entries Setting) : List (String × Setting) → Entries Setting
  | [] => standing
  | (key, value) :: rest =>
    let name := lowerText key
    entriesOver (standing.insert name (value.mergedOver (standing.get? name))) rest

end

def isKeyChar (c : Char) : Bool := c.isAlphanum || c = '_' || c = '-' || c = ' '

-- The keys that a name leads through. A name that is none of keys with dots
-- between them is one key.
def path (name : String) : List String :=
  let keys := name.splitOn "."
  if keys.all fun key => key ≠ "" && key.all isKeyChar then keys else [name]

def entriesOf : Option Setting → Entries Setting
  | some (.table entries) => entries
  | _ => []

-- Puts a value at the end of a path; what is no table on the way gives way to one.
def put (value : Setting) (root : Entries Setting) : List String → Entries Setting
  | [] => root
  | [key] => root.insert (lowerText key) (value.mergedOver (root.get? (lowerText key)))
  | key :: rest =>
    let name := lowerText key
    root.insert name (.table (put value (entriesOf (root.get? name)) rest))

def putAll (root layer : Entries Setting) : Entries Setting :=
  layer.foldl (fun root (name, value) => put value root (path name)) root

-- Variables.

def variableMark : String := "schema_ir__"
def variableSeparator : String := "__"

-- A variable holds a flag, a whole number or a double where its text is one.
def ofVariable (content : String) : Setting :=
  match lowerText content with
  | "true" => .flag true
  | "false" => .flag false
  | _ =>
    let whole := (Numeral.whole? content.toList).filter fun (n : Int) => -(Nat.pow 2 63) ≤ n && n < Nat.pow 2 63
    match whole, ExtendedDouble.ofText? content with
    | some n, _ => .whole n
    | none, some x => .real x
    | none, none => .text content

def ofVariables (environment : Entries String) : Entries Setting :=
  environment.filterMap fun (name, content) =>
    let name := lowerText name
    if name.startsWith variableMark then
      let key := (name.drop variableMark.length).toString
      some (String.intercalate "." (key.splitOn variableSeparator), ofVariable content)
    else none

end Setting
end SchemaAtlas
