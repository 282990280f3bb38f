namespace SchemaAtlas
namespace Path

-- Paths are texts; what counts in them are the names between the slashes.

-- The names of a path, without the ones that stay where they are.
def names (path : String) : List String := (path.splitOn "/").filter fun name => name ≠ "" ∧ name ≠ "."

def isAbsolute (path : String) : Bool := path.startsWith "/"

def child (folder name : String) : String :=
  if folder.endsWith "/" then folder ++ name else folder ++ "/" ++ name

def extension? (path : String) : Option String := do
  let name ← (names path).getLast?
  if name = ".." then none
  else
    let cs := name.toList.reverse
    match cs.dropWhile (· ≠ '.') with
    | '.' :: _ :: _ => some (String.ofList (cs.takeWhile (· ≠ '.')).reverse)
    | _ => none

def before (a b : String) : Bool := !decide (names b < names a)

end Path
end SchemaAtlas
