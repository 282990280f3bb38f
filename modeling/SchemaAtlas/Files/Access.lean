import SchemaAtlas.Files.Path

namespace SchemaAtlas

structure FileAccess (m : Type → Type) where
  isFile : String → m Bool
  isFolder : String → m Bool
  read? : String → m (Option String)
  filesBelow : String → m (List String)

-- Files as data: the names that lead to each, with its text. Paths that do not
-- start at the root start at `working`.
structure FileTree where
  working : List String
  files : List (List String × String)

namespace FileTree

def resolve (t : FileTree) (path : String) : List String :=
  let start := if Path.isAbsolute path then [] else t.working
  (Path.names path).foldl (fun all name => if name = ".." then all.dropLast else all ++ [name]) start

def put (t : FileTree) (path text : String) : FileTree :=
  let place := t.resolve path
  { t with files := t.files.filter (fun (names, _) => names ≠ place) ++ [(place, text)] }

def text? (t : FileTree) (path : String) : Option String :=
  if path.endsWith "/" then none else t.files.lookup (t.resolve path)

def isFolder (t : FileTree) (path : String) : Bool :=
  let place := t.resolve path
  path ≠ "" && (place.isPrefixOf t.working ||
    t.files.any fun (names, _) => place.isPrefixOf names && place.length < names.length)

def filesBelow (t : FileTree) (path : String) : List String :=
  let place := t.resolve path
  t.files.filterMap fun (names, _) =>
    if place.isPrefixOf names && place.length < names.length then
      some ((names.drop place.length).foldl Path.child path)
    else none

def access (t : FileTree) : FileAccess Id where
  isFile path := (t.text? path).isSome
  isFolder path := t.isFolder path
  read? path := t.text? path
  filesBelow path := t.filesBelow path

end FileTree
end SchemaAtlas
