import SchemaAtlas.Toml.Scalar
import SchemaAtlas.Toml.Table

namespace SchemaAtlas
namespace Toml

def isBareKeyChar (c : Char) : Bool := c.isAlphanum || c = '_' || c = '-'

def readSimpleKey (cs : List Char) : Option (String × List Char) :=
  match cs with
  | '"' :: rest => readBasic (cs.length + 1) [] rest
  | '\'' :: rest => readLiteral rest
  | _ =>
    let name := cs.takeWhile isBareKeyChar
    if name = [] then none else some (String.ofList name, cs.dropWhile isBareKeyChar)

-- A key whose parts have dots between them; `fuel` bounds the parts.
def readKey : Nat → List Char → Option (List String × List Char)
  | 0, _ => none
  | fuel + 1, cs => do
    let (name, rest) ← readSimpleKey (skipBlanks cs)
    match skipBlanks rest with
    | '.' :: rest => (readKey fuel rest).map fun (names, rest) => (name :: names, rest)
    | rest => some ([name], rest)

mutual

-- A value; `fuel` bounds the values read one after another.
def readValue : Nat → List Char → Option (Setting × List Char)
  | 0, _ => none
  | fuel + 1, cs =>
    match skipBlanks cs with
    | '[' :: rest => (readItems fuel [] rest).map fun (items, rest) => (.list items, rest)
    | '\x7b' :: rest =>
      match skipBlanks rest with
      | '\x7d' :: rest => some (.table [], rest)
      | rest => (readPairs fuel [] rest).map fun (t, rest) => (.table (closeTable t), rest)
    | '"' :: rest => (readText? ('"' :: rest)).map fun (s, rest) => (.text s, rest)
    | '\'' :: rest => (readText? ('\'' :: rest)).map fun (s, rest) => (.text s, rest)
    | rest => readWord rest

def readItems : Nat → List Setting → List Char → Option (List Setting × List Char)
  | 0, _, _ => none
  | fuel + 1, out, cs =>
    match skipLines cs.length cs with
    | ']' :: rest => some (out.reverse, rest)
    | rest => do
      let (item, rest) ← readValue fuel rest
      match skipLines rest.length rest with
      | ',' :: rest => readItems fuel (item :: out) rest
      | ']' :: rest => some ((item :: out).reverse, rest)
      | _ => none

def readPairs : Nat → Table → List Char → Option (Table × List Char)
  | 0, _, _ => none
  | fuel + 1, t, cs => do
    let (key, rest) ← readKey (cs.length + 1) cs
    match rest with
    | '=' :: rest => do
      let (value, rest) ← readValue fuel rest
      let t ← assign value key t
      match skipBlanks rest with
      | ',' :: rest => readPairs fuel t rest
      | '\x7d' :: rest => some (t, rest)
      | _ => none
    | _ => none

end

structure Reading where
  header : List String := []
  root : Table := []

-- Opens a table, or the next one of a repeated header, in the table it is part of.
def Reading.openHeader (open_ : String → Table → Option Table) (r : Reading) (path : List String) : Option Reading := do
  let key ← path.getLast?
  let root ← within (open_ key) path.dropLast r.root
  return { header := path, root := root }

def readHeader (cs : List Char) (r : Reading) : Option (Reading × List Char) :=
  match cs with
  | '[' :: '[' :: rest => do
    let (path, rest) ← readKey (rest.length + 1) rest
    match rest with
    | ']' :: ']' :: rest => (r.openHeader openRow path).map (·, rest)
    | _ => none
  | '[' :: rest => do
    let (path, rest) ← readKey (rest.length + 1) rest
    match rest with
    | ']' :: rest => (r.openHeader openTable path).map (·, rest)
    | _ => none
  | _ => none

def readPair (cs : List Char) (r : Reading) : Option (Reading × List Char) := do
  let (key, rest) ← readKey (cs.length + 1) cs
  match rest with
  | '=' :: rest => do
    let (value, rest) ← readValue (2 * rest.length + 2) rest
    let root ← within (assign value key) r.header r.root
    return ({ r with root := root }, rest)
  | _ => none

-- One header or pair a line; `fuel` bounds the lines.
def readDocument : Nat → Reading → List Char → Option Table
  | 0, _, _ => none
  | fuel + 1, r, cs =>
    match skipLines cs.length cs with
    | [] => some r.root
    | '[' :: rest => do
      let (r, rest) ← readHeader ('[' :: rest) r
      let rest ← endLine? rest
      readDocument fuel r rest
    | rest => do
      let (r, rest) ← readPair rest r
      let rest ← endLine? rest
      readDocument fuel r rest

def read? (text : String) : Option (Entries Setting) :=
  (readDocument (text.length + 1) {} text.toList).map closeTable

end Toml
end SchemaAtlas
