import SchemaAtlas.Script.Token

namespace SchemaAtlas
namespace Script

-- A rule takes the text behind a cursor and leaves what is behind its tree. Where it
-- fails it takes nothing.
abbrev Reading := StateT Cursor Option

namespace Reading

def cursor : Reading Cursor := get
def peek : Reading Token := return (← cursor).token

def here : Reading Cursor := return (← peek).start

def take (t : Token) : Reading Unit := set t.next

def close (start : Cursor) (kind : Kind) (children : List Tree) : Reading Tree :=
  return start.tree kind children (← cursor)

def within (kind : Kind) (inner : Reading (List Tree)) : Reading Tree := do
  let start ← here
  close start kind (← inner)

-- The next token as a tree without children.
def leaf (kind : Kind) : Reading Tree := do
  let t ← peek
  take t
  close t.start kind []

def atSign (sign : String) : Reading Bool := do
  let t ← peek
  return t.shape == .sign && t.text == sign

def atWord (word : String) : Reading Bool := do
  let t ← peek
  return t.shape == .name && t.text == word

def accept (p : Token → Bool) : Reading Bool := do
  let t ← peek
  if p t then take t; return true else return false

def acceptSign (sign : String) : Reading Bool := accept fun t => t.shape == .sign && t.text == sign
def acceptWord (word : String) : Reading Bool := accept fun t => t.shape == .name && t.text == word

def check (condition : Bool) : Reading Unit := if condition then pure () else failure
def sign (s : String) : Reading Unit := do check (← acceptSign s)
def word (w : String) : Reading Unit := do check (← acceptWord w)

-- Succeeds where `inner` would, and takes nothing.
def ahead (inner : Reading α) : Reading Bool := fun c => some ((inner c).isSome, c)

def maybe (inner : Reading α) : Reading (Option α) := (some <$> inner) <|> pure none

def listIf (condition : Bool) (inner : Reading Tree) : Reading (List Tree) := do
  if condition then return [← inner] else return []

def repeated (inner : Reading (Option α)) : Nat → Reading (List α)
  | 0 => return []
  | fuel + 1 => do
    match ← inner with
    | some item => return item :: (← repeated inner fuel)
    | none => return []

-- Everything that `inner` reads one after another, until it gives nothing.
def many (inner : Reading (Option α)) : Reading (List α) := do repeated inner ((← cursor).rest.length + 1)

def grown (step : α → Reading (Option α)) : Nat → α → Reading α
  | 0, item => return item
  | fuel + 1, item => do
    match ← step item with
    | some larger => grown step fuel larger
    | none => return item

def grow (item : α) (step : α → Reading (Option α)) : Reading α := do grown step ((← cursor).rest.length + 1) item

-- Items up to a closing sign, with separators between them; each may be left out.
def listUpTo (closing separator : String) (item : Reading Tree) : Reading (List Tree) := do
  let items ← many (do
    if ← atSign closing then return none
    if ← acceptSign separator then return some []
    let t ← item
    check ((← atSign closing) || (← atSign separator))
    return some [t])
  sign closing
  return items.flatten

def missing (label : String) : Reading Tree := do
  let c ← cursor
  close c (.missing label) []

def stray : Reading Tree := leaf .error

end Reading

-- The rules that refer to one another. A family of rules is written over any such
-- record; the grammar ties them together.
structure Rules where
  expression : Reading Tree
  unary : Reading Tree
  primary : Reading Tree
  pattern : Reading Tree
  type : Reading Tree
  statement : Reading Tree

end Script
end SchemaAtlas
