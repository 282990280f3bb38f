import SchemaAtlas.Builder.Constraint
import SchemaAtlas.Builder.State

namespace SchemaAtlas
namespace Builder

open Script

-- What an expression is lowered under. `root` is the whole script, for names that
-- it declares elsewhere.
structure Context where
  bindings : Bindings
  root : Tree
  depth : Nat := 0
  maxDepth : Nat
deriving Repr

namespace Context

def child (cx : Context) : Context := { cx with depth := cx.depth + 1 }

def checkDepth (cx : Context) (s : Site) : Lowered Unit :=
  if cx.depth ≤ cx.maxDepth then .ok ()
  else refuse ("schema nesting exceeds the limit of " ++ toString cx.maxDepth) s.location

end Context

abbrev Lower := Context → Site → Lowered SchemaNode

def snippet (text : String) : String :=
  let cs := text.toList
  let line := cs.takeWhile (· != '\n')
  let line := if line.length < cs.length ∧ line.getLast? = some '\r' then line.dropLast else line
  if line.length > 40 then String.ofList (line.take 40) ++ "..." else String.ofList line

def referenceTo (name : String) : SchemaNode := .ofReference (schemaRef name)

def lowerMembers (lower : Lower) (cx : Context) (list : Site) : Lowered (List SchemaNode) :=
  let array := list.unwrap
  if array.kind != .array then refuse "expected an array literal of schemas" array.location
  else array.parts.mapM (lower cx.child)

end Builder
end SchemaAtlas
