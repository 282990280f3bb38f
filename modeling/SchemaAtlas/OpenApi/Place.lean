import SchemaAtlas.Failure
import SchemaAtlas.Json.Pointer

namespace SchemaAtlas
namespace OpenApi

-- Where in the source document a value is read, and under what conditions. A place
-- is derived for each value below; nothing is changed behind a caller.

structure Place where
  root : Json
  tokens : List String := []
  required : Bool := true
  depth : Nat := 0
  maxDepth : Nat
deriving Repr

namespace Place

def start (root : Json) (maxDepth : Nat) : Place := { root := root, maxDepth := maxDepth }

def at_ (p : Place) (tokens : List String) : Place := { p with tokens := tokens, required := true, depth := 0 }

def token (p : Place) (name : String) : Place := { p with tokens := p.tokens ++ [name] }

def child (p : Place) (name : String) : Place := { p.token name with depth := p.depth + 1, required := true }

def withRequired (p : Place) (required : Bool) : Place := { p with required := required }

def path (p : Place) : String := "#" ++ Pointer.render p.tokens

def checkDepth (p : Place) : Except Failure Unit :=
  if p.depth ≤ p.maxDepth then .ok () else .error (.recursionLimit p.maxDepth p.path)

def shapeError (p : Place) (reason : String) : Failure := .unknownSchemaShape p.path reason

end Place
end OpenApi
end SchemaAtlas
