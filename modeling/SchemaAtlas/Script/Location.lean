import SchemaAtlas.Json.Record

namespace SchemaAtlas

open Json (field fields?)

structure Location where
  line : Nat
  column : Nat
deriving DecidableEq, Repr, Inhabited

namespace Location

def start : Location := ⟨1, 1⟩

-- The place behind a character; a line ends with its line feed.
def after (l : Location) (c : Char) : Location := if c = '\n' then ⟨l.line + 1, 1⟩ else ⟨l.line, l.column + 1⟩

def text (l : Location) : String := toString l.line ++ ":" ++ toString l.column

def toJson (l : Location) : Json := .object (field "line" (Json.ofNat l.line) ++ field "column" (Json.ofNat l.column))

def ofJson? (value : Json) : Option Location := do
  let f ← fields? ["line", "column"] value
  return { line := ← f.required? "line" Json.asCount?, column := ← f.required? "column" Json.asCount? }

end Location
end SchemaAtlas
