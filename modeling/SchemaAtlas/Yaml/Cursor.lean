namespace SchemaAtlas
namespace Yaml

structure Cursor where
  rest : List Char
  column : Nat

namespace Cursor

def step (c : Cursor) : Cursor :=
  match c.rest with
  | [] => c
  | x :: rest => { rest := rest, column := if x = '\n' then 0 else c.column + 1 }

def skip : Nat → Cursor → Cursor
  | 0, c => c
  | count + 1, c => skip count c.step

def isAtEnd (c : Cursor) : Bool := c.rest.isEmpty

end Cursor

def isBlank (c : Char) : Bool := c = ' ' || c = '\t'

def isBreakOrBlank : List Char → Bool
  | [] => true
  | c :: _ => isBlank c || c = '\n'

-- What lies between two tokens: where the next one starts, how many lines ended,
-- whether a tab stands before it on its line and whether there was a comment.
structure Gap where
  next : Cursor
  breaks : Nat
  tabbed : Bool
  commented : Bool

def gapFrom (apart inComment tabbed commented : Bool) (breaks column : Nat) : List Char → Gap
  | [] => ⟨⟨[], column⟩, breaks, tabbed, commented⟩
  | c :: rest =>
    if c = '\n' then gapFrom true false false commented (breaks + 1) 0 rest
    else if inComment then gapFrom true true tabbed commented breaks (column + 1) rest
    else if c = ' ' then gapFrom true false tabbed commented breaks (column + 1) rest
    else if c = '\t' then gapFrom true false true commented breaks (column + 1) rest
    else if c = '#' ∧ apart then gapFrom true true tabbed true breaks (column + 1) rest
    else ⟨⟨c :: rest, column⟩, breaks, tabbed, commented⟩

def Cursor.gap (c : Cursor) : Gap := gapFrom (c.column = 0) false false false 0 c.column c.rest

def Cursor.isMarker (c : Cursor) : Bool :=
  c.column = 0 && (match c.rest with
    | '-' :: '-' :: '-' :: rest => isBreakOrBlank rest
    | '.' :: '.' :: '.' :: rest => isBreakOrBlank rest
    | _ => false)

-- Nothing more of the document follows.
def Cursor.isDone (c : Cursor) : Bool := c.isAtEnd || c.isMarker

end Yaml
end SchemaAtlas
