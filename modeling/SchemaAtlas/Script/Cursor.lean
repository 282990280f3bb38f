import SchemaAtlas.Script.Tree

namespace SchemaAtlas
namespace Script

structure Cursor where
  rest : List Char
  offset : Nat := 0
  location : Location := .start
deriving Repr

namespace Cursor

def ofText (text : String) : Cursor := { rest := text.toList }

def advance : Nat → Cursor → Cursor
  | 0, c => c
  | count + 1, c =>
    match c.rest with
    | [] => c
    | x :: rest => advance count { rest := rest, offset := c.offset + 1, location := c.location.after x }

def skipWhile (p : Char → Bool) (c : Cursor) : Cursor := c.advance (c.rest.takeWhile p).length

def textTo (start stop : Cursor) : String := String.ofList (start.rest.take (stop.offset - start.offset))

-- The tree of what stands between two cursors. A name of no characters is one that is
-- missing.
def tree (start : Cursor) (kind : Kind) (children : List Tree) (stop : Cursor) : Tree :=
  if named : kind.isName = true → start.textTo stop ≠ "" then
    { kind := kind, location := start.location, offset := start.offset, text := start.textTo stop
      children := children, named := named }
  else
    { kind := .missing kind.label, location := start.location, offset := start.offset, text := start.textTo stop
      children := children, named := by simp [Kind.isName] }

end Cursor

-- Character classes.

def isDigit (c : Char) : Bool := '0' ≤ c && c ≤ '9'

def isLineEnd (c : Char) : Bool := c == '\n' || c == '\r' || c.toNat == 0x2028 || c.toNat == 0x2029

def isSpace (c : Char) : Bool :=
  let n := c.toNat
  (9 ≤ n && n ≤ 13) || n == 0x20 || n == 0x85 || n == 0xA0 || n == 0x1680 || (0x2000 ≤ n && n ≤ 0x200B) ||
    n == 0x2028 || n == 0x2029 || n == 0x202F || n == 0x205F || n == 0x2060 || n == 0x3000 || n == 0xFEFF

def isSignChar (c : Char) : Bool := ":;`\"'@#.,|^&<=>+-*/\\%?!~()[]\x7b\x7d".toList.contains c

def isNameChar (c : Char) : Bool := !(c.toNat < 0x20 || isSpace c || isSignChar c)

def isNameStart (c : Char) : Bool := isNameChar c && !isDigit c

end Script
end SchemaAtlas
