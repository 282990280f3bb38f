import SchemaAtlas.Script.Cursor

namespace SchemaAtlas
namespace Script

-- Tokens are cut off on demand. What stands between the quotes of a text, in a
-- template or in a regular expression is read by the grammar: only it knows where
-- these may stand.

inductive TokenShape where
  | name | privateName | number | quote | backquote | sign | stop | stray
deriving DecidableEq, Repr

-- A token with the cursors around it. `newline` says that a line ends before it,
-- `comments` are the ones that stand directly before it.
structure Token where
  shape : TokenShape
  text : String
  start : Cursor
  next : Cursor
  newline : Bool
  comments : List Tree
deriving Repr

-- Signs of more than one character, each before the signs it starts with. Angle
-- brackets are always single: only the grammar can tell brackets from shifts.
def longSigns : List String :=
  ["...", "===", "!==", "**=", "&&=", "||=", "??=", "=>", "==", "!=", "?.", "??", "**", "*=", "++", "+=", "--", "-=",
   "&&", "&=", "||", "|=", "^=", "%=", "/="]

-- The sign at the head of a text. A question mark before a decimal stands alone.
def signAt (cs : List Char) : Option String :=
  match longSigns.find? fun sign => sign.toList.isPrefixOf cs with
  | some "?." => if ((cs[2]?).any isDigit) then some "?" else some "?."
  | some sign => some sign
  | none =>
    match cs with
    | c :: _ => if "<>=!&|^%*+-/~()[]\x7b\x7d;,:.?@".toList.contains c then some c.toString else none
    | [] => none

def blockCommentLength : List Char → Nat
  | '*' :: '/' :: _ => 2
  | _ :: rest => blockCommentLength rest + 1
  | [] => 0

def commentLength? : List Char → Option Nat
  | '/' :: '/' :: rest => some ((rest.takeWhile fun c => !isLineEnd c).length + 2)
  | '/' :: '*' :: rest => some (blockCommentLength rest + 2)
  | _ => none

-- What was skipped before a token: whether a line ended, and the comments.
structure Gap where
  newline : Bool
  comments : List Tree
  stop : Cursor

def skipSpaces (c : Cursor) (before : Gap) : Gap :=
  let blanks := c.rest.takeWhile isSpace
  { before with newline := before.newline || blanks.any isLineEnd, stop := c.advance blanks.length }

-- Skips comments and the blanks behind them; each round takes a comment.
def skipComments : Nat → Gap → Gap
  | 0, gap => gap
  | fuel + 1, gap =>
    match commentLength? gap.stop.rest with
    | none => gap
    | some length =>
      let past := gap.stop.advance length
      skipComments fuel (skipSpaces past {
        newline := gap.newline || (gap.stop.rest.take length).any isLineEnd
        comments := gap.comments ++ [gap.stop.tree .comment [] past]
        stop := past })

def Cursor.gap (c : Cursor) : Gap :=
  let gap := skipSpaces c { newline := false, comments := [], stop := c }
  if (commentLength? gap.stop.rest).isSome then skipComments gap.stop.rest.length gap else gap

-- The length of a name. A character may stand as its code after a backslash;
-- `coded` is set between the braces of such a code.
def nameLength (coded : Bool) : List Char → Nat
  | '\\' :: 'u' :: '\x7b' :: rest => if coded then 0 else nameLength true rest + 3
  | '\\' :: 'u' :: rest => if coded then 0 else nameLength false rest + 2
  | c :: rest =>
    if coded then nameLength (c != '\x7d') rest + 1
    else if isNameChar c then nameLength false rest + 1
    else 0
  | [] => 0

-- The digits of one part of a number: letters and underscores count, and so does
-- a sign behind the mark of an exponent.
def digitsLength (hex : Bool) : List Char → Nat
  | e :: s :: rest =>
    if !hex && (e == 'e' || e == 'E') && (s == '+' || s == '-') then digitsLength hex rest + 2
    else if isNameChar e then digitsLength hex (s :: rest) + 1
    else 0
  | [c] => if isNameChar c then 1 else 0
  | [] => 0

def numberLength (cs : List Char) : Nat :=
  let hex := match cs with
    | '0' :: x :: _ => "xXoObB".toList.contains x
    | _ => false
  let whole := digitsLength hex cs
  match cs.drop whole with
  | '.' :: rest => if hex || (cs.take whole).any (fun c => c == 'e' || c == 'E' || c == 'n') then whole
      else whole + 1 + digitsLength hex rest
  | _ => whole

def cut (cs : List Char) : TokenShape × Nat :=
  match cs with
  | [] => (.stop, 0)
  | '"' :: _ => (.quote, 1)
  | '\'' :: _ => (.quote, 1)
  | '`' :: _ => (.backquote, 1)
  | '#' :: rest => if nameLength false rest > 0 then (.privateName, nameLength false rest + 1) else (.stray, 1)
  | '.' :: d :: _ =>
    if isDigit d then (.number, numberLength cs)
    else (.sign, match signAt cs with | some sign => sign.length | none => 1)
  | c :: _ =>
    if isDigit c then (.number, numberLength cs)
    else
      match nameLength false cs, signAt cs with
      | length + 1, _ => (.name, length + 1)
      | 0, some sign => (.sign, sign.length)
      | 0, none => (.stray, 1)

def Cursor.token (c : Cursor) : Token :=
  let gap := c.gap
  let (shape, length) := cut gap.stop.rest
  { shape := shape, text := String.ofList (gap.stop.rest.take length), start := gap.stop, next := gap.stop.advance length
    newline := gap.newline, comments := gap.comments }

end Script
end SchemaAtlas
