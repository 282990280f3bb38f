import SchemaAtlas.Number.Numeral
import SchemaAtlas.Yaml.Cursor

namespace SchemaAtlas
namespace Yaml

-- Scalars as they are written: in quotes, plain, or as a block of lines.

def folded (breaks : Nat) : List Char := if breaks = 1 then [' '] else List.replicate (breaks - 1) '\n'

def dropBlanksAtEnd (out : List Char) : List Char := out.dropWhile isBlank

-- The line breaks of a text in quotes, and the cursor after them and the blanks
-- around them.
def passBreaks (breaks column : Nat) : List Char → Nat × Cursor
  | [] => (breaks, ⟨[], column⟩)
  | c :: rest =>
    if c = '\n' then passBreaks (breaks + 1) 0 rest
    else if isBlank c then passBreaks breaks (column + 1) rest
    else (breaks, ⟨c :: rest, column⟩)

-- `out` holds what was read, last character first.

def readSingle : Nat → List Char → Cursor → Option (String × Cursor)
  | 0, _, _ => none
  | fuel + 1, out, c =>
    match c.rest with
    | [] => none
    | '\'' :: '\'' :: _ => readSingle fuel ('\'' :: out) (c.skip 2)
    | '\'' :: _ => some (String.ofList out.reverse, c.step)
    | '\n' :: rest =>
      let (breaks, next) := passBreaks 1 0 rest
      if next.isMarker then none
      else readSingle fuel ((folded breaks).reverse ++ dropBlanksAtEnd out) next
    | x :: _ => readSingle fuel (x :: out) c.step

def codedChar? (count : Nat) (cs : List Char) : Option Char :=
  if cs.length < count then none
  else (Numeral.natural? 16 (cs.take count)).bind fun n => if n.isValidChar then some (Char.ofNat n) else none

def escaped? : List Char → Option (Char × Nat)
  | '0' :: _ => some (Char.ofNat 0, 1)
  | 'a' :: _ => some (Char.ofNat 7, 1)
  | 'b' :: _ => some (Char.ofNat 8, 1)
  | 't' :: _ => some ('\t', 1)
  | '\t' :: _ => some ('\t', 1)
  | 'n' :: _ => some ('\n', 1)
  | 'v' :: _ => some (Char.ofNat 11, 1)
  | 'f' :: _ => some (Char.ofNat 12, 1)
  | 'r' :: _ => some ('\r', 1)
  | 'e' :: _ => some (Char.ofNat 27, 1)
  | ' ' :: _ => some (' ', 1)
  | '"' :: _ => some ('"', 1)
  | '/' :: _ => some ('/', 1)
  | '\\' :: _ => some ('\\', 1)
  | 'N' :: _ => some (Char.ofNat 0x85, 1)
  | '_' :: _ => some (Char.ofNat 0xA0, 1)
  | 'L' :: _ => some (Char.ofNat 0x2028, 1)
  | 'P' :: _ => some (Char.ofNat 0x2029, 1)
  | 'x' :: rest => (codedChar? 2 rest).map (·, 3)
  | 'u' :: rest => (codedChar? 4 rest).map (·, 5)
  | 'U' :: rest => (codedChar? 8 rest).map (·, 9)
  | _ => none

def readDouble : Nat → List Char → Cursor → Option (String × Cursor)
  | 0, _, _ => none
  | fuel + 1, out, c =>
    match c.rest with
    | [] => none
    | '"' :: _ => some (String.ofList out.reverse, c.step)
    | '\\' :: '\n' :: rest =>
      let (breaks, next) := passBreaks 1 0 rest
      if next.isMarker then none else readDouble fuel (List.replicate (breaks - 1) '\n' ++ out) next
    | '\\' :: rest => (escaped? rest).bind fun (x, length) => readDouble fuel (x :: out) (c.skip (length + 1))
    | '\n' :: rest =>
      let (breaks, next) := passBreaks 1 0 rest
      if next.isMarker then none
      else readDouble fuel ((folded breaks).reverse ++ dropBlanksAtEnd out) next
    | x :: _ => readDouble fuel (x :: out) c.step

def isFlowMark (c : Char) : Bool := [',', '[', ']', '\x7b', '\x7d'].contains c

-- A text without quotes may start here.
def startsPlain (inFlow : Bool) : List Char → Bool
  | '-' :: rest => !isBreakOrBlank rest
  | '?' :: rest => !isBreakOrBlank rest && !inFlow
  | ':' :: rest => !isBreakOrBlank rest && !inFlow
  | c :: _ => !(",[]\x7b\x7d#&*!|>'\"%@`".toList.contains c)
  | [] => false

-- The characters of a plain text on one line; blanks at its end do not count.
-- `apart` tells whether a blank stands before.
def plainLength (inFlow apart : Bool) (counted length : Nat) : List Char → Nat
  | [] => counted
  | c :: rest =>
    if c = '\n' ∨ (c = '#' ∧ apart) ∨ (c = ':' ∧ isBreakOrBlank rest) ∨ (inFlow ∧ isFlowMark c) then counted
    else if isBlank c then plainLength inFlow true counted (length + 1) rest
    else plainLength inFlow false (length + 1) (length + 1) rest

def readLine (inFlow : Bool) (c : Cursor) : List Char × Cursor :=
  let length := plainLength inFlow false 0 0 c.rest
  (c.rest.take length, c.skip length)

def readMoreLines (inFlow : Bool) (least : Nat) : Nat → List Char → Cursor → List Char × Cursor
  | 0, text, c => (text, c)
  | fuel + 1, text, c =>
    let gap := c.gap
    let next := gap.next
    if gap.breaks = 0 ∨ gap.commented ∨ next.isDone ∨ (¬ inFlow ∧ next.column < least) then (text, c)
    else
      let (line, after) := readLine inFlow next
      if line = [] then (text, c) else readMoreLines inFlow least fuel (text ++ folded gap.breaks ++ line) after

def readPlain (inFlow : Bool) (least : Nat) (c : Cursor) : String × Cursor :=
  let (line, after) := readLine inFlow c
  let (text, after) := readMoreLines inFlow least c.rest.length line after
  (String.ofList text, after)

-- Blocks of lines.

inductive Chomp where
  | clip | strip | keep
deriving DecidableEq

def readMarks (chomp : Chomp) (indent : Option Nat) : Nat → Cursor → Chomp × Option Nat × Cursor
  | 0, c => (chomp, indent, c)
  | fuel + 1, c =>
    match c.rest with
    | '-' :: _ => readMarks .strip indent fuel c.step
    | '+' :: _ => readMarks .keep indent fuel c.step
    | d :: _ => if '1' ≤ d ∧ d ≤ '9' then readMarks chomp (some (d.toNat - 48)) fuel c.step else (chomp, indent, c)
    | [] => (chomp, indent, c)

def linesFrom (line : List Char) : List Char → List (List Char)
  | [] => if line = [] then [] else [line.reverse]
  | c :: rest => if c = '\n' then line.reverse :: linesFrom [] rest else linesFrom (c :: line) rest

def spacesOf (line : List Char) : Nat := (line.takeWhile (· = ' ')).length
def isEmptyLine (indent : Nat) (line : List Char) : Bool := spacesOf line = line.length && line.length ≤ indent

-- A line of a block stands far enough in; empty lines may be shorter.
def belongs (indent : Nat) (line : List Char) : Bool :=
  isEmptyLine indent line || (indent ≤ spacesOf line && !(Cursor.mk line 0).isMarker)

def firstIndent (lines : List (List Char)) : Nat :=
  ((lines.find? fun line => spacesOf line < line.length).map spacesOf).getD 0

def Cursor.lineEnd : Nat → Cursor → Cursor
  | 0, c => { c with rest := c.rest.dropWhile (· ≠ '\n') }
  | count + 1, c => lineEnd count ⟨(c.rest.dropWhile (· ≠ '\n')).drop 1, 1⟩

def isDeeper : List Char → Bool
  | c :: _ => isBlank c
  | [] => false

-- Lines of a folded block are joined by blanks; empty ones are line breaks, and
-- those further in keep theirs.
def foldedText (breaks : Nat) (deeper : Bool) (text : List Char) : List (List Char) → List Char
  | [] => text
  | [] :: rest => foldedText (breaks + 1) deeper text rest
  | line :: rest =>
    let joint := if text = [] then List.replicate (breaks - 1) '\n'
      else if deeper || isDeeper line then List.replicate breaks '\n'
      else folded breaks
    foldedText 1 (isDeeper line) (text ++ joint ++ line) rest

-- A block of lines after its mark, each line without its indentation. The block
-- stands at `least` or further in.
def readBlock (isFolded : Bool) (least : Nat) (c : Cursor) : Option (String × Cursor) :=
  let (chomp, given, c) := readMarks .clip none 2 c
  let gap := c.gap
  if gap.breaks = 0 ∧ ¬ gap.next.isAtEnd then none
  else
    let all := linesFrom [] ((c.rest.dropWhile (· ≠ '\n')).drop 1)
    let indent := match given with
      | some n => least - 1 + n
      | none => max least (firstIndent all)
    let taken := all.takeWhile (belongs indent)
    let empty := (taken.reverse.takeWhile (isEmptyLine indent)).length
    let lines := (taken.take (taken.length - empty)).map (·.drop indent)
    let after := c.lineEnd lines.length
    let body := if isFolded then foldedText 1 false [] lines else List.intercalate ['\n'] lines
    let ending := if lines = [] ∨ after.isAtEnd then [] else ['\n']
    some (String.ofList (match chomp with
      | .strip => body
      | .clip => body ++ ending
      | .keep => body ++ ending ++ List.replicate empty '\n'), after)

end Yaml
end SchemaAtlas
