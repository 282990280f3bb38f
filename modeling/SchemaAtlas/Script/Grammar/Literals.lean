import SchemaAtlas.Script.Reading

namespace SchemaAtlas
namespace Script
namespace Grammar

open Reading

-- Texts, templates and regular expressions, character by character.

def hexDigits : List Char := "0123456789abcdefABCDEF".toList

def escapeLength : List Char → Nat
  | '\\' :: 'x' :: _ => 4
  | '\\' :: 'u' :: '\x7b' :: rest => (rest.takeWhile hexDigits.contains).length + 4
  | '\\' :: 'u' :: _ => 6
  | '\\' :: '\r' :: c :: _ => if isLineEnd c then 3 else 2
  | '\\' :: c :: rest =>
    if '0' ≤ c && c ≤ '7' then ((c :: rest).take 3 |>.takeWhile fun d => '0' ≤ d && d ≤ '7').length + 1 else 2
  | cs => cs.length

def chars (kind : Kind) (count : Nat) : Reading Tree := do
  let start ← cursor
  check (count > 0 && start.rest.length ≥ count)
  set (start.advance count)
  close start kind []

def stringPiece (quote : Char) : Reading (Option Tree) := do
  match (← cursor).rest with
  | [] => failure
  | c :: rest =>
    if c == quote then return none
    else if c == '\\' then return some (← chars .escapeSequence (escapeLength (c :: rest)))
    else
      let fragment := (c :: rest).takeWhile fun d => d != quote && d != '\\' && d != '\n' && d != '\r'
      return some (← chars .stringFragment fragment.length)

def string : Reading Tree := do
  let t ← peek
  check (t.shape == .quote)
  take t
  let pieces ← many (stringPiece ((t.text.toList.head?).getD '"'))
  set ((← cursor).advance 1)
  close t.start .string pieces

def plainLength : List Char → Nat
  | '$' :: '\x7b' :: _ => 0
  | c :: rest => if c == '`' || c == '\\' then 0 else plainLength rest + 1
  | [] => 0

def templatePiece (substitution : Reading Tree) : Reading (Option Tree) := do
  let start ← cursor
  match start.rest with
  | '`' :: _ => return none
  | '$' :: '\x7b' :: _ =>
    set (start.advance 2)
    let inner ← substitution
    sign "\x7d"
    return some (← close start .templateSubstitution [inner])
  | '\\' :: _ => return some (← chars .escapeSequence (escapeLength start.rest))
  | cs => return some (← chars .stringFragment (plainLength cs))

def template (substitution : Reading Tree) : Reading Tree := do
  let t ← peek
  check (t.shape == .backquote)
  take t
  let pieces ← many (templatePiece substitution)
  set ((← cursor).advance 1)
  close t.start .templateString pieces

-- The length of a pattern up to its closing slash; within square brackets a slash
-- is plain.
def patternLength (bracket : Bool) : List Char → Nat
  | '\\' :: _ :: rest => patternLength bracket rest + 2
  | c :: rest =>
    if c == '\n' || (c == '/' && !bracket) then 0
    else patternLength ((bracket || c == '[') && c != ']') rest + 1
  | [] => 0

def regex : Reading Tree := do
  let t ← peek
  check (t.start.rest.head? == some '/')
  set (t.start.advance 1)
  let pattern ← chars .regexPattern (patternLength false (← cursor).rest)
  check ((← cursor).rest.head? == some '/')
  set ((← cursor).advance 1)
  let flags := ((← cursor).rest.takeWhile fun c => 'a' ≤ c && c ≤ 'z').length
  let flags ← listIf (flags > 0) (chars (.other "regex_flags") flags)
  close t.start .regex (pattern :: flags)

def number : Reading Tree := do
  check ((← peek).shape == .number)
  leaf .number

-- Names.

def reserved : List String :=
  ["break", "case", "catch", "class", "const", "continue", "debugger", "default", "delete", "do", "else", "enum",
   "export", "extends", "false", "finally", "for", "function", "if", "import", "in", "instanceof", "new", "null",
   "return", "super", "switch", "this", "throw", "true", "try", "typeof", "undefined", "var", "void", "while", "with"]

def isName (t : Token) : Bool := t.shape == .name
def isFreeName (t : Token) : Bool := t.shape == .name && !reserved.contains t.text

def identifier : Reading Tree := do
  check (isFreeName (← peek))
  leaf .identifier

def anyName (kind : Kind) : Reading Tree := do
  check (isName (← peek))
  leaf kind

def second : Reading Token := return (← peek).next.token

-- The name of a member: a word, a text, a number, an expression in brackets, or a
-- private name.
def propertyName (expression : Reading Tree) : Reading Tree := do
  let t ← peek
  match t.shape with
  | .name => leaf .propertyIdentifier
  | .quote => string
  | .number => leaf .number
  | .privateName => leaf (.other "private_property_identifier")
  | _ =>
    within .computedName do
      sign "["
      let inner ← expression
      sign "]"
      return [inner]

end Grammar
end Script
end SchemaAtlas
