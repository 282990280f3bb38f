import SchemaAtlas.Json.Pointer

namespace SchemaAtlas
namespace OpenApi

-- The version text of a description: three numbers with points between, then a
-- pre-release after a dash and build metadata after a plus sign.

inductive VersionPart where
  | major | minor | patch | preRelease | build
deriving DecidableEq, Repr

def VersionPart.name : VersionPart → String
  | .major => "major version number"
  | .minor => "minor version number"
  | .patch => "patch version number"
  | .preRelease => "pre-release identifier"
  | .build => "build metadata"

inductive VersionError where
  | empty
  | unexpectedEnd (part : VersionPart)
  | unexpectedChar (part : VersionPart) (found : Char)
  | unexpectedCharAfter (part : VersionPart) (found : Char)
  | leadingZero (part : VersionPart)
  | overflow (part : VersionPart)
  | emptySegment (part : VersionPart)
deriving DecidableEq, Repr

-- Formatting and separator characters without a shape of their own.
def isInvisible (c : Char) : Bool :=
  let n := c.toNat
  n < 0x20 || (0x7F ≤ n && n < 0xA1) || n == 0xAD || (0x200B ≤ n && n < 0x2010) || (0x2028 ≤ n && n < 0x2030) ||
    (0x2060 ≤ n && n < 0x2070) || (0x2000 ≤ n && n < 0x200B) || n == 0x3000 || n == 0xFEFF || (0xE000 ≤ n && n < 0xF900) ||
    (0x300 ≤ n && n < 0x370)

def quotedChar (c : Char) : String :=
  let inner :=
    if c.toNat = 0 then "\\0"
    else if c = '\t' then "\\t"
    else if c = '\n' then "\\n"
    else if c = '\r' then "\\r"
    else if c = '\'' then "\\'"
    else if c = '\\' then "\\\\"
    else if isInvisible c then "\\u\x7b" ++ String.ofList (Nat.toDigits 16 c.toNat) ++ "\x7d"
    else c.toString
  "'" ++ inner ++ "'"

def VersionError.message : VersionError → String
  | .empty => "empty string, expected a semver version"
  | .unexpectedEnd part => "unexpected end of input while parsing " ++ part.name
  | .unexpectedChar part found => "unexpected character " ++ quotedChar found ++ " while parsing " ++ part.name
  | .unexpectedCharAfter part found => "unexpected character " ++ quotedChar found ++ " after " ++ part.name
  | .leadingZero part => "invalid leading zero in " ++ part.name
  | .overflow part => "value of " ++ part.name ++ " exceeds u64::MAX"
  | .emptySegment part => "empty identifier segment in " ++ part.name

structure Version where
  major : Nat
  minor : Nat
  patch : Nat
deriving DecidableEq, Repr

namespace Version

def isDigit (c : Char) : Bool := '0' ≤ c && c ≤ '9'

-- A number of at most 64 bits without leading zeros.
def readNumber (part : VersionPart) (cs : List Char) : Except VersionError (Nat × List Char) :=
  let digits := cs.takeWhile isDigit
  let value := digits.foldl (fun n c => n * 10 + (c.toNat - 48)) 0
  match cs with
  | [] => .error (.unexpectedEnd part)
  | c :: _ =>
    if digits = [] then .error (.unexpectedChar part c)
    else if digits.length > 1 ∧ c = '0' then .error (.leadingZero part)
    else if value ≥ Nat.pow 2 64 then .error (.overflow part)
    else .ok (value, cs.dropWhile isDigit)

def readPoint (part : VersionPart) : List Char → Except VersionError (List Char)
  | '.' :: rest => .ok rest
  | c :: _ => .error (.unexpectedCharAfter part c)
  | [] => .error (.unexpectedEnd part)

def isIdentifierChar (c : Char) : Bool :=
  isDigit c || c == '-' || ('a' ≤ c && c ≤ 'z') || ('A' ≤ c && c ≤ 'Z')

-- Identifiers with points between them. Only a pre-release forbids a leading
-- zero before further digits.
def checkSegments (part : VersionPart) : List (List Char) → Except VersionError Unit
  | [] => .ok ()
  | segment :: rest =>
    if segment = [] then .error (.emptySegment part)
    else if part = .preRelease ∧ segment.all isDigit ∧ segment.length > 1 ∧ segment.head? = some '0' then
      .error (.leadingZero part)
    else checkSegments part rest

def readIdentifiers (part : VersionPart) (cs : List Char) : Except VersionError (List Char) := do
  checkSegments part (Pointer.splitChars '.' (cs.takeWhile fun c => isIdentifierChar c || c == '.'))
  return cs.dropWhile fun c => isIdentifierChar c || c == '.'

def readTail (part : VersionPart) (mark : Char) (reading : VersionPart × List Char) :
    Except VersionError (VersionPart × List Char) :=
  match reading.2 with
  | c :: rest => if c = mark then (readIdentifiers part rest).map (part, ·) else .ok reading
  | [] => .ok reading

def read (cs : List Char) : Except VersionError Version := do
  if cs = [] then throw .empty
  let (major, rest) ← readNumber .major cs
  let rest ← readPoint .major rest
  let (minor, rest) ← readNumber .minor rest
  let rest ← readPoint .minor rest
  let (patch, rest) ← readNumber .patch rest
  let reading ← readTail .preRelease '-' (.patch, rest)
  match ← readTail .build '+' reading with
  | (part, c :: _) => throw (.unexpectedCharAfter part c)
  | (_, []) => return { major := major, minor := minor, patch := patch }

def ofText (text : String) : Except VersionError Version :=
  read (if (Pointer.split '.' text).length = 2 then text ++ ".0" else text).toList

end Version
end OpenApi
end SchemaAtlas
