import SchemaAtlas.Json.Basic

namespace SchemaAtlas
namespace Json

-- Each reader takes characters and returns what is left of them. `levels` is how
-- many more brackets may open, `fuel` bounds the values read one after another.

def isBlank (c : Char) : Bool := c = ' ' || c = '\t' || c = '\n' || c = '\r'

def skipBlanks (cs : List Char) : List Char := cs.dropWhile isBlank

def hexValue? (c : Char) : Option Nat :=
  if '0' ≤ c ∧ c ≤ '9' then some (c.toNat - 48)
  else if 'a' ≤ c ∧ c ≤ 'f' then some (c.toNat - 87)
  else if 'A' ≤ c ∧ c ≤ 'F' then some (c.toNat - 55)
  else none

def hexFour? : List Char → Option (Nat × List Char)
  | a :: b :: c :: d :: rest => do
    let w ← hexValue? a
    let x ← hexValue? b
    let y ← hexValue? c
    let z ← hexValue? d
    some (((w * 16 + x) * 16 + y) * 16 + z, rest)
  | _ => none

def simpleEscape? (c : Char) : Option Char :=
  match c with
  | '"' => some '"'
  | '\\' => some '\\'
  | '/' => some '/'
  | 'b' => some (Char.ofNat 8)
  | 'f' => some (Char.ofNat 12)
  | 'n' => some '\n'
  | 'r' => some '\r'
  | 't' => some '\t'
  | _ => none

-- A character given by its code. A high surrogate needs its low half after
-- it; half a pair alone is no character.
def codedChar? (cs : List Char) : Option (Char × List Char) := do
  let (unit, rest) ← hexFour? cs
  if 0xD800 ≤ unit ∧ unit < 0xDC00 then
    match rest with
    | '\\' :: 'u' :: more => do
      let (low, rest) ← hexFour? more
      if 0xDC00 ≤ low ∧ low < 0xE000 then
        some (Char.ofNat (0x10000 + (unit - 0xD800) * 0x400 + (low - 0xDC00)), rest)
      else none
    | _ => none
  else if 0xDC00 ≤ unit ∧ unit < 0xE000 then none
  else some (Char.ofNat unit, rest)

def readString : Nat → List Char → List Char → Option (String × List Char)
  | 0, _, _ => none
  | _ + 1, out, '"' :: rest => some (String.ofList out.reverse, rest)
  | fuel + 1, out, '\\' :: 'u' :: rest => do
    let (c, rest) ← codedChar? rest
    readString fuel (c :: out) rest
  | fuel + 1, out, '\\' :: c :: rest => do
    let c ← simpleEscape? c
    readString fuel (c :: out) rest
  | fuel + 1, out, c :: rest => if c.toNat < 32 then none else readString fuel (c :: out) rest
  | _ + 1, _, [] => none

def isDigit (c : Char) : Bool := '0' ≤ c && c ≤ '9'

def naturalOf (digits : List Char) : Nat := digits.foldl (fun n c => n * 10 + (c.toNat - 48)) 0

def readExponent : List Char → Option (Int × List Char)
  | c :: rest =>
    if c = 'e' ∨ c = 'E' then
      let (negative, rest) := match rest with
        | '-' :: more => (true, more)
        | '+' :: more => (false, more)
        | more => (false, more)
      let digits := rest.takeWhile isDigit
      if digits = [] then none
      else
        let n : Int := naturalOf digits
        some (if negative then -n else n, rest.dropWhile isDigit)
    else some (0, c :: rest)
  | [] => some (0, [])

-- A number without fraction and exponent is whole where 64 bits hold it; the
-- text `-0` is the negative zero.
def readNumber (cs : List Char) : Option (Number × List Char) := do
  let (negative, cs) := match cs with
    | '-' :: more => (true, more)
    | more => (false, more)
  let digits := cs.takeWhile isDigit
  let rest := cs.dropWhile isDigit
  if digits = [] then none
  else if digits.head? = some '0' ∧ digits.length > 1 then none
  else
    let (fraction, afterFraction) ← match rest with
      | '.' :: more =>
        let places := more.takeWhile isDigit
        if places = [] then none else some (places, more.dropWhile isDigit)
      | more => some ([], more)
    let (exponent, afterExponent) ← readExponent afterFraction
    if afterExponent.length = rest.length then
      let n := naturalOf digits
      if negative ∧ n = 0 then some (.double (Double.zero true), rest)
      else (Number.ofInt (if negative then -(n : Int) else n)).map (·, rest)
    else
      let value ← Double.ofDecimal negative (naturalOf (digits ++ fraction)) (exponent - fraction.length)
      some (.double value, afterExponent)

def readWord (word : String) (value : Json) (cs : List Char) : Option (Json × List Char) :=
  if word.toList.isPrefixOf cs then some (value, cs.drop word.length) else none

mutual

def readValue : Nat → Nat → List Char → Option (Json × List Char)
  | 0, _, _ => none
  | fuel + 1, levels, cs =>
    match skipBlanks cs with
    | '"' :: rest => (readString (rest.length + 1) [] rest).map fun (s, rest) => (.string s, rest)
    | '[' :: rest =>
      if levels = 0 then none
      else match skipBlanks rest with
        | ']' :: rest => some (.array [], rest)
        | rest => (readItems fuel (levels - 1) [] rest).map fun (items, rest) => (.array items, rest)
    | '\x7b' :: rest =>
      if levels = 0 then none
      else match skipBlanks rest with
        | '\x7d' :: rest => some (.object [], rest)
        | rest => (readEntries fuel (levels - 1) [] rest).map fun (entries, rest) => (.object entries, rest)
    | 't' :: rest => readWord "true" (.bool true) ('t' :: rest)
    | 'f' :: rest => readWord "false" (.bool false) ('f' :: rest)
    | 'n' :: rest => readWord "null" .null ('n' :: rest)
    | rest => (readNumber rest).map fun (n, rest) => (.number n, rest)

def readItems : Nat → Nat → List Json → List Char → Option (List Json × List Char)
  | 0, _, _, _ => none
  | fuel + 1, levels, out, cs => do
    let (item, rest) ← readValue fuel levels cs
    match skipBlanks rest with
    | ',' :: rest => readItems fuel levels (item :: out) rest
    | ']' :: rest => some ((item :: out).reverse, rest)
    | _ => none

def readEntries : Nat → Nat → Entries Json → List Char → Option (Entries Json × List Char)
  | 0, _, _, _ => none
  | fuel + 1, levels, out, cs => do
    match skipBlanks cs with
    | '"' :: rest => do
      let (key, rest) ← readString (rest.length + 1) [] rest
      match skipBlanks rest with
      | ':' :: rest => do
        let (value, rest) ← readValue fuel levels rest
        match skipBlanks rest with
        | ',' :: rest => readEntries fuel levels ((key, value) :: out) rest
        | '\x7d' :: rest => some (Entries.ofList ((key, value) :: out).reverse, rest)
        | _ => none
      | _ => none
    | _ => none

end

def read? (levels : Nat) (text : String) : Option Json :=
  let cs := text.toList
  match readValue (2 * cs.length + 2) levels cs with
  | some (value, rest) => if skipBlanks rest = [] then some value else none
  | none => none

end Json
end SchemaAtlas
