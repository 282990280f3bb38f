import SchemaAtlas.Settings.Setting

namespace SchemaAtlas
namespace Toml

-- Blanks, texts and bare words. Each reader returns what is left of the text.

def isBlank (c : Char) : Bool := c = ' ' || c = '\t'
def skipBlanks (cs : List Char) : List Char := cs.dropWhile isBlank

-- Characters of a line: all but the control characters, of which the tab stays.
def isLineChar (c : Char) : Bool := c = '\t' || (32 ≤ c.toNat && c.toNat ≠ 127)

def lineBreak? : List Char → Option (List Char)
  | '\n' :: rest => some rest
  | '\r' :: '\n' :: rest => some rest
  | _ => none

def skipComment : List Char → List Char
  | '#' :: rest => rest.dropWhile isLineChar
  | cs => cs

-- Nothing but blanks and a comment may stand before the end of the line.
def endLine? (cs : List Char) : Option (List Char) :=
  match skipComment (skipBlanks cs) with
  | [] => some []
  | rest => lineBreak? rest

-- What follows the blank lines and comments; `fuel` bounds the lines.
def skipLines : Nat → List Char → List Char
  | 0, cs => cs
  | fuel + 1, cs =>
    let rest := skipComment (skipBlanks cs)
    match lineBreak? rest with
    | some rest => skipLines fuel rest
    | none => rest

def codedChar? (digits : List Char) : Option Char :=
  (Numeral.natural? 16 digits).bind fun n => if n.isValidChar then some (Char.ofNat n) else none

def escaped? : List Char → Option (Char × List Char)
  | 'b' :: rest => some (Char.ofNat 8, rest)
  | 't' :: rest => some ('\t', rest)
  | 'n' :: rest => some ('\n', rest)
  | 'f' :: rest => some (Char.ofNat 12, rest)
  | 'r' :: rest => some ('\r', rest)
  | '"' :: rest => some ('"', rest)
  | '\\' :: rest => some ('\\', rest)
  | 'u' :: rest => if rest.length < 4 then none else (codedChar? (rest.take 4)).map (·, rest.drop 4)
  | 'U' :: rest => if rest.length < 8 then none else (codedChar? (rest.take 8)).map (·, rest.drop 8)
  | _ => none

def readBasic : Nat → List Char → List Char → Option (String × List Char)
  | 0, _, _ => none
  | _ + 1, out, '"' :: rest => some (String.ofList out.reverse, rest)
  | fuel + 1, out, '\\' :: rest => do
    let (c, rest) ← escaped? rest
    readBasic fuel (c :: out) rest
  | fuel + 1, out, c :: rest => if isLineChar c then readBasic fuel (c :: out) rest else none
  | _ + 1, _, [] => none

def readLiteral (cs : List Char) : Option (String × List Char) :=
  let inside (c : Char) : Bool := isLineChar c && c ≠ '\''
  match cs.dropWhile inside with
  | '\'' :: rest => some (String.ofList (cs.takeWhile inside), rest)
  | _ => none

-- Three quotes close a text of several lines; two more before them belong to it.
def closing? (quote : Char) (cs : List Char) : Option (Nat × List Char) :=
  let run := (cs.takeWhile (· = quote)).length
  if run < 3 then none
  else
    let count := min run 5
    some (count - 3, cs.drop count)

def joinedLine? (cs : List Char) : Option (List Char) :=
  (lineBreak? (skipBlanks cs)).map fun rest => rest.dropWhile fun c => isBlank c || c = '\n' || c = '\r'

def readLongBasic : Nat → List Char → List Char → Option (String × List Char)
  | 0, _, _ => none
  | fuel + 1, out, cs =>
    match closing? '"' cs with
    | some (count, rest) => some (String.ofList (out.reverse ++ List.replicate count '"'), rest)
    | none =>
      match lineBreak? cs with
      | some rest => readLongBasic fuel ('\n' :: out) rest
      | none =>
        match cs with
        | '\\' :: rest =>
          match joinedLine? rest with
          | some rest => readLongBasic fuel out rest
          | none => (escaped? rest).bind fun (c, rest) => readLongBasic fuel (c :: out) rest
        | c :: rest => if isLineChar c then readLongBasic fuel (c :: out) rest else none
        | [] => none

def readLongLiteral : Nat → List Char → List Char → Option (String × List Char)
  | 0, _, _ => none
  | fuel + 1, out, cs =>
    match closing? '\'' cs with
    | some (count, rest) => some (String.ofList (out.reverse ++ List.replicate count '\''), rest)
    | none =>
      match lineBreak? cs with
      | some rest => readLongLiteral fuel ('\n' :: out) rest
      | none =>
        match cs with
        | c :: rest => if isLineChar c then readLongLiteral fuel (c :: out) rest else none
        | [] => none

def afterOpening (cs : List Char) : List Char := (lineBreak? cs).getD cs

def readText? (cs : List Char) : Option (String × List Char) :=
  let fuel := cs.length + 1
  match cs with
  | '"' :: '"' :: '"' :: rest => readLongBasic fuel [] (afterOpening rest)
  | '"' :: rest => readBasic fuel [] rest
  | '\'' :: '\'' :: '\'' :: rest => readLongLiteral fuel [] (afterOpening rest)
  | '\'' :: rest => readLiteral rest
  | _ => none

-- Words: numbers, flags and dates.

def isWordChar (c : Char) : Bool := c.isAlphanum || ['_', '+', '-', '.', ':'].contains c

-- Digits without the underscores that stand between them.
def ungrouped? (isDigit : Char → Bool) : List Char → Option (List Char)
  | [] => none
  | [d] => if isDigit d then some [d] else none
  | d :: '_' :: rest => if isDigit d then (ungrouped? isDigit rest).map (d :: ·) else none
  | d :: rest => if isDigit d then (ungrouped? isDigit rest).map (d :: ·) else none

def wholeIn? (base : Nat) (cs : List Char) : Option Int := do
  let digits ← ungrouped? (fun c => (Numeral.digitValue? base c).isSome) cs
  let n ← Numeral.natural? base digits
  if n < Nat.pow 2 63 then some n else none

def decimalDigits? (cs : List Char) : Option (List Char) :=
  (ungrouped? Numeral.isDigit cs).filter fun digits => digits.length = 1 || digits.head? ≠ some '0'

def whole? (word : List Char) : Option Int := do
  let (negative, cs) := Numeral.afterSign word
  let digits ← decimalDigits? cs
  let n ← Numeral.natural? 10 digits
  if negative then (if n ≤ Nat.pow 2 63 then some (-(n : Int)) else none)
  else if n < Nat.pow 2 63 then some n else none

def isDigitOrGroup (c : Char) : Bool := Numeral.isDigit c || c = '_'

def real? (word : List Char) : Option ExtendedDouble := do
  let (negative, cs) := Numeral.afterSign word
  if cs = ['i', 'n', 'f'] then some (.infinite negative)
  else if cs = ['n', 'a', 'n'] then some .undefined
  else if cs.all isDigitOrGroup then none
  else
    let digits ← decimalDigits? (cs.takeWhile isDigitOrGroup)
    let (places, rest) ← match cs.dropWhile isDigitOrGroup with
      | '.' :: more =>
        (ungrouped? Numeral.isDigit (more.takeWhile isDigitOrGroup)).map (·, more.dropWhile isDigitOrGroup)
      | more => some ([], more)
    let exponent ← match rest with
      | [] => some 0
      | c :: more =>
        if c = 'e' ∨ c = 'E' then
          let (down, power) := Numeral.afterSign more
          (ungrouped? Numeral.isDigit power).bind fun power =>
            (Numeral.natural? 10 power).map fun n => if down then -(n : Int) else n
        else none
    let n ← Numeral.natural? 10 (digits ++ places)
    match ExtendedDouble.ofDecimal negative n (exponent - places.length) with
    | .infinite false => none
    | x => some x

def hasShape (shape : String) (cs : List Char) : Bool :=
  shape.length = cs.length && (shape.toList.zip cs).all fun (s, c) => if s = '0' then Numeral.isDigit c else s = c

def pairIn (low high : Nat) (cs : List Char) (start : Nat) : Bool :=
  match Numeral.natural? 10 ((cs.drop start).take 2) with
  | some n => low ≤ n && n ≤ high
  | none => false

def isDate (cs : List Char) : Bool := hasShape "0000-00-00" cs && pairIn 1 12 cs 5 && pairIn 1 31 cs 8

def isTime (cs : List Char) : Bool :=
  let fraction := cs.drop 8
  hasShape "00:00:00" (cs.take 8) && pairIn 0 23 cs 0 && pairIn 0 59 cs 3 && pairIn 0 60 cs 6 &&
    (fraction = [] || (fraction.head? = some '.' && fraction.length > 1 && (fraction.drop 1).all Numeral.isDigit))

def isZone (cs : List Char) : Bool :=
  cs = [] || cs = ['Z'] || cs = ['z'] || hasShape "+00:00" cs || hasShape "-00:00" cs

def isZonedTime (cs : List Char) : Bool :=
  let isClock (c : Char) : Bool := Numeral.isDigit c || c = ':' || c = '.'
  isTime (cs.takeWhile isClock) && isZone (cs.dropWhile isClock)

def isMoment (cs : List Char) : Bool :=
  isDate cs || isTime cs ||
    (isDate (cs.take 10) && ['T', 't', ' '].contains (cs.getD 10 'x') && isZonedTime (cs.drop 11))

def momentText (cs : List Char) : String :=
  String.ofList (cs.map fun c => if c = ' ' || c = 't' then 'T' else if c = 'z' then 'Z' else c)

def word? (word : List Char) : Option Setting :=
  if word = ['t', 'r', 'u', 'e'] then some (.flag true)
  else if word = ['f', 'a', 'l', 's', 'e'] then some (.flag false)
  else match word with
    | '0' :: 'x' :: digits => (wholeIn? 16 digits).map .whole
    | '0' :: 'o' :: digits => (wholeIn? 8 digits).map .whole
    | '0' :: 'b' :: digits => (wholeIn? 2 digits).map .whole
    | _ =>
      ((whole? word).map Setting.whole).or <| ((real? word).map Setting.real).or <|
        if isMoment word then some (.text (momentText word)) else none

def readWord (cs : List Char) : Option (Setting × List Char) :=
  let word := cs.takeWhile isWordChar
  let rest := cs.dropWhile isWordChar
  let (word, rest) := match rest with
    | ' ' :: more =>
      let time := more.takeWhile isWordChar
      if isDate word && isMoment (word ++ ' ' :: time) then (word ++ ' ' :: time, more.dropWhile isWordChar)
      else (word, rest)
    | _ => (word, rest)
  (word? word).map (·, rest)

end Toml
end SchemaAtlas
