namespace SchemaAtlas
namespace Numeral

-- Numbers as they are written, without their sign.

def isDigit (c : Char) : Bool := '0' ≤ c && c ≤ '9'

-- The value of a digit; letters of either case go on after nine.
def digitValue? (base : Nat) (c : Char) : Option Nat :=
  let value? : Option Nat :=
    if isDigit c then some (c.toNat - 48)
    else if 'a' ≤ c && c ≤ 'f' then some (c.toNat - 87)
    else if 'A' ≤ c && c ≤ 'F' then some (c.toNat - 55)
    else none
  value?.filter (· < base)

-- A natural number in a base, `none` without digits or with others.
def natural? (base : Nat) (cs : List Char) : Option Nat :=
  if cs = [] then none
  else cs.foldlM (fun n c => (digitValue? base c).map (n * base + ·)) 0

def afterSign : List Char → Bool × List Char
  | '-' :: rest => (true, rest)
  | '+' :: rest => (false, rest)
  | cs => (false, cs)

-- A whole number with or without a sign.
def whole? (cs : List Char) : Option Int :=
  let (negative, digits) := afterSign cs
  (natural? 10 digits).map fun n => if negative then -(n : Int) else n

-- The power of ten behind the mark of an exponent, nothing left behind it.
def exponent? : List Char → Option Int
  | [] => some 0
  | c :: rest => if c = 'e' ∨ c = 'E' then whole? rest else none

-- The digits and the power of ten of a number with or without point and exponent;
-- at least one digit stands.
def decimal? (cs : List Char) : Option (Nat × Int) := do
  let whole := cs.takeWhile isDigit
  let (places, rest) := match cs.dropWhile isDigit with
    | '.' :: more => (more.takeWhile isDigit, more.dropWhile isDigit)
    | more => ([], more)
  let digits ← natural? 10 (whole ++ places)
  let exponent ← exponent? rest
  some (digits, exponent - places.length)

end Numeral
end SchemaAtlas
