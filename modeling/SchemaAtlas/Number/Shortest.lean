import SchemaAtlas.Number.Double

namespace SchemaAtlas

structure Decimal where
  digits : Nat
  exponent : Int
deriving DecidableEq, Repr, Inhabited

namespace Decimal

-- Digits without trailing zeros; `fuel` bounds how many are dropped.
def trimmed : Nat → Decimal → Decimal
  | 0, d => d
  | fuel + 1, d =>
    if d.digits ≠ 0 ∧ d.digits % 10 = 0 then trimmed fuel ⟨d.digits / 10, d.exponent + 1⟩ else d

def leadOf (num den : Nat) : Int :=
  if num ≥ den then (Double.decimalLength (num / den) : Int) - 1 else
    let l := Double.decimalLength (den / num)
    if den ≤ num * Nat.pow 10 (l - 1) then -((l : Int) - 1) else -(l : Int)

-- The whole part of a quotient in units of `10 ^ unit`, and what is left of
-- it, over a common denominator.
def onGrid (num den : Nat) (unit : Int) : Nat × Nat × Nat :=
  let (n, d) := if unit ≤ 0 then (num * Nat.pow 10 (-unit).toNat, den) else (num, den * Nat.pow 10 unit.toNat)
  (n / d, n % d, d)

-- The neighbour of `x` on the grid of `count` digits that reads back as `x`.
-- Of two such neighbours the nearer one, and of two equally near the even one.
def onGridOf (x : Double) (num den count : Nat) : Option Decimal :=
  let unit := leadOf num den - count + 1
  let (low, rest, whole) := onGrid num den unit
  let reads (n : Nat) : Bool := Double.ofDecimal x.negative n unit == some x
  let down := reads low
  let up := reads (low + 1)
  let upper := 2 * rest > whole || (2 * rest == whole && low % 2 == 1)
  if down && up then some ⟨if upper then low + 1 else low, unit⟩
  else if down then some ⟨low, unit⟩
  else if up then some ⟨low + 1, unit⟩
  else none

-- The first grid with a hit. The exact value stands in where no grid of up
-- to `17` digits has one.
def firstGrid (x : Double) (num den : Nat) : Nat → Nat → Decimal
  | 0, _ => if x.exponent ≥ 0 then ⟨num, 0⟩ else ⟨x.mantissa * Nat.pow 5 (-x.exponent).toNat, x.exponent⟩
  | fuel + 1, count =>
    match onGridOf x num den count with
    | some d => d
    | none => firstGrid x num den fuel (count + 1)

def shortest (x : Double) : Decimal :=
  if x.mantissa = 0 then ⟨0, 0⟩ else
    let (num, den) := x.magnitude
    let d := firstGrid x num den 17 1
    trimmed (Double.decimalLength d.digits) d

-- How a decimal is laid out: the powers of ten of the leading digit that are
-- written in place, and whether a whole number keeps its fraction.
structure Layout where
  inPlace : Int → Bool
  keepsFraction : Bool

def jsonLayout : Layout := ⟨fun lead => -5 ≤ lead && lead ≤ 15, true⟩

def plainLayout : Layout := ⟨fun _ => true, false⟩

def zeros (n : Nat) : String := String.ofList (List.replicate n '0')

def inPlaceText (layout : Layout) (digits : String) (exponent : Int) : String :=
  if exponent ≥ 0 then
    digits ++ zeros exponent.toNat ++ (if layout.keepsFraction then ".0" else "")
  else
    let places := (-exponent).toNat
    let length := digits.length
    if length > places then
      (digits.take (length - places)).toString ++ "." ++ (digits.drop (length - places)).toString
    else "0." ++ zeros (places - length) ++ digits

def poweredText (digits : String) (lead : Int) : String :=
  let fraction := (digits.drop 1).toString
  let mark := if lead < 0 then "-" else "+"
  (digits.take 1).toString ++ (if fraction = "" then "" else "." ++ fraction) ++ "e" ++ mark ++ toString lead.natAbs

def text (layout : Layout) (d : Decimal) : String :=
  let digits := toString d.digits
  let lead := d.exponent + digits.length - 1
  if d.digits = 0 then inPlaceText layout "0" 0
  else if layout.inPlace lead then inPlaceText layout digits d.exponent
  else poweredText digits lead

end Decimal

namespace Double

def render (layout : Decimal.Layout) (x : Double) : String :=
  (if x.negative then "-" else "") ++ (Decimal.shortest x).text layout

def jsonText (x : Double) : String := x.render Decimal.jsonLayout
def plainText (x : Double) : String := x.render Decimal.plainLayout

end Double
end SchemaAtlas
