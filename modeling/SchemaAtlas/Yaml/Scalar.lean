import SchemaAtlas.Json.Basic
import SchemaAtlas.Number.Extended

namespace SchemaAtlas
namespace Yaml

-- What a scalar without quotes stands for.

def based? : List Char → Option (Nat × List Char)
  | '0' :: 'x' :: digits => some (16, digits)
  | '0' :: 'o' :: digits => some (8, digits)
  | '0' :: 'b' :: digits => some (2, digits)
  | _ => none

def hasIdleZero (cs : List Char) : Bool :=
  let (_, digits) := Numeral.afterSign cs
  digits.length > 1 && digits.head? = some '0' && digits.all Numeral.isDigit

def whole? (cs : List Char) : Option Int := do
  let (negative, digits) := Numeral.afterSign cs
  let n ← match based? digits with
    | some (base, digits) => Numeral.natural? base digits
    | none => if hasIdleZero cs then none else Numeral.natural? 10 digits
  return if negative then -(n : Int) else n

-- Whole numbers go as far as 64 bits; up to 128 bits they are refused, and beyond
-- that they are doubles.
def wideWhole : Int → Option (Option Json)
  | n =>
    if Number.leastWhole ≤ n ∧ n ≤ Number.greatestWhole then some (some (.number (.whole n)))
    else if -(Nat.pow 2 127) ≤ n ∧ n < Nat.pow 2 128 then none
    else some none

def nonFinite (cs : List Char) : Bool :=
  let word := String.ofList cs
  [".inf", ".Inf", ".INF", "+.inf", "+.Inf", "+.INF", "-.inf", "-.Inf", "-.INF", ".nan", ".NaN", ".NAN"].contains word

def real? (cs : List Char) : Option Json := do
  let (negative, digits) := Numeral.afterSign cs
  let (n, exponent) ← Numeral.decimal? digits
  let x ← Double.ofDecimal negative n exponent
  return .number (.double x)

-- The value of a scalar without quotes, `none` where it is a number that cannot be held.
def plainValue? (text : String) : Option Json :=
  let cs := text.toList
  if ["", "~", "null", "Null", "NULL"].contains text then some .null
  else if ["true", "True", "TRUE"].contains text then some (.bool true)
  else if ["false", "False", "FALSE"].contains text then some (.bool false)
  else if nonFinite cs then some .null
  else
    let other := if hasIdleZero cs then Json.string text else (real? cs).getD (.string text)
    match whole? cs with
    | some n =>
      match wideWhole n with
      | some (some value) => some value
      | some none => some other
      | none => none
    | none => some other

end Yaml
end SchemaAtlas
