import SchemaAtlas.Number.Numeral
import SchemaAtlas.Number.Shortest

namespace SchemaAtlas

-- A double, or what lies beyond the finite ones.
inductive ExtendedDouble where
  | finite (value : Double)
  | infinite (negative : Bool)
  | undefined
deriving DecidableEq, Repr, Inhabited

namespace ExtendedDouble

-- The double nearest to a decimal; one that is out of range is infinite.
def ofDecimal (negative : Bool) (digits : Nat) (exponent : Int) : ExtendedDouble :=
  match Double.ofDecimal negative digits exponent with
  | some x => .finite x
  | none => .infinite negative

def isZero : ExtendedDouble → Bool
  | .finite x => x.isZero
  | _ => false

def text : ExtendedDouble → String
  | .finite x => x.plainText
  | .infinite negative => if negative then "-inf" else "inf"
  | .undefined => "NaN"

-- The nearest count of 64 bits, a half going up. What is below zero or no
-- number counts nothing.
def toCount : ExtendedDouble → Nat
  | .finite x =>
    if x.negative then 0
    else
      let (num, den) := x.magnitude
      min ((2 * num + den) / (2 * den)) (Nat.pow 2 64 - 1)
  | .infinite negative => if negative then 0 else Nat.pow 2 64 - 1
  | .undefined => 0

def ofText? (text : String) : Option ExtendedDouble :=
  let (negative, cs) := Numeral.afterSign text.toList
  let word := String.ofList (cs.map Char.toLower)
  if word = "inf" ∨ word = "infinity" then some (.infinite negative)
  else if word = "nan" then some .undefined
  else (Numeral.decimal? cs).map fun (digits, exponent) => ofDecimal negative digits exponent

end ExtendedDouble
end SchemaAtlas
