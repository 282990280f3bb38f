namespace SchemaAtlas

-- Finite doubles as data: nothing below uses machine floating point, so every
-- value and every rounding step is visible to a proof.

structure Double where
  negative : Bool
  mantissa : Nat
  exponent : Int
deriving DecidableEq, Repr, Inhabited

namespace Double

def mantissaBits : Nat := 53
def leastExponent : Int := -1074
def greatestExponent : Int := 971

-- The one written form of each value: 53 significant bits, or fewer at the
-- least exponent.
def Canonical (x : Double) : Prop :=
  x.mantissa < Nat.pow 2 mantissaBits ∧ leastExponent ≤ x.exponent ∧ x.exponent ≤ greatestExponent ∧
    (Nat.pow 2 (mantissaBits - 1) ≤ x.mantissa ∨ x.exponent = leastExponent)

instance (x : Double) : Decidable x.Canonical := by unfold Canonical; infer_instance

def zero (negative : Bool) : Double := ⟨negative, 0, leastExponent⟩
def isZero (x : Double) : Bool := x.mantissa == 0
def negate (x : Double) : Double := { x with negative := !x.negative }

-- Zeros are equal whatever their sign; other values are equal as written.
def agrees (x y : Double) : Bool := (x.isZero && y.isZero) || x == y

def scaled (num den : Nat) (exponent : Int) : Nat × Nat :=
  if exponent ≤ 0 then (num * Nat.pow 2 (-exponent).toNat, den) else (num, den * Nat.pow 2 exponent.toNat)

-- The nearest natural number; of two equally near ones, the even one.
def roundHalfEven (num den : Nat) : Nat :=
  let q := num / den
  let r := num % den
  if 2 * r > den || (2 * r == den && q % 2 == 1) then q + 1 else q

def exponentFor (num den : Nat) : Int :=
  let guess := max ((num.log2 : Int) - (den.log2 : Int) - mantissaBits) leastExponent
  let (n, d) := scaled num den guess
  if n / d < Nat.pow 2 mantissaBits then guess else guess + 1

def ofQuotient (negative : Bool) (num den : Nat) : Option Double :=
  if num = 0 then some (zero negative) else
    let e := exponentFor num den
    let (n, d) := scaled num den e
    let m := roundHalfEven n d
    let (m, e) := if m = Nat.pow 2 mantissaBits then (Nat.pow 2 (mantissaBits - 1), e + 1) else (m, e)
    if e > greatestExponent then none else some ⟨negative, m, e⟩

-- The number of decimal digits; zero has one.
def decimalLength (n : Nat) : Nat := (Nat.toDigits 10 n).length

-- The double nearest to `digits * 10 ^ exponent`. Exponents far outside the
-- range of doubles are settled by the number of digits alone.
def ofDecimal (negative : Bool) (digits : Nat) (exponent : Int) : Option Double :=
  if digits = 0 then some (zero negative) else
    let lead := exponent + decimalLength digits
    if lead > 400 then none
    else if lead < -400 then some (zero negative)
    else if exponent ≤ 0 then ofQuotient negative digits (Nat.pow 10 (-exponent).toNat)
    else ofQuotient negative (digits * Nat.pow 10 exponent.toNat) 1

def ofInt (n : Int) : Double := (ofQuotient (n < 0) n.natAbs 1).getD (zero false)

def magnitude (x : Double) : Nat × Nat :=
  if x.exponent ≥ 0 then (x.mantissa * Nat.pow 2 x.exponent.toNat, 1) else (x.mantissa, Nat.pow 2 (-x.exponent).toNat)

end Double
end SchemaAtlas
