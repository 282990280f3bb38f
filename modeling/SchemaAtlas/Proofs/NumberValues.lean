import Mathlib.Algebra.Order.Field.Basic
import Mathlib.Data.Rat.Cast.Order
import Mathlib.Tactic.NormNum
import Mathlib.Tactic.Ring
import SchemaAtlas.Json.Basic

namespace SchemaAtlas

-- The exact values of numbers. A whole number that fits the bits of a double keeps its value there.

def Double.value (x : Double) : ℚ := (if x.negative then -1 else 1) * x.mantissa * 2 ^ x.exponent

def Number.value : Number → ℚ
  | .whole n => n
  | .double x => x.value

namespace Double

theorem roundHalfEven_one (n : Nat) : roundHalfEven n 1 = n := by
  simp [roundHalfEven, Nat.mod_one]

theorem scaled_by {n bits : Nat} (narrow : n.log2 ≤ bits) :
    scaled n 1 ((n.log2 : Int) - bits) = (n * Nat.pow 2 (bits - n.log2), 1) := by
  rw [scaled, if_pos (by omega), show (-((n.log2 : Int) - bits)).toNat = bits - n.log2 by omega]

theorem exponentFor_one {n : Nat} (positive : n ≠ 0) (narrow : n.log2 ≤ 52) :
    exponentFor n 1 = (n.log2 : Int) - (52 : Nat) := by
  have guess : max ((n.log2 : Int) - ((1 : Nat).log2 : Int) - (53 : Nat)) leastExponent = n.log2 - (53 : Nat) := by
    rw [show Nat.log2 1 = 0 by decide, leastExponent]
    omega
  have wide : ¬ n * Nat.pow 2 (53 - n.log2) < Nat.pow 2 53 := by
    have low := Nat.mul_le_mul_right (2 ^ (53 - n.log2)) (Nat.log2_self_le positive)
    rw [← Nat.pow_add, show n.log2 + (53 - n.log2) = 53 by omega] at low
    exact Nat.not_lt_of_le low
  unfold exponentFor
  simp only [mantissaBits, guess, scaled_by (Nat.le_succ_of_le narrow), Nat.div_one, if_neg wide]
  omega

theorem ofQuotient_one {n : Nat} (positive : n ≠ 0) (narrow : n.log2 ≤ 52) (negative : Bool) :
    ofQuotient negative n 1 = some ⟨negative, n * Nat.pow 2 (52 - n.log2), (n.log2 : Int) - (52 : Nat)⟩ := by
  have fits : n * Nat.pow 2 (52 - n.log2) < Nat.pow 2 53 := by
    have high := Nat.mul_lt_mul_of_pos_right (Nat.lt_log2_self (n := n)) (Nat.two_pow_pos (52 - n.log2))
    rwa [← Nat.pow_add, show n.log2 + 1 + (52 - n.log2) = 53 by omega] at high
  have inRange : ¬ (n.log2 : Int) - (52 : Nat) > greatestExponent := by
    simp only [greatestExponent]
    omega
  unfold ofQuotient
  simp only [if_neg positive, exponentFor_one positive narrow, scaled_by narrow, roundHalfEven_one, mantissaBits,
    if_neg (Nat.ne_of_lt fits), if_neg inRange]

theorem value_ofInt {n : Int} (narrow : n.natAbs < 2 ^ 53) : (ofInt n).value = n := by
  by_cases zero : n = 0
  · subst zero
    simp [ofInt, ofQuotient, Double.zero, value]
  · have positive : n.natAbs ≠ 0 := Int.natAbs_ne_zero.mpr zero
    have bits : n.natAbs.log2 ≤ 52 := Nat.le_of_lt_succ ((Nat.log2_lt positive).mpr narrow)
    have size : ((n.natAbs * Nat.pow 2 (52 - n.natAbs.log2) : Nat) : ℚ) * 2 ^ ((n.natAbs.log2 : Int) - (52 : Nat)) =
        (n.natAbs : ℚ) := by
      rw [show (n.natAbs.log2 : Int) - (52 : Nat) = -((52 - n.natAbs.log2 : Nat) : Int) by omega, zpow_neg, zpow_natCast]
      simp
    have sign : (if decide (n < 0) then -1 else 1) * (n.natAbs : ℚ) = n := by
      by_cases below : n < 0
      · simp [below, Nat.cast_natAbs, abs_of_neg below]
      · simp [below, Nat.cast_natAbs, abs_of_nonneg (Int.not_lt.mp below)]
    rw [ofInt, ofQuotient_one positive bits, Option.getD_some, value, mul_assoc, size]
    exact sign

theorem value_ofInt_wide : (ofInt 9007199254740993).value = 9007199254740992 := by
  rw [show ofInt 9007199254740993 = ⟨false, 4503599627370496, 1⟩ by decide +kernel]
  norm_num [value]

end Double
end SchemaAtlas
