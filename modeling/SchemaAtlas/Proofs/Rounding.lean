import Mathlib.Data.Nat.Log
import Mathlib.Tactic.Linarith
import Mathlib.Tactic.FieldSimp
import Mathlib.Tactic.Positivity
import SchemaAtlas.Proofs.NumberValues

namespace SchemaAtlas
namespace Double

-- The double nearest to a size.

def size (x : Double) : ℚ := x.mantissa * 2 ^ x.exponent

-- Half a unit beyond the greatest double. What lies there or above is no double any more.
def overflow : ℚ := (2 ^ 53 - 1 / 2) * 2 ^ greatestExponent

theorem overflow_pos : 0 < overflow := mul_pos (by norm_num) (zpow_pos two_pos _)

-- No double is nearer to the size than `x`, and of two that are equally near `x` is the
-- even one.
structure Rounds (q : ℚ) (x : Double) : Prop where
  canonical : x.Canonical
  inRange : q < overflow
  nearest : ∀ y : Double, y.Canonical → |x.size - q| ≤ |y.size - q|
  even : ∀ y : Double, y.Canonical → y.size ≠ x.size → |x.size - q| = |y.size - q| → x.mantissa % 2 = 0

structure NearestWhole (q : ℚ) (m : Nat) : Prop where
  half : |m - q| ≤ 1 / 2
  even : |m - q| = 1 / 2 → m % 2 = 0

-- Half of the divisor at most is lost or won, and exactly half of it only by an even number.
theorem roundHalfEven_parts (num : Nat) {den : Nat} (positive : 0 < den) : ∃ kept lost : Int,
    (num : Int) = roundHalfEven num den * den + lost - kept ∧ 0 ≤ kept ∧ 0 ≤ lost ∧ (kept = 0 ∨ lost = 0) ∧
      2 * (kept + lost) ≤ den ∧ (2 * (kept + lost) = den → roundHalfEven num den % 2 = 0) := by
  have whole : (num : Int) = (num / den : Nat) * (den : Int) + (num % den : Nat) := by
    exact_mod_cast (Nat.div_add_mod' num den).symm
  have rest := Nat.mod_lt num positive
  unfold roundHalfEven
  dsimp only
  generalize num / den = quotient at whole
  generalize num % den = remainder at whole rest
  split
  · next up =>
    refine ⟨den - remainder, 0, ?_, by omega, le_refl 0, .inr rfl, ?_⟩
    · rw [whole]
      push_cast
      ring
    · simp only [Bool.or_eq_true, decide_eq_true_eq, Bool.and_eq_true, beq_iff_eq] at up
      omega
  · next down =>
    refine ⟨0, remainder, by rw [whole]; ring, le_refl 0, by omega, .inl rfl, ?_⟩
    simp only [Bool.or_eq_true, decide_eq_true_eq, Bool.and_eq_true, beq_iff_eq] at down
    omega

theorem roundHalfEven_nearest (num : Nat) {den : Nat} (positive : 0 < den) :
    NearestWhole (num / den) (roundHalfEven num den) := by
  obtain ⟨kept, lost, parts, keeps, loses, either, half, even⟩ := roundHalfEven_parts num positive
  generalize roundHalfEven num den = m at parts even
  have above : (0 : ℚ) < den := by exact_mod_cast positive
  have apart : |(m : ℚ) - num / den| = (kept + lost : Int) / den := by
    have exact : (m : ℚ) - num / den = (kept - lost : Int) / den := by
      have : (num : ℚ) = m * den + lost - kept := by exact_mod_cast parts
      rw [this]
      field_simp
      push_cast
      ring
    rw [exact, abs_div, abs_of_pos above]
    congr 1
    rw [← Int.cast_abs]
    congr 1
    rcases either with rfl | rfl
    · rw [zero_sub, abs_neg, abs_of_nonneg loses, zero_add]
    · rw [sub_zero, abs_of_nonneg keeps, add_zero]
  constructor
  · rw [apart, div_le_div_iff₀ above two_pos]
    exact_mod_cast (by omega : (kept + lost) * 2 ≤ 1 * den)
  · intro exact
    rw [apart, div_eq_div_iff (ne_of_gt above) two_ne_zero] at exact
    have exact : (kept + lost) * 2 = 1 * den := by exact_mod_cast exact
    exact even (by omega)

variable {q : ℚ} {m : Nat}

theorem NearestWhole.away (nearest : NearestWhole q m) {k : Nat} (other : k ≠ m) : 1 / 2 ≤ |k - q| := by
  have unit : (1 : ℚ) ≤ |(k : ℚ) - m| := by
    have : (1 : ℤ) ≤ |(k : ℤ) - m| := Int.one_le_abs (sub_ne_zero.mpr (by exact_mod_cast other))
    exact_mod_cast this
  have through := abs_add_le ((k : ℚ) - q) (q - m)
  rw [sub_add_sub_cancel, abs_sub_comm q] at through
  linarith [nearest.half]

theorem NearestWhole.le (nearest : NearestWhole q m) (k : Nat) : |m - q| ≤ |k - q| := by
  by_cases same : k = m
  · rw [same]
  · exact nearest.half.trans (nearest.away same)

theorem NearestWhole.even_of_eq (nearest : NearestWhole q m) {k : Nat} (other : k ≠ m) (same : |m - q| = |k - q|) :
    m % 2 = 0 :=
  nearest.even (le_antisymm nearest.half (same ▸ nearest.away other))

theorem scaled_pos (num : Nat) {den : Nat} (positive : 0 < den) (e : Int) : 0 < (scaled num den e).2 := by
  unfold scaled
  split
  · exact positive
  · exact Nat.mul_pos positive (Nat.pow_pos two_pos)

theorem scaled_quotient (num den : Nat) (e : Int) :
    ((scaled num den e).1 : ℚ) / (scaled num den e).2 = num / den / 2 ^ e := by
  unfold scaled
  split
  · next low =>
    obtain ⟨k, rfl⟩ : ∃ k : Nat, e = -k := ⟨(-e).toNat, by omega⟩
    simp [mul_div_right_comm]
  · next high =>
    obtain ⟨k, rfl⟩ : ∃ k : Nat, e = k := ⟨e.toNat, by omega⟩
    simp [div_div]

theorem log2_bounds {n : Nat} (positive : n ≠ 0) : (2 : ℚ) ^ (n.log2 : Int) ≤ n ∧ (n : ℚ) < 2 ^ (n.log2 + 1 : Int) := by
  constructor
  · exact_mod_cast Nat.log2_self_le positive
  · exact_mod_cast Nat.lt_log2_self (n := n)

-- The unit that leaves a quotient 53 bits, or less than that in the least unit.
structure Unit (q : ℚ) (e : Int) : Prop where
  least : leastExponent ≤ e
  high : q / 2 ^ e < 2 ^ 53
  low : 2 ^ 52 ≤ q / 2 ^ e ∨ e = leastExponent

theorem zpow_le_two {a b : Int} (le : a ≤ b) : (2 : ℚ) ^ a ≤ 2 ^ b := zpow_le_zpow_right₀ one_le_two le

theorem quotient_bounds {num den : Nat} (positive : num ≠ 0) (divides : den ≠ 0) :
    (2 : ℚ) ^ ((num.log2 : Int) - den.log2 - 1) ≤ num / den ∧
      (num : ℚ) / den < 2 ^ ((num.log2 : Int) - den.log2 + 1) := by
  obtain ⟨numLow, numHigh⟩ := log2_bounds positive
  obtain ⟨denLow, denHigh⟩ := log2_bounds divides
  have above : (0 : ℚ) < den := by exact_mod_cast Nat.pos_of_ne_zero divides
  constructor
  · rw [show (num.log2 : Int) - den.log2 - 1 = num.log2 - (den.log2 + 1) by omega, zpow_sub₀ two_ne_zero]
    exact div_le_div₀ (by positivity) numLow above (le_of_lt denHigh)
  · rw [show (num.log2 : Int) - den.log2 + 1 = (num.log2 + 1) - den.log2 by omega, zpow_sub₀ two_ne_zero]
    exact div_lt_div₀ numHigh denLow (le_of_lt (zpow_pos two_pos _)) (zpow_pos two_pos _)

theorem exponentFor_unit {num den : Nat} (positive : num ≠ 0) (divides : den ≠ 0) :
    Unit (num / den) (exponentFor num den) := by
  obtain ⟨low, high⟩ := quotient_bounds positive divides
  obtain ⟨guess, guessed⟩ : ∃ guess, max ((num.log2 : Int) - den.log2 - (53 : Nat)) leastExponent = guess := ⟨_, rfl⟩
  unfold exponentFor
  simp only [mantissaBits, guessed]
  have atLeast : leastExponent ≤ guess := guessed ▸ le_max_right _ _
  have wide : (num : ℚ) / den / 2 ^ guess < 2 ^ 54 := by
    rw [div_lt_iff₀ (zpow_pos two_pos _), ← zpow_natCast, ← zpow_add₀ two_ne_zero]
    exact high.trans_le (zpow_le_two (by omega))
  have tall : 2 ^ 52 ≤ (num : ℚ) / den / 2 ^ guess ∨ guess = leastExponent := by
    rcases max_choice ((num.log2 : Int) - den.log2 - (53 : Nat)) leastExponent with first | second
    · left
      rw [le_div_iff₀ (zpow_pos two_pos _), ← zpow_natCast, ← zpow_add₀ two_ne_zero]
      exact (zpow_le_two (by omega)).trans low
    · exact .inr (guessed.symm.trans second)
  have fits : (scaled num den guess).1 / (scaled num den guess).2 < Nat.pow 2 53 ↔
      (num : ℚ) / den / 2 ^ guess < 2 ^ 53 := by
    have above := scaled_pos num (Nat.pos_of_ne_zero divides) guess
    rw [← scaled_quotient, Nat.div_lt_iff_lt_mul above, div_lt_iff₀ (by exact_mod_cast above)]
    exact_mod_cast Iff.rfl
  split
  · next narrow => exact ⟨atLeast, fits.mp narrow, tall⟩
  · next broad =>
    have broad := not_lt.mp (mt fits.mpr broad)
    have halved : (num : ℚ) / den / 2 ^ (guess + 1) = num / den / 2 ^ guess / 2 := by
      rw [zpow_add_one₀ two_ne_zero, div_div _ _ (2 : ℚ)]
    refine ⟨by omega, ?_, .inl ?_⟩ <;> rw [halved] <;> linarith

-- The sizes of doubles in a unit: those of the same or a greater exponent are whole in it,
-- the others are small.

theorem size_units {y : Double} (le : e ≤ y.exponent) : ∃ k : Nat, y.size = k * 2 ^ e := by
  refine ⟨y.mantissa * 2 ^ (y.exponent - e).toNat, ?_⟩
  rw [size, show y.exponent = (y.exponent - e).toNat + e by omega, zpow_add₀ two_ne_zero, zpow_natCast]
  push_cast
  rw [mul_assoc, Int.toNat_of_nonneg (by omega), sub_add_cancel]

theorem size_small {y : Double} (canonical : y.Canonical) (lt : y.exponent < e) : y.size < 2 ^ 52 * 2 ^ e := by
  have mantissa : (y.mantissa : ℚ) < 2 ^ 53 := by exact_mod_cast canonical.1
  calc y.size < 2 ^ 53 * 2 ^ y.exponent := mul_lt_mul_of_pos_right mantissa (zpow_pos two_pos _)
    _ ≤ 2 ^ 53 * 2 ^ (e - 1) := mul_le_mul_of_nonneg_left (zpow_le_two (by omega)) (by positivity)
    _ = 2 ^ 52 * 2 ^ e := by rw [zpow_sub_one₀ two_ne_zero]; ring

theorem rounds_of_unit {x : Double} (canonical : x.Canonical) (inRange : q < overflow) (unit : Unit q e)
    (whole : NearestWhole (q / 2 ^ e) m) (same : x.size = m * 2 ^ e) (even : m % 2 = 0 → x.mantissa % 2 = 0) :
    Rounds q x := by
  have positive : (0 : ℚ) < 2 ^ e := zpow_pos two_pos _
  have units (k : ℚ) : |k * 2 ^ e - q| = |k - q / 2 ^ e| * 2 ^ e := by
    rw [← abs_of_pos positive, ← abs_mul, abs_of_pos positive, sub_mul, div_mul_cancel₀ _ (ne_of_gt positive)]
  -- A double that is not whole in this unit lies below all that a quotient of 53 bits is rounded to.
  have below {y : Double} (listed : y.Canonical) (lt : y.exponent < e) : |x.size - q| < |y.size - q| := by
    have low : 2 ^ 52 ≤ q / 2 ^ e := by
      refine unit.low.resolve_right fun least => ?_
      have := listed.2.1
      omega
    have small := size_small listed lt
    have bound : 2 ^ 52 * 2 ^ e ≤ q := (le_div_iff₀ positive).mp low
    have near : |x.size - q| ≤ |2 ^ 52 * 2 ^ e - q| := by
      rw [same, units, units]
      exact mul_le_mul_of_nonneg_right (by exact_mod_cast whole.le (2 ^ 52)) (le_of_lt positive)
    rw [abs_of_nonpos (sub_nonpos.mpr bound)] at near
    rw [abs_of_neg (by linarith : y.size - q < 0)]
    linarith
  refine ⟨canonical, inRange, fun y listed => ?_, fun y listed other equal => ?_⟩
  · rcases le_or_gt e y.exponent with le | lt
    · obtain ⟨k, units'⟩ := size_units le
      rw [same, units', units, units]
      exact mul_le_mul_of_nonneg_right (whole.le k) (le_of_lt positive)
    · exact le_of_lt (below listed lt)
  · rcases le_or_gt e y.exponent with le | lt
    · obtain ⟨k, units'⟩ := size_units le
      rw [same, units', units, units] at equal
      refine even (whole.even_of_eq (fun apart => other ?_) (mul_right_cancel₀ (ne_of_gt positive) equal))
      rw [same, units', apart]
    · exact absurd equal (ne_of_lt (below listed lt))

theorem canonical_zero (negative : Bool) : (zero negative).Canonical := by decide +revert

theorem size_zero (negative : Bool) : (zero negative).size = 0 := by simp [zero, size]

theorem rounds_zero (negative : Bool) : Rounds 0 (zero negative) := by
  have nothing := size_zero negative
  refine ⟨canonical_zero negative, overflow_pos, fun y _ => ?_, fun _ _ _ _ => rfl⟩
  rw [nothing, sub_zero, abs_zero]
  exact abs_nonneg _

theorem Unit.whole_bounds (unit : Unit q e) (whole : NearestWhole (q / 2 ^ e) m) :
    m ≤ 2 ^ 53 ∧ (2 ^ 52 ≤ m ∨ e = leastExponent) := by
  obtain ⟨low, high⟩ := abs_le.mp whole.half
  constructor
  · have : (m : ℚ) < 2 ^ 53 + 1 := by linarith [unit.high]
    have : m < 2 ^ 53 + 1 := by exact_mod_cast this
    omega
  · refine unit.low.imp_left fun tall => ?_
    have : (2 ^ 52 : ℚ) < m + 1 := by linarith
    have : 2 ^ 52 < m + 1 := by exact_mod_cast this
    omega

theorem Unit.exponent_le (unit : Unit q e) (whole : NearestWhole (q / 2 ^ e) m) (inRange : q < overflow) :
    e ≤ greatestExponent ∧ (m = 2 ^ 53 → e < greatestExponent) := by
  have positive : (0 : ℚ) < 2 ^ e := zpow_pos two_pos _
  have least : leastExponent < greatestExponent := by decide
  constructor
  · by_contra great
    have tall := (le_div_iff₀ positive).mp (unit.low.resolve_right (by omega))
    have next : (2 : ℚ) ^ (greatestExponent + 1) ≤ 2 ^ e := zpow_le_two (by omega)
    rw [zpow_add_one₀ two_ne_zero] at next
    have unit : (0 : ℚ) < 2 ^ greatestExponent := zpow_pos two_pos _
    rw [overflow] at inRange
    nlinarith
  · rintro rfl
    by_contra great
    have next : (2 : ℚ) ^ greatestExponent ≤ 2 ^ e := zpow_le_two (by omega)
    have half := (abs_le.mp whole.half).2
    have tall : (2 ^ 53 - 1 / 2) * 2 ^ e ≤ q := (le_div_iff₀ positive).mp (by push_cast at half; linarith)
    have : overflow ≤ (2 ^ 53 - 1 / 2) * 2 ^ e := mul_le_mul_of_nonneg_left next (by norm_num)
    linarith

theorem ofQuotient_rounds (negative : Bool) (num : Nat) {den : Nat} (positive : 0 < den)
    (inRange : (num : ℚ) / den < overflow) :
    ∃ x, ofQuotient negative num den = some x ∧ x.negative = negative ∧ Rounds (num / den) x := by
  unfold ofQuotient
  by_cases nothing : num = 0
  · refine ⟨zero negative, by rw [if_pos nothing], rfl, ?_⟩
    rw [nothing, Nat.cast_zero, zero_div]
    exact rounds_zero negative
  · have unit := exponentFor_unit nothing (Nat.ne_of_gt positive)
    have whole := roundHalfEven_nearest (scaled num den (exponentFor num den)).1
      (scaled_pos num positive (exponentFor num den))
    rw [scaled_quotient] at whole
    rw [if_neg nothing]
    dsimp only
    generalize exponentFor num den = e at unit whole
    generalize roundHalfEven _ _ = m at whole
    obtain ⟨bits, tall⟩ := unit.whole_bounds whole
    obtain ⟨small, carried⟩ := unit.exponent_le whole inRange
    by_cases carry : m = Nat.pow 2 mantissaBits
    · have carried : e + 1 ≤ greatestExponent := carried carry
      have least := unit.least
      have even : Nat.pow 2 (mantissaBits - 1) % 2 = 0 := by decide
      refine ⟨⟨negative, Nat.pow 2 (mantissaBits - 1), e + 1⟩, ?_, rfl,
        rounds_of_unit ?_ inRange unit whole ?_ fun _ => even⟩
      · simp only [if_pos carry, if_neg (not_lt.mpr carried)]
      · exact ⟨Nat.pow_lt_pow_right (le_refl 2) (by decide), Int.le_add_one least, carried, .inl (le_refl _)⟩
      · rw [carry, size, zpow_add_one₀ two_ne_zero]
        simp only [mantissaBits, Nat.pow_eq]
        push_cast
        ring
    · refine ⟨⟨negative, m, e⟩, ?_, rfl, rounds_of_unit ?_ inRange unit whole rfl id⟩
      · simp only [if_neg carry, if_neg (not_lt.mpr small)]
      · exact ⟨lt_of_le_of_ne bits carry, unit.least, small, tall⟩

theorem decimalLength_bounds (positive : n ≠ 0) :
    (10 : ℚ) ^ ((decimalLength n : Int) - 1) ≤ n ∧ (n : ℚ) < 10 ^ (decimalLength n : Int) := by
  have long : 0 < decimalLength n := Nat.length_toDigits_pos
  have ten : 1 < 10 := by decide
  constructor
  · rw [show (decimalLength n : Int) - 1 = (decimalLength n - 1 : Nat) by omega, zpow_natCast]
    by_cases one : decimalLength n - 1 = 0
    · rw [one, pow_zero]
      exact_mod_cast Nat.pos_of_ne_zero positive
    · have longer : ¬ decimalLength n ≤ decimalLength n - 1 := by omega
      exact_mod_cast not_lt.mp (mt (Nat.length_toDigits_le_iff ten (Nat.pos_of_ne_zero one)).mpr longer)
  · rw [zpow_natCast]
    exact_mod_cast (Nat.length_toDigits_le_iff ten long).mp (le_refl (decimalLength n))

theorem overflow_lt : overflow < 10 ^ (400 : Int) := by
  have wide : (2 : ℚ) ^ (1024 : Nat) ≤ 10 ^ (400 : Nat) := by
    rw [show 1024 = 64 * 16 by rfl, show 400 = 25 * 16 by rfl, pow_mul, pow_mul]
    exact pow_le_pow_left₀ (by norm_num) (by norm_num) 16
  calc overflow < 2 ^ 53 * 2 ^ greatestExponent := mul_lt_mul_of_pos_right (by norm_num) (zpow_pos two_pos _)
    _ = 2 ^ (1024 : Nat) := by
      rw [greatestExponent, show (971 : Int) = (971 : Nat) by rfl, zpow_natCast, ← pow_add]
    _ ≤ 10 ^ (400 : Int) := wide

theorem least_gt : (10 : ℚ) ^ (-401 : Int) < 2 ^ leastExponent / 2 := by
  have wide : (2 : ℚ) ^ (1075 : Nat) < 10 ^ (401 : Nat) := by
    calc (2 : ℚ) ^ (1075 : Nat) ≤ 2 ^ (64 * 17) := pow_le_pow_right₀ one_le_two (by decide)
      _ = (2 ^ 64) ^ 17 := pow_mul _ _ _
      _ ≤ (10 ^ 20) ^ 17 := pow_le_pow_left₀ (by norm_num) (by norm_num) 17
      _ = 10 ^ (20 * 17) := (pow_mul _ _ _).symm
      _ < 10 ^ 401 := pow_lt_pow_right₀ (by norm_num) (by decide)
  rw [leastExponent, div_eq_mul_inv, ← zpow_sub_one₀ two_ne_zero, show (-1074 : Int) - 1 = -(1075 : Nat) by rfl,
    show (-401 : Int) = -(401 : Nat) by rfl, zpow_neg, zpow_neg, zpow_natCast, zpow_natCast]
  exact inv_strictAnti₀ (pow_pos two_pos _) wide

theorem rounds_tiny (negative : Bool) (positive : 0 ≤ q) (tiny : q < 2 ^ leastExponent / 2) : Rounds q (zero negative) := by
  have least : (0 : ℚ) < 2 ^ leastExponent := zpow_pos two_pos _
  refine ⟨canonical_zero negative, ?_, fun y listed => ?_, fun _ _ _ _ => rfl⟩
  · have order : (2 : ℚ) ^ leastExponent ≤ 2 ^ greatestExponent := zpow_le_two (by decide)
    rw [overflow]
    linarith
  · rw [size_zero, zero_sub, abs_neg, abs_of_nonneg positive]
    by_cases nothing : y.mantissa = 0
    · rw [size, nothing, Nat.cast_zero, zero_mul, zero_sub, abs_neg, abs_of_nonneg positive]
    · have one : (1 : ℚ) ≤ y.mantissa := by exact_mod_cast Nat.pos_of_ne_zero nothing
      have order : (2 : ℚ) ^ leastExponent ≤ 2 ^ y.exponent := zpow_le_two listed.2.1
      have apart : 2 ^ leastExponent ≤ y.size := order.trans (le_mul_of_one_le_left (le_of_lt (zpow_pos two_pos _)) one)
      rw [abs_of_pos (by linarith)]
      linarith

theorem ofDecimal_rounds (negative : Bool) (digits : Nat) (exponent : Int)
    (inRange : (digits : ℚ) * 10 ^ exponent < overflow) :
    ∃ x, ofDecimal negative digits exponent = some x ∧ x.negative = negative ∧ Rounds (digits * 10 ^ exponent) x := by
  unfold ofDecimal
  by_cases nothing : digits = 0
  · refine ⟨zero negative, by rw [if_pos nothing], rfl, ?_⟩
    rw [nothing, Nat.cast_zero, zero_mul]
    exact rounds_zero negative
  · obtain ⟨low, high⟩ := decimalLength_bounds nothing
    have positive : (0 : ℚ) < 10 ^ exponent := zpow_pos (by norm_num) _
    rw [if_neg nothing]
    dsimp only
    have ten : (10 : ℚ) ≠ 0 := by norm_num
    split
    · next great =>
      have far : (10 : ℚ) ^ (400 : Int) ≤ digits * 10 ^ exponent :=
        calc (10 : ℚ) ^ (400 : Int) ≤ 10 ^ ((decimalLength digits : Int) - 1 + exponent) :=
              zpow_le_zpow_right₀ (by norm_num) (by omega)
          _ = 10 ^ ((decimalLength digits : Int) - 1) * 10 ^ exponent := zpow_add₀ ten _ _
          _ ≤ digits * 10 ^ exponent := mul_le_mul_of_nonneg_right low (le_of_lt positive)
      linarith [overflow_lt]
    · split
      · next small =>
        refine ⟨zero negative, rfl, rfl, rounds_tiny negative (by positivity) ?_⟩
        calc (digits : ℚ) * 10 ^ exponent < 10 ^ (decimalLength digits : Int) * 10 ^ exponent :=
              mul_lt_mul_of_pos_right high positive
          _ = 10 ^ ((decimalLength digits : Int) + exponent) := (zpow_add₀ ten _ _).symm
          _ ≤ 10 ^ (-401 : Int) := zpow_le_zpow_right₀ (by norm_num) (by omega)
          _ < 2 ^ leastExponent / 2 := least_gt
      · split
        · next down =>
          obtain ⟨k, rfl⟩ : ∃ k : Nat, exponent = -k := ⟨(-exponent).toNat, by omega⟩
          have same : (digits : ℚ) * 10 ^ (-k : Int) = digits / (Nat.pow 10 k : Nat) := by
            rw [zpow_neg, zpow_natCast, ← div_eq_mul_inv]
            simp
          rw [same] at inRange ⊢
          rw [neg_neg, Int.toNat_natCast]
          exact ofQuotient_rounds negative digits (Nat.pow_pos (by decide)) inRange
        · next up =>
          obtain ⟨k, rfl⟩ : ∃ k : Nat, exponent = k := ⟨exponent.toNat, by omega⟩
          have same : (digits : ℚ) * 10 ^ (k : Int) = (digits * Nat.pow 10 k : Nat) / (1 : Nat) := by
            rw [zpow_natCast]
            simp
          rw [same] at inRange ⊢
          rw [Int.toNat_natCast]
          exact ofQuotient_rounds negative (digits * Nat.pow 10 k) Nat.one_pos inRange

theorem size_large {y : Double} (canonical : y.Canonical) (above : leastExponent < y.exponent) :
    2 ^ 52 * 2 ^ y.exponent ≤ y.size := by
  have full : 2 ^ 52 ≤ y.mantissa := canonical.2.2.2.resolve_right (ne_of_gt above)
  exact mul_le_mul_of_nonneg_right (by exact_mod_cast full) (le_of_lt (zpow_pos two_pos _))

theorem exponent_le_of_size {x y : Double} (hx : x.Canonical) (hy : y.Canonical) (same : x.size = y.size) :
    y.exponent ≤ x.exponent := by
  by_contra lt
  have small := size_small hx (not_le.mp lt)
  have large := size_large hy (lt_of_le_of_lt hx.2.1 (not_le.mp lt))
  linarith

theorem size_injective {x y : Double} (hx : x.Canonical) (hy : y.Canonical) (same : x.size = y.size) :
    x.mantissa = y.mantissa ∧ x.exponent = y.exponent := by
  have exponents := le_antisymm (exponent_le_of_size hy hx same.symm) (exponent_le_of_size hx hy same)
  rw [size, size, exponents] at same
  exact ⟨by exact_mod_cast mul_right_cancel₀ (ne_of_gt (zpow_pos two_pos _)) same, exponents⟩

theorem size_next {x y : Double} (hx : x.Canonical) (hy : y.Canonical) (lt : x.size < y.size) :
    (x.mantissa + 1) * 2 ^ x.exponent ≤ y.size := by
  have positive : (0 : ℚ) < 2 ^ x.exponent := zpow_pos two_pos _
  have inside : x.exponent ≤ y.exponent := by
    by_contra below
    have small := size_small hy (not_le.mp below)
    have large := size_large hx (lt_of_le_of_lt hy.2.1 (not_le.mp below))
    linarith
  obtain ⟨k, units⟩ := size_units inside
  rw [units, size] at lt
  have more : x.mantissa + 1 ≤ k := by exact_mod_cast lt_of_mul_lt_mul_right lt (le_of_lt positive)
  rw [units]
  exact mul_le_mul_of_nonneg_right (by exact_mod_cast more) (le_of_lt positive)

theorem Rounds.not_below {x y : Double} (hx : x.Rounds q) (hy : y.Rounds q) : ¬ x.size < y.size := by
  intro lt
  have apart : |x.size - q| = |y.size - q| := le_antisymm (hx.nearest y hy.canonical) (hy.nearest x hx.canonical)
  have evenX := hx.even y hy.canonical (ne_of_gt lt) apart
  have evenY := hy.even x hx.canonical (ne_of_lt lt) apart.symm
  have next : ({ x with mantissa := x.mantissa + 1 } : Double).Canonical := by
    obtain ⟨fits, least, greatest, full⟩ := hx.canonical
    have bound : Nat.pow 2 mantissaBits = 2 ^ 53 := rfl
    refine ⟨?_, least, greatest, full.imp_left Nat.le_succ_of_le⟩
    rw [bound] at fits ⊢
    dsimp only
    omega
  have size_eq : ({ x with mantissa := x.mantissa + 1 } : Double).size = (x.mantissa + 1) * 2 ^ x.exponent := by
    simp [size]
  have reaches := size_next hx.canonical hy.canonical lt
  have above : x.size < (x.mantissa + 1) * 2 ^ x.exponent := by
    rw [size]
    exact mul_lt_mul_of_pos_right (by linarith) (zpow_pos two_pos _)
  have middle : q - x.size = y.size - q := by
    rcases abs_eq_abs.mp apart with same | same
    · linarith
    · linarith
  -- A double strictly between the two would be nearer than both.
  have nearest := hx.nearest _ next
  rw [size_eq, abs_sub_comm, abs_of_pos (by linarith : 0 < q - x.size), le_abs] at nearest
  have same : ({ x with mantissa := x.mantissa + 1 } : Double).size = y.size := by
    rw [size_eq]
    rcases nearest with far | far <;> linarith
  have odd := (size_injective next hy.canonical same).1
  dsimp only at odd
  omega

theorem Rounds.unique {x y : Double} (hx : x.Rounds q) (hy : y.Rounds q) (sign : x.negative = y.negative) : x = y := by
  have same : x.size = y.size := le_antisymm (not_lt.mp (hy.not_below hx)) (not_lt.mp (hx.not_below hy))
  obtain ⟨mantissas, exponents⟩ := size_injective hx.canonical hy.canonical same
  obtain ⟨_, _, _⟩ := x
  obtain ⟨_, _, _⟩ := y
  dsimp only at sign mantissas exponents
  rw [sign, mantissas, exponents]

end Double
end SchemaAtlas
