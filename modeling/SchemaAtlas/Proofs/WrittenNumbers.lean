import SchemaAtlas.Proofs.Rounding
import SchemaAtlas.Script.Literal
import SchemaAtlas.Proofs.ScriptReading

namespace SchemaAtlas

-- Numbers as they are written, without a sign: digits, digits behind a point, and a
-- power of ten.

structure Power where
  capital : Bool
  sign : Option Bool
  digits : List Char

structure WrittenNumber where
  whole : List Char
  places : List Char := []
  power : Option Power := none

namespace Power

def mark (p : Power) : Char := if p.capital then 'E' else 'e'

def signText : Option Bool → List Char
  | none => []
  | some true => ['-']
  | some false => ['+']

def text (p : Power) : List Char := p.mark :: (signText p.sign ++ p.digits)

def exponent (p : Power) : Int :=
  if p.sign = some true then -(Nat.ofDigitChars 10 p.digits 0 : Int) else Nat.ofDigitChars 10 p.digits 0

end Power

namespace WrittenNumber

def placesText : List Char → List Char
  | [] => []
  | places => '.' :: places

def powerText : Option Power → List Char
  | none => []
  | some p => p.text

def text (n : WrittenNumber) : List Char := n.whole ++ (placesText n.places ++ powerText n.power)

def exponent (n : WrittenNumber) : Int := (n.power.map Power.exponent).getD 0 - n.places.length

def digits (n : WrittenNumber) : Nat := Nat.ofDigitChars 10 (n.whole ++ n.places) 0

def value (n : WrittenNumber) : ℚ := n.digits * 10 ^ n.exponent

def signed (negative : Bool) (n : WrittenNumber) : Int := if negative then -n.digits else n.digits

theorem natAbs_signed (negative : Bool) (n : WrittenNumber) : (n.signed negative).natAbs = n.digits := by
  cases negative <;> simp [signed]

def Plain (n : WrittenNumber) : Prop := n.places = [] ∧ n.power = none

structure WellFormed (n : WrittenNumber) : Prop where
  whole : n.whole ≠ [] ∧ ∀ c ∈ n.whole, Numeral.isDigit c = true
  leading : n.whole.head? = some '0' → n.whole = ['0']
  places : ∀ c ∈ n.places, Numeral.isDigit c = true
  power : ∀ p, n.power = some p → p.digits ≠ [] ∧ ∀ c ∈ p.digits, Numeral.isDigit c = true

end WrittenNumber

namespace Numeral

theorem digit_lt (digit : isDigit c = true) : c.toNat - 48 < 10 := by
  have high : c ≤ '9' := by simpa using (Bool.and_eq_true_iff.mp digit).2
  have : c.toNat ≤ 57 := by simpa [Char.le_def, UInt32.le_iff_toNat_le] using high
  omega

theorem digitValue?_digit (digit : isDigit c = true) : digitValue? 10 c = some (c.toNat - 48) := by
  simp [digitValue?, digit, digit_lt digit]

theorem foldlM_digits (cs : List Char) (start : Nat) (digits : ∀ c ∈ cs, isDigit c = true) :
    cs.foldlM (fun n c => (digitValue? 10 c).map (n * 10 + ·)) start = some (Nat.ofDigitChars 10 cs start) := by
  induction cs generalizing start with
  | nil => rfl
  | cons c rest ih =>
    obtain ⟨digit, others⟩ := List.forall_mem_cons.mp digits
    rw [List.foldlM_cons, digitValue?_digit digit, Nat.ofDigitChars_cons, Nat.mul_comm 10]
    exact ih _ others

theorem natural?_digits {cs : List Char} (long : cs ≠ []) (digits : ∀ c ∈ cs, isDigit c = true) :
    natural? 10 cs = some (Nat.ofDigitChars 10 cs 0) := by
  rw [natural?, if_neg long]
  exact foldlM_digits cs 0 digits

theorem natural?_other {front : List Char} (digits : ∀ c ∈ front, isDigit c = true) (other : digitValue? 10 c = none)
    (back : List Char) : natural? 10 (front ++ c :: back) = none := by
  rw [natural?, if_neg (by simp), List.foldlM_append, foldlM_digits front 0 digits]
  simp [List.foldlM_cons, other]

theorem afterSign_digits {digits : List Char} (all : ∀ c ∈ digits, isDigit c = true) (sign : Option Bool) :
    afterSign (Power.signText sign ++ digits) = (sign == some true, digits) := by
  rcases sign with _ | _ | _
  · cases digits with
    | nil => rfl
    | cons c rest =>
      have digit := all c List.mem_cons_self
      have minus : c ≠ '-' := by rintro rfl; cases digit
      have plus : c ≠ '+' := by rintro rfl; cases digit
      simp [Power.signText, afterSign, minus, plus]
  · rfl
  · rfl

theorem exponent?_power {p : Power} (digits : p.digits ≠ [] ∧ ∀ c ∈ p.digits, isDigit c = true) :
    exponent? ({ p with capital := false } : Power).text = some p.exponent := by
  rw [Power.text, exponent?, if_pos (.inl rfl), whole?, afterSign_digits digits.2]
  simp only [natural?_digits digits.1 digits.2, Power.exponent, beq_iff_eq]
  rfl

end Numeral

namespace WrittenNumber

variable {n : WrittenNumber}

def lowered (p : Power) : Power := { p with capital := false }

theorem toLower_digit (digit : Numeral.isDigit c = true) : c.toLower = c := by
  have high : c ≤ '9' := by simpa using (Bool.and_eq_true_iff.mp digit).2
  exact dif_neg fun letter => absurd (UInt32.le_trans letter.1 high) (by decide)

theorem lower_digits {digits : List Char} (all : ∀ c ∈ digits, Numeral.isDigit c = true) :
    (digits.filter (· != '_')).map Char.toLower = digits := by
  have kept : digits.filter (· != '_') = digits := by
    refine List.filter_eq_self.mpr fun c inside => bne_iff_ne.mpr ?_
    rintro rfl
    cases all _ inside
  rw [kept, List.map_congr_left fun c inside => toLower_digit (all c inside), List.map_id']

theorem lower_text (formed : n.WellFormed) : (n.text.filter (· != '_')).map Char.toLower =
    n.whole ++ (placesText n.places ++ powerText (n.power.map lowered)) := by
  have places : ((placesText n.places).filter (· != '_')).map Char.toLower = placesText n.places := by
    have digits := lower_digits formed.places
    cases split : n.places with
    | nil => rfl
    | cons c rest =>
      rw [split] at digits
      change Char.toLower '.' :: ((c :: rest).filter (· != '_')).map Char.toLower = _
      rw [digits]
      rfl
  have power : ((powerText n.power).filter (· != '_')).map Char.toLower = powerText (n.power.map lowered) := by
    cases split : n.power with
    | none => rfl
    | some p =>
      have digits := lower_digits (formed.power p split).2
      have sign : ((Power.signText p.sign).filter (· != '_')).map Char.toLower = Power.signText p.sign := by
        rcases p.sign with _ | _ | _ <;> rfl
      have mark : ([p.mark].filter (· != '_')).map Char.toLower = ['e'] := by
        rw [Power.mark]
        split <;> rfl
      change (([p.mark] ++ (Power.signText p.sign ++ p.digits)).filter (· != '_')).map Char.toLower = _
      rw [List.filter_append, List.filter_append, List.map_append, List.map_append, mark, sign, digits]
      rfl
  rw [text, List.filter_append, List.filter_append, List.map_append, List.map_append, lower_digits formed.whole.2,
    places, power]

theorem not_digit_point : Numeral.digitValue? 10 '.' = none := by decide
theorem not_digit_mark : Numeral.digitValue? 10 'e' = none := by decide

theorem natural?_plain (formed : n.WellFormed) (plain : n.Plain) :
    Numeral.natural? 10 (n.whole ++ (placesText n.places ++ powerText (n.power.map lowered))) = some n.digits := by
  obtain ⟨noPlaces, noPower⟩ := plain
  simp only [noPlaces, noPower, placesText, powerText, Option.map_none, List.append_nil, digits]
  exact Numeral.natural?_digits formed.whole.1 formed.whole.2

theorem natural?_not_plain (formed : n.WellFormed) (other : ¬ n.Plain) :
    Numeral.natural? 10 (n.whole ++ (placesText n.places ++ powerText (n.power.map lowered))) = none := by
  have stops : ∃ c back, placesText n.places ++ powerText (n.power.map lowered) = c :: back ∧
      Numeral.digitValue? 10 c = none := by
    cases point : n.places with
    | cons d ds => exact ⟨'.', _, rfl, not_digit_point⟩
    | nil =>
      cases power : n.power with
      | none => exact absurd ⟨point, power⟩ other
      | some p => exact ⟨'e', _, rfl, not_digit_mark⟩
  obtain ⟨c, back, split, bad⟩ := stops
  rw [split]
  exact Numeral.natural?_other formed.whole.2 bad back

theorem head_power (power : Option Power) :
    ∀ c ∈ (powerText (power.map lowered)).head?, Numeral.isDigit c = false := by
  cases power with
  | none => simp [powerText]
  | some p => simp [powerText, lowered, Power.text, Power.mark, Numeral.isDigit]

theorem exponent?_text (formed : n.WellFormed) :
    Numeral.exponent? (powerText (n.power.map lowered)) = some ((n.power.map Power.exponent).getD 0) := by
  cases split : n.power with
  | none => rfl
  | some p => exact Numeral.exponent?_power (formed.power p split)

theorem decimal?_text (formed : n.WellFormed) :
    Numeral.decimal? (n.whole ++ (placesText n.places ++ powerText (n.power.map lowered))) =
      some (n.digits, n.exponent) := by
  have power := exponent?_text formed
  have digits : Numeral.natural? 10 (n.whole ++ n.places) = some n.digits :=
    Numeral.natural?_digits (by simp [formed.whole.1]) (List.forall_mem_append.mpr ⟨formed.whole.2, formed.places⟩)
  have stops := head_power n.power
  unfold Numeral.decimal? exponent
  cases split : n.places with
  | nil =>
    rw [split, List.append_nil] at digits
    obtain ⟨front, back⟩ := Script.span_stop formed.whole.2 stops
    simp only [placesText, List.nil_append, front, back]
    split
    · next more same =>
      cases behind : n.power <;> rw [behind] at same <;> cases same
    · simp only [List.append_nil, digits, power, Option.bind_eq_bind, Option.bind_some, List.length_nil]
  | cons d ds =>
    rw [split] at digits
    have point : ∀ c ∈ ('.' :: d :: ds ++ powerText (n.power.map lowered)).head?, Numeral.isDigit c = false := by
      simp [Numeral.isDigit]
    obtain ⟨front, back⟩ := Script.span_stop formed.whole.2 point
    obtain ⟨places, rest⟩ := Script.span_stop (split ▸ formed.places) stops
    simp only [List.cons_append] at front back places rest
    simp only [placesText, List.cons_append, front, back, places, rest, digits, power, Option.bind_eq_bind,
      Option.bind_some]

theorem second_char (formed : n.WellFormed)
    (same : n.whole ++ (placesText n.places ++ powerText (n.power.map lowered)) = first :: second :: rest) :
    Numeral.isDigit second = true ∨ second = '.' ∨ second = 'e' := by
  cases split : n.whole with
  | nil => exact absurd split formed.whole.1
  | cons c cs =>
    rw [split, List.cons_append, List.cons.injEq] at same
    cases cs with
    | cons d ds =>
      cases same.2
      exact .inl (formed.whole.2 _ (split ▸ List.mem_cons_of_mem _ List.mem_cons_self))
    | nil =>
      have same := same.2
      cases point : n.places with
      | cons d ds =>
        rw [point] at same
        cases same
        exact .inr (.inl rfl)
      | nil =>
        cases power : n.power with
        | none =>
          rw [point, power] at same
          cases same
        | some p =>
          rw [point, power] at same
          cases same
          exact .inr (.inr rfl)

theorem numberOf?_eq (formed : n.WellFormed) : Script.numberOf? (String.ofList n.text) =
    (Script.wholeIn? 10 (n.whole ++ (placesText n.places ++ powerText (n.power.map lowered)))).or
      (Script.decimalOf? (n.whole ++ (placesText n.places ++ powerText (n.power.map lowered)))) := by
  unfold Script.numberOf?
  rw [String.toList_ofList, lower_text formed]
  dsimp only
  split
  · next same => exact absurd (second_char formed same) (by decide)
  · next same => exact absurd (second_char formed same) (by decide)
  · next same => exact absurd (second_char formed same) (by decide)
  · rfl

theorem numberOf?_whole (formed : n.WellFormed) (plain : n.Plain) (small : n.digits < 2 ^ 63) :
    Script.numberOf? (String.ofList n.text) = some (.whole n.digits) := by
  have small : n.digits < Nat.pow 2 63 := small
  rw [numberOf?_eq formed, Script.wholeIn?, natural?_plain formed plain, Option.bind_some, if_pos small]
  rfl

theorem numberOf?_double (formed : n.WellFormed) (other : n.Plain → 2 ^ 63 ≤ n.digits) (inRange : n.value < Double.overflow) :
    ∃ x, Script.numberOf? (String.ofList n.text) = some (.double x) ∧ x.negative = false ∧ x.Rounds n.value := by
  have notWhole : Script.wholeIn? 10 (n.whole ++ (placesText n.places ++ powerText (n.power.map lowered))) = none := by
    by_cases plain : n.Plain
    · have large : ¬ n.digits < Nat.pow 2 63 := not_lt.mpr (other plain)
      rw [Script.wholeIn?, natural?_plain formed plain, Option.bind_some, if_neg large]
    · rw [Script.wholeIn?, natural?_not_plain formed plain, Option.bind_none]
  obtain ⟨x, read, sign, rounds⟩ := Double.ofDecimal_rounds false n.digits n.exponent inRange
  refine ⟨x, ?_, sign, rounds⟩
  rw [numberOf?_eq formed, notWhole, Option.none_or, Script.decimalOf?, decimal?_text formed]
  simp only [Option.bind_eq_bind, Option.bind_some, read, Option.map_some]

end WrittenNumber

end SchemaAtlas
