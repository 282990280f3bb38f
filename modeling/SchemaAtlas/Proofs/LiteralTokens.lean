import Mathlib.Tactic.IntervalCases
import SchemaAtlas.Proofs.LiteralTexts

namespace SchemaAtlas
namespace Script

-- The first token of a literal.

open Reading (Ends)

variable {tail : List Char}

def Breaks (rest : List Char) : Prop := ∀ c ∈ rest.head?, isNameChar c = false ∧ c ≠ '\\' ∧ c ≠ '.'

theorem ends_breaks (ends : Ends tail) : Breaks tail := by
  rcases ends with rfl | ⟨x, rest, rfl, closing⟩
  · simp [Breaks]
  · intro c head
    cases head
    simp only [List.mem_cons, List.not_mem_nil, or_false] at closing
    rcases closing with rfl | rfl | rfl | rfl | rfl <;> decide

theorem nameLength_cons (other : c ≠ '\\') (rest : List Char) :
    nameLength false (c :: rest) = if isNameChar c then nameLength false rest + 1 else 0 := by
  rw [nameLength.eq_def]
  split
  · next same =>
    cases same
    exact absurd rfl other
  · next same =>
    cases same
    exact absurd rfl other
  · next same =>
    cases same
    rfl
  · next same => cases same

theorem nameLength_word {word : List Char} (inside : ∀ c ∈ word, isNameChar c = true)
    (stops : ∀ c ∈ tail.head?, isNameChar c = false ∧ c ≠ '\\') : nameLength false (word ++ tail) = word.length := by
  induction word with
  | nil =>
    cases tail with
    | nil => rfl
    | cons c rest =>
      obtain ⟨other, plain⟩ := stops c rfl
      rw [List.nil_append, nameLength_cons plain, other]
      rfl
  | cons c word ih =>
    obtain ⟨name, others⟩ := List.forall_mem_cons.mp inside
    have plain : c ≠ '\\' := by
      rintro rfl
      exact absurd name (by decide)
    rw [List.cons_append, nameLength_cons plain, if_pos name, ih others, List.length_cons]

def tenDigits : List Char := ['0', '1', '2', '3', '4', '5', '6', '7', '8', '9']

theorem digit_listed (digit : Numeral.isDigit c = true) : c ∈ tenDigits := by
  have bounds := Bool.and_eq_true_iff.mp digit
  have low : 48 ≤ c.toNat := by simpa [Char.le_def, UInt32.le_iff_toNat_le] using bounds.1
  have high : c.toNat ≤ 57 := by simpa [Char.le_def, UInt32.le_iff_toNat_le] using bounds.2
  rw [← Char.ofNat_toNat c]
  generalize c.toNat = n at low high
  interval_cases n <;> decide

theorem digit_name (digit : Numeral.isDigit c = true) : isNameChar c = true ∧ c ≠ 'e' ∧ c ≠ 'E' ∧ c ≠ 'n' := by
  have all : (tenDigits.all fun c => isNameChar c && c != 'e' && c != 'E' && c != 'n') = true := rfl
  simpa [and_assoc] using List.all_eq_true.mp all c (digit_listed digit)

theorem digitsLength_cons (plain : c ≠ 'e' ∧ c ≠ 'E') (name : isNameChar c = true) (rest : List Char) :
    digitsLength false (c :: rest) = digitsLength false rest + 1 := by
  obtain ⟨small, capital⟩ := plain
  cases rest with
  | nil => simp [digitsLength, name]
  | cons d rest => simp [digitsLength, name, small, capital]

theorem digitsLength_digits {digits : List Char} (all : ∀ c ∈ digits, Numeral.isDigit c = true) (rest : List Char) :
    digitsLength false (digits ++ rest) = digits.length + digitsLength false rest := by
  induction digits with
  | nil => simp
  | cons c digits ih =>
    obtain ⟨digit, others⟩ := List.forall_mem_cons.mp all
    obtain ⟨name, small, capital, -⟩ := digit_name digit
    rw [List.cons_append, digitsLength_cons ⟨small, capital⟩ name, ih others, List.length_cons]
    omega

theorem digitsLength_stop (stops : ∀ c ∈ tail.head?, isNameChar c = false) : digitsLength false tail = 0 := by
  cases tail with
  | nil => rfl
  | cons c rest =>
    have other := stops c rfl
    have small : c ≠ 'e' := by
      rintro rfl
      exact absurd other (by decide)
    have capital : c ≠ 'E' := by
      rintro rfl
      exact absurd other (by decide)
    cases rest with
    | nil => simp [digitsLength, other]
    | cons d rest => simp [digitsLength, other, small, capital]

theorem digitsLength_power {power : Option Power}
    (formed : ∀ p, power = some p → p.digits ≠ [] ∧ ∀ c ∈ p.digits, Numeral.isDigit c = true)
    (stops : ∀ c ∈ tail.head?, isNameChar c = false) :
    digitsLength false (WrittenNumber.powerText power ++ tail) = (WrittenNumber.powerText power).length := by
  cases power with
  | none => exact digitsLength_stop stops
  | some p =>
    obtain ⟨long, digits⟩ := formed p rfl
    have rest : digitsLength false (p.digits ++ tail) = p.digits.length := by
      rw [digitsLength_digits digits, digitsLength_stop stops, Nat.add_zero]
    cases split : p.digits with
    | nil => exact absurd split long
    | cons d ds =>
      rw [split, List.cons_append, List.length_cons] at rest
      have notSign : d ≠ '+' ∧ d ≠ '-' := by
        have all : (tenDigits.all fun c => c != '+' && c != '-') = true := rfl
        simpa using List.all_eq_true.mp all d (digit_listed (digits d (split ▸ List.mem_cons_self)))
      have small : isNameChar 'e' = true := by decide
      have large : isNameChar 'E' = true := by decide
      rw [WrittenNumber.powerText, Power.text, split]
      obtain ⟨capital, sign, _⟩ := p
      rcases sign with _ | _ | _ <;> cases capital <;>
        simp [Power.mark, Power.signText, digitsLength, rest, notSign, small, large]

def Decimal (cs : List Char) : Prop := ∀ x rest, cs = '0' :: x :: rest → "xXoObB".toList.contains x = false

theorem numberLength_whole {cs : List Char} (decimal : Decimal cs)
    (stops : ∀ c ∈ (cs.drop (digitsLength false cs)).head?, c ≠ '.') : numberLength cs = digitsLength false cs := by
  unfold numberLength
  extract_lets hex whole
  have base : hex = false := by
    dsimp only [hex]
    split
    · exact decimal _ _ rfl
    · rfl
  have length : whole = digitsLength false cs := by rw [← base]
  rw [length]
  split
  · next point => exact absurd rfl (stops '.' (by rw [point]; rfl))
  · rfl

theorem numberLength_point {whole rest : List Char} (decimal : Decimal (whole ++ '.' :: rest))
    (length : digitsLength false (whole ++ '.' :: rest) = whole.length)
    (plain : ∀ c ∈ whole, c ≠ 'e' ∧ c ≠ 'E' ∧ c ≠ 'n') :
    numberLength (whole ++ '.' :: rest) = whole.length + 1 + digitsLength false rest := by
  unfold numberLength
  extract_lets hex size
  have base : hex = false := by
    dsimp only [hex]
    split
    · next same => exact decimal _ _ same
    · rfl
  have same : size = whole.length := by rw [← length, ← base]
  have letters : (whole.any fun c => c == 'e' || c == 'E' || c == 'n') = false := by
    rw [List.any_eq_false]
    intro c inside
    simp [plain c inside]
  rw [same, base, List.drop_left, List.take_left, letters]
  rfl

theorem decimal_text {n : WrittenNumber} (formed : n.WellFormed) (ends : Ends tail) : Decimal (n.text ++ tail) := by
  intro x rest same
  cases whole : n.whole with
  | nil => exact absurd whole formed.whole.1
  | cons c cs =>
    obtain ⟨rfl, same⟩ : c = '0' ∧ cs ++ (WrittenNumber.placesText n.places ++ WrittenNumber.powerText n.power) ++ tail =
        x :: rest := by
      rw [WrittenNumber.text, whole] at same
      simpa using same
    obtain rfl : cs = [] := by simpa [whole] using formed.leading (by rw [whole]; rfl)
    cases places : n.places with
    | cons d ds =>
      rw [places] at same
      cases same
      decide
    | nil =>
      cases power : n.power with
      | some p =>
        rw [places, power] at same
        obtain ⟨rfl, -⟩ : p.mark = x ∧ _ := List.cons.inj same
        rw [Power.mark]
        split <;> decide
      | none =>
        rw [places, power] at same
        have same : tail = x :: rest := same
        rcases ends with rfl | ⟨y, rest, rfl, closing⟩
        · cases same
        · cases same
          simp only [List.mem_cons, List.not_mem_nil, or_false] at closing
          rcases closing with rfl | rfl | rfl | rfl | rfl <;> decide

theorem numberLength_text {n : WrittenNumber} (formed : n.WellFormed) (ends : Ends tail) :
    numberLength (n.text ++ tail) = n.text.length := by
  have stops : ∀ c ∈ tail.head?, isNameChar c = false := fun c head => (ends_breaks ends c head).1
  have decimal := decimal_text formed ends
  have power := digitsLength_power formed.power stops
  cases places : n.places with
  | nil =>
    have text : n.text = n.whole ++ WrittenNumber.powerText n.power := by rw [WrittenNumber.text, places]; rfl
    have length : digitsLength false (n.text ++ tail) = n.text.length := by
      rw [text, List.append_assoc, digitsLength_digits formed.whole.2, power, List.length_append]
    rw [numberLength_whole decimal, length]
    rw [length, List.drop_left]
    exact fun c head => (ends_breaks ends c head).2.2
  | cons d ds =>
    have text : n.text ++ tail = n.whole ++ '.' :: (n.places ++ (WrittenNumber.powerText n.power ++ tail)) := by
      rw [WrittenNumber.text, places]
      simp [WrittenNumber.placesText]
    have size : n.text.length = n.whole.length + 1 + (n.places.length + (WrittenNumber.powerText n.power).length) := by
      rw [WrittenNumber.text, places]
      simp [WrittenNumber.placesText]
      omega
    rw [text] at decimal ⊢
    rw [numberLength_point decimal, digitsLength_digits formed.places, power, size]
    · rw [digitsLength_digits formed.whole.2, digitsLength_stop (by simp [isNameChar, isSignChar]), Nat.add_zero]
    · exact fun c inside => (digit_name (formed.whole.2 c inside)).2

theorem first_digit {n : WrittenNumber} (formed : n.WellFormed) : ∃ c rest, n.text = c :: rest ∧ c ∈ tenDigits := by
  cases whole : n.whole with
  | nil => exact absurd whole formed.whole.1
  | cons c cs =>
    exact ⟨c, _, by rw [WrittenNumber.text, whole]; rfl, digit_listed (formed.whole.2 c (whole ▸ List.mem_cons_self))⟩

theorem cut_digit (digit : c ∈ tenDigits) (rest : List Char) : cut (c :: rest) = (.number, numberLength (c :: rest)) := by
  simp only [tenDigits, List.mem_cons, List.not_mem_nil, or_false] at digit
  rcases digit with rfl | rfl | rfl | rfl | rfl | rfl | rfl | rfl | rfl | rfl <;> rfl

theorem cut_minus (digit : c ∈ tenDigits) (rest : List Char) : cut ('-' :: c :: rest) = (.sign, 1) := by
  simp only [tenDigits, List.mem_cons, List.not_mem_nil, or_false] at digit
  rcases digit with rfl | rfl | rfl | rfl | rfl | rfl | rfl | rfl | rfl | rfl <;> rfl

def letters : List Char := ['n', 't', 'f', 'c', 'x']

theorem cut_name (first : c ∈ letters) (length : nameLength false (c :: rest) = k + 1) :
    cut (c :: rest) = (.name, k + 1) := by
  simp only [letters, List.mem_cons, List.not_mem_nil, or_false] at first
  rcases first with rfl | rfl | rfl | rfl | rfl <;> simp [cut, isDigit, length]

theorem solid_char (other : isSpace c = false) (slash : c ≠ '/') (rest : List Char) : Cursor.Solid (c :: rest) := by
  refine ⟨by simp [other], ?_⟩
  rw [commentLength?]
  · exact fun _ same => slash (List.cons.inj same).1
  · exact fun _ same => slash (List.cons.inj same).1

theorem solid_listed {chars : List Char} (all : (chars.all fun x => !isSpace x && x != '/') = true) (listed : x ∈ chars)
    (rest : List Char) : Cursor.Solid (x :: rest) := by
  obtain ⟨other, slash⟩ : isSpace x = false ∧ x ≠ '/' := by simpa using List.all_eq_true.mp all x listed
  exact solid_char other slash rest

variable {c : Cursor}

theorem token_cut (solid : Cursor.Solid c.rest) (split : c.rest = text ++ tail) (length : cut c.rest = (shape, text.length)) :
    c.token = { shape := shape, text := String.ofList text, start := c, next := c.advance text.length, newline := false
                comments := [] } := by
  rw [Cursor.token_solid solid length, split, List.take_left]

theorem token_word {word : List Char} (first : ∃ x rest, word = x :: rest ∧ x ∈ letters)
    (inside : word.all isNameChar = true) (split : c.rest = word ++ tail) (breaks : Breaks tail) : c.token =
      { shape := .name, text := String.ofList word, start := c, next := c.advance word.length, newline := false
        comments := [] } := by
  obtain ⟨x, rest, rfl, listed⟩ := first
  have length := nameLength_word (List.all_eq_true.mp inside) fun y head => ⟨(breaks y head).1, (breaks y head).2.1⟩
  have solid : Cursor.Solid c.rest := by
    rw [split]
    exact solid_listed rfl listed _
  exact token_cut solid split (by rw [split]; exact cut_name listed length)

theorem token_number {n : WrittenNumber} (formed : n.WellFormed) (split : c.rest = n.text ++ tail) (ends : Ends tail) :
    c.token = { shape := .number, text := String.ofList n.text, start := c, next := c.advance n.text.length
                newline := false, comments := [] } := by
  obtain ⟨x, rest, same, digit⟩ := first_digit formed
  have solid : Cursor.Solid c.rest := by
    rw [split, same]
    exact solid_listed rfl digit _
  refine token_cut solid split ?_
  rw [split, ← numberLength_text formed ends, same]
  exact cut_digit digit _

theorem token_minus {n : WrittenNumber} (formed : n.WellFormed) (split : c.rest = '-' :: n.text ++ tail) : c.token =
    { shape := .sign, text := "-", start := c, next := c.advance 1, newline := false, comments := [] } := by
  obtain ⟨x, rest, same, digit⟩ := first_digit formed
  have solid : Cursor.Solid c.rest := by
    rw [split]
    exact solid_char (by decide) (by decide) _
  have split : c.rest = ['-'] ++ (n.text ++ tail) := split
  exact token_cut solid split (by rw [split, same]; exact cut_minus digit _)

-- What a literal starts with: one of three words, one of its signs, or something that is
-- neither.
structure Token.Starts (t : Token) (signs : List String) : Prop where
  word : t.shape = .name → t.text ∈ ["null", "true", "false"]
  sign : t.shape = .sign → t.text ∈ signs

namespace Token.Starts

variable {t : Token} {signs : List String}

theorem notSign (starts : t.Starts signs) {word : String} (other : word ∉ signs) :
    (t.shape == .sign && t.text == word) = false := by
  by_contra both
  obtain ⟨shape, text⟩ : t.shape = .sign ∧ t.text = word := by simpa using both
  exact other (text ▸ starts.sign shape)

theorem notWord (starts : t.Starts signs) {word : String} (other : word ∉ ["null", "true", "false"]) :
    (t.shape == .name && t.text == word) = false := by
  by_contra both
  obtain ⟨shape, text⟩ : t.shape = .name ∧ t.text = word := by simpa using both
  exact other (text ▸ starts.word shape)

theorem notFree (starts : t.Starts signs) : Grammar.isFreeName t = false := by
  by_contra both
  obtain ⟨shape, free⟩ : t.shape = .name ∧ t.text ∉ Grammar.reserved := by simpa [Grammar.isFreeName] using both
  have each : ∀ word ∈ ["null", "true", "false"], word ∈ Grammar.reserved := by decide
  exact free (each _ (starts.word shape))

end Token.Starts

namespace Literal

def signs : Literal → List String
  | number true _ => ["-"]
  | array _ => ["["]
  | object _ => ["\x7b"]
  | _ => []

theorem signs_subset (l : Literal) : ∀ word ∈ l.signs, word ∈ ["-", "[", "\x7b"] := by
  cases l with
  | number negative n => cases negative <;> simp [signs]
  | _ => simp [signs]

theorem token_starts {l : Literal} (formed : l.WellFormed) (split : c.rest = l.text ++ tail) (ends : Ends tail) :
    c.token.start = c ∧ c.token.Starts l.signs := by
  have named {word : List Char} (listed : String.ofList word ∈ ["null", "true", "false"])
      (first : ∃ x rest, word = x :: rest ∧ x ∈ letters) (inside : word.all isNameChar = true)
      (split : c.rest = word ++ tail) : c.token.start = c ∧ c.token.Starts [] := by
    rw [token_word first inside split (ends_breaks ends)]
    exact ⟨rfl, fun _ => listed, nofun⟩
  cases formed with
  | null => exact named (by decide) ⟨_, _, rfl, by decide⟩ (by decide) split
  | @bool b =>
    cases b with
    | false => exact named (by decide) ⟨_, _, rfl, by decide⟩ (by decide) split
    | true => exact named (by decide) ⟨_, _, rfl, by decide⟩ (by decide) split
  | @number negative n formed _ =>
    cases negative with
    | false =>
      rw [token_number formed split ends]
      exact ⟨rfl, nofun, nofun⟩
    | true =>
      rw [token_minus formed split]
      exact ⟨rfl, nofun, fun _ => List.mem_cons_self⟩
  | @string q formed =>
    rw [Reading.quote_token (q := q.quote) (by rw [split]; rfl)]
    refine ⟨rfl, fun shape => ?_, fun shape => ?_⟩ <;> split at shape <;> cases shape
  | array _ =>
    rw [Cursor.token_mark (x := '[') (by decide) (by rw [split]; rfl)]
    exact ⟨rfl, nofun, fun _ => List.mem_cons_self⟩
  | object _ _ =>
    rw [Cursor.token_mark (x := '\x7b') (by decide) (by rw [split]; rfl)]
    exact ⟨rfl, nofun, fun _ => List.mem_cons_self⟩

theorem text_opens {l : Literal} (formed : l.WellFormed) (split : c.rest = l.text ++ tail) (ends : Ends tail) :
    ∀ word ∈ ["]", "\x7d", ",", "..."], (c.token.shape == .sign && c.token.text == word) = false := by
  intro word listed
  refine (token_starts formed split ends).2.notSign fun own => ?_
  have each : ∀ word ∈ ["]", "\x7d", ",", "..."], word ∉ ["-", "[", "\x7b"] := by decide
  exact each word listed (l.signs_subset word own)

end Literal

end Script
end SchemaAtlas
