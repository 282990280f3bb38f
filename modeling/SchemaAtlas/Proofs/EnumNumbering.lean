import SchemaAtlas.Builder.Lowering.Scalar
import SchemaAtlas.Script.Grammar.Modules
import Mathlib.Algebra.Group.Int.Defs
import Mathlib.Data.List.Forall2

namespace SchemaAtlas
namespace Builder

open Script

-- The numbers that the members of an enumeration take.

def counts (member : Tree) : Bool := member.kind == .enumAssignment || member.key?.isSome

inductive Gives (member : Tree) : Option Number → Prop where
  | valued : member.kind = .enumAssignment → member.child? .value = some t → t.literal? = some (.number n) →
      Gives member (some n)
  | plain : member.kind ≠ .enumAssignment → member.key?.isSome = true → Gives member none

def numberOf (next : Int64) : Option Number → Number
  | some n => n
  | none => .whole next.toInt

def countBehind (next : Int64) : Option Number → Int64
  | some n =>
    match (Json.number n).asWhole? with
    | some whole => Int64.ofInt whole + 1
    | none => next
  | none => next + 1

def numbersFrom : Int64 → List (Option Number) → List Number
  | _, [] => []
  | next, given :: rest => numberOf next given :: numbersFrom (countBehind next given) rest

namespace Numbering

theorem add_gives (n : Numbering) (gives : Gives member given) : n.add member =
    some { values := n.values ++ [.number (numberOf n.next given)], next := countBehind n.next given } := by
  unfold add
  cases gives with
  | valued assignment value known =>
    rw [if_pos (by simp [assignment]), value]
    simp only [Option.bind_eq_bind, Option.bind_some, known]
    rfl
  | plain named key =>
    rw [if_neg (by simpa using named), if_pos key]
    rfl

theorem add_other (n : Numbering) (other : counts member = false) : n.add member = some n := by
  rw [counts, Bool.or_eq_false_iff] at other
  unfold add
  rw [if_neg (by simp [other.1]), if_neg (by simp [other.2])]

theorem foldlM_add {members : List Tree} {givens : List (Option Number)} (n : Numbering)
    (gives : List.Forall₂ Gives (members.filter counts) givens) :
    (members.foldlM add n).map values = some (n.values ++ (numbersFrom n.next givens).map .number) := by
  induction members generalizing n givens with
  | nil =>
    cases gives
    simp [numbersFrom]
  | cons member rest ih =>
    rw [List.foldlM_cons]
    by_cases counted : counts member = true
    · rw [List.filter_cons_of_pos counted] at gives
      cases gives with
      | cons own others =>
        rw [add_gives n own]
        simp only [Option.bind_eq_bind, Option.bind_some]
        rw [ih _ others]
        simp [numbersFrom]
    · rw [List.filter_cons_of_neg counted] at gives
      rw [add_other n (by simpa using counted)]
      exact ih n gives

def Unknown (member : Tree) : Prop := member.kind = .enumAssignment ∧ (member.child? .value).bind Tree.literal? = none

theorem add_eq_none (n : Numbering) : n.add member = none ↔ Unknown member := by
  unfold add Unknown
  by_cases assignment : member.kind = .enumAssignment
  · rw [if_pos (by simp [assignment])]
    simp only [assignment, true_and, Option.bind_eq_bind]
    rw [← Option.bind_assoc, Option.bind_eq_none_iff]
    cases (member.child? .value).bind Tree.literal? with
    | none => simp
    | some value => simp
  · rw [if_neg (by simpa using assignment)]
    split <;> simp [assignment]

theorem foldlM_add_eq_none {members : List Tree} (n : Numbering) : members.foldlM add n = none ↔ ∃ member ∈ members, Unknown member := by
  induction members generalizing n with
  | nil => simp
  | cons member rest ih =>
    rw [List.foldlM_cons, Option.bind_eq_bind, List.exists_mem_cons_iff, ← add_eq_none n]
    cases n.add member with
    | none => simp
    | some m => simpa using ih m

end Numbering

-- The last whole number of a row, and the number behind it: one more, or the least
-- word of 64 bits behind the greatest one.

def lastWhole? (row : List Number) : Option Int :=
  row.reverse.findSome? fun
    | .whole n => some n
    | .double _ => none

def afterWhole : Option Int → Int
  | none => 0
  | some n => if n + 1 < 2 ^ 63 then n + 1 else -2 ^ 63

theorem lastWhole?_whole (row : List Number) (n : Int) : lastWhole? (row ++ [.whole n]) = some n := by
  simp [lastWhole?]

theorem lastWhole?_double (row : List Number) (x : Double) : lastWhole? (row ++ [.double x]) = lastWhole? row := by
  simp [lastWhole?]

def Fits : Number → Prop
  | .whole n => -2 ^ 63 < n ∧ n < 2 ^ 63
  | .double _ => True

theorem toInt_ofInt_add_one (low : -2 ^ 63 ≤ n) (high : n < 2 ^ 63) :
    (Int64.ofInt n + 1).toInt = if n + 1 < 2 ^ 63 then n + 1 else -2 ^ 63 := by
  rw [Int64.toInt_add, Int64.toInt_ofInt, show (1 : Int64).toInt = 1 by decide, show Int64.size = 2 ^ 64 from rfl,
    Int.bmod_add_bmod]
  split <;> rw [Int.bmod_def] <;> omega

theorem numberOf?_fits (known : numberOf? text = some n) : Fits n := by
  have ten {base : Nat} {cs : List Char} (known : wholeIn? base cs = some n) : Fits n := by
    obtain ⟨value, -, known⟩ := Option.bind_eq_some_iff.mp known
    split at known
    · next small =>
      cases known
      have small : value < 2 ^ 63 := small
      exact ⟨by omega, by omega⟩
    · cases known
  unfold numberOf? at known
  dsimp only at known
  split at known
  · exact ten known
  · exact ten known
  · exact ten known
  · rcases Option.or_eq_some_iff.mp known with known | ⟨-, known⟩
    · exact ten known
    · obtain ⟨_, -, known⟩ := Option.bind_eq_some_iff.mp known
      obtain ⟨_, -, rfl⟩ := Option.map_eq_some_iff.mp known
      trivial

theorem negate?_fits {m n : Number} (fits : Fits m) (known : m.negate? = some n) : Fits n := by
  cases m with
  | double x =>
    cases known
    trivial
  | whole value =>
    have wide : Number.leastWhole = -2 ^ 63 ∧ Number.greatestWhole = 2 ^ 64 - 1 := by decide
    obtain ⟨low, high⟩ := fits
    rw [Number.negate?, if_pos (by simp only [Nat.pow_eq]; omega), Number.ofInt, if_pos (by omega)] at known
    cases known
    exact ⟨by omega, by omega⟩

theorem signed?_fits (fits : ∀ m, value = .number m → Fits m) (known : signed? operator value = some (.number n)) :
    Fits n := by
  unfold signed? at known
  split at known
  · obtain ⟨_, negated, same⟩ := Option.map_eq_some_iff.mp known
    cases same
    exact negate?_fits (fits _ rfl) negated
  · cases known
    exact fits _ rfl
  · cases known

theorem valueWithin_fits (levels : Nat) (known : valueWithin levels t = some (.number n)) : Fits n := by
  induction levels generalizing t n with
  | zero => cases known
  | succ levels ih =>
    rw [valueWithin, valueOver] at known
    split at known
    case h_3 =>
      obtain ⟨_, read, same⟩ := Option.map_eq_some_iff.mp known
      cases same
      exact numberOf?_fits read
    case h_7 =>
      obtain ⟨inner, -, known⟩ := Option.bind_eq_some_iff.mp known
      obtain ⟨value, inside, known⟩ := Option.bind_eq_some_iff.mp known
      exact signed?_fits (fun m same => ih (same ▸ inside)) known
    all_goals simp at known

-- What a row of numbers says about each plain member, by induction on the row; `row`
-- are the numbers before it.

theorem numbersFrom_given {i : Nat} {next : Int64} {givens : List (Option Number)} (valued : givens[i]? = some (some n)) :
    (numbersFrom next givens)[i]? = some n := by
  induction givens generalizing next i with
  | nil => cases valued
  | cons given rest ih =>
    cases i with
    | zero =>
      cases valued
      rfl
    | succ i => exact ih valued

theorem countBehind_after (fits : ∀ n, given = some n → Fits n) (same : next.toInt = afterWhole (lastWhole? row)) :
    (countBehind next given).toInt = afterWhole (lastWhole? (row ++ [numberOf next given])) := by
  cases given with
  | none =>
    have one := toInt_ofInt_add_one next.le_toInt next.toInt_lt
    rw [Int64.ofInt_toInt] at one
    rw [numberOf, lastWhole?_whole]
    exact one
  | some n =>
    cases n with
    | double x => rwa [numberOf, lastWhole?_double]
    | whole n =>
      obtain ⟨low, high⟩ := fits _ rfl
      have known : (Json.number (.whole n)).asWhole? = some n := if_pos high
      rw [numberOf, lastWhole?_whole, countBehind, known]
      exact toInt_ofInt_add_one (Int.le_of_lt low) high

theorem numbersFrom_plain {i : Nat} {next : Int64} {givens : List (Option Number)} (fits : ∀ n, some n ∈ givens → Fits n)
    (same : next.toInt = afterWhole (lastWhole? row)) (plain : givens[i]? = some none) :
    (numbersFrom next givens)[i]? =
      some (.whole (afterWhole (lastWhole? (row ++ (numbersFrom next givens).take i)))) := by
  induction givens generalizing next row i with
  | nil => cases plain
  | cons given rest ih =>
    cases i with
    | zero =>
      cases plain
      simp [numbersFrom, numberOf, same]
    | succ i =>
      have behind := countBehind_after (fun n given => fits n (given ▸ List.mem_cons_self)) same
      have further := ih (fun n mem => fits n (List.mem_cons_of_mem _ mem)) behind plain
      rw [List.append_assoc] at further
      exact further

theorem length_numbersFrom (next : Int64) (givens : List (Option Number)) :
    (numbersFrom next givens).length = givens.length := by
  induction givens generalizing next with
  | nil => rfl
  | cons given rest ih => simp [numbersFrom, ih]

theorem fits_of_gives {members : List Tree} {givens : List (Option Number)} (gives : List.Forall₂ Gives members givens) :
    ∀ n, some n ∈ givens → Fits n := by
  induction gives with
  | nil => simp
  | cons own _ ih =>
    intro n given
    cases given with
    | head =>
      cases own with
      | valued _ _ known => exact valueWithin_fits _ known
    | tail _ given => exact ih n given

-- One number for each member that counts, in their order: the value of its literal, or
-- else one more than the last whole number before it, 0 without one.
theorem enumValues?_numbered (body : Tree) :
    (enumValues? body = none ↔ ∃ member ∈ body.parts, Numbering.Unknown member) ∧
    ∀ givens, List.Forall₂ Gives (body.parts.filter counts) givens → ∃ numbers : List Number,
      enumValues? body = some (numbers.map .number) ∧ numbers.length = givens.length ∧
      (∀ (i : Nat) n, givens[i]? = some (some n) → numbers[i]? = some n) ∧
      (∀ i : Nat, givens[i]? = some none → numbers[i]? = some (.whole (afterWhole (lastWhole? (numbers.take i))))) ∧
      (givens[0]? = some none → numbers[0]? = some (.whole 0)) ∧
      (∀ (i : Nat) n, numbers[i]? = some (.whole n) → givens[i + 1]? = some none → n + 1 < 2 ^ 63 →
        numbers[i + 1]? = some (.whole (n + 1))) := by
  refine ⟨Option.map_eq_none_iff.trans (Numbering.foldlM_add_eq_none {}), fun givens gives => ?_⟩
  have plain {i : Nat} (own : givens[i]? = some none) : (numbersFrom 0 givens)[i]? =
      some (.whole (afterWhole (lastWhole? ([] ++ (numbersFrom 0 givens).take i)))) :=
    numbersFrom_plain (fits_of_gives gives) rfl own
  refine ⟨numbersFrom 0 givens, ?_, length_numbersFrom 0 givens, fun i n => numbersFrom_given, fun i => plain, plain,
    fun i n before own small => ?_⟩
  · exact Numbering.foldlM_add {} gives
  · rw [plain own, List.take_add_one, before, Option.toList_some, List.nil_append, lastWhole?_whole, afterWhole,
      if_pos small]

def fiveBody : Tree :=
  { kind := .other "enum_body", location := .start, offset := 0, text := "{A=5,B}", children := [
    { kind := .enumAssignment, location := ⟨1, 2⟩, offset := 1, text := "A=5", children := [
      { kind := .propertyIdentifier, role := .name, location := ⟨1, 2⟩, offset := 1, text := "A" },
      { kind := .number, role := .value, location := ⟨1, 4⟩, offset := 3, text := "5" }] },
    { kind := .propertyIdentifier, role := .name, location := ⟨1, 6⟩, offset := 5, text := "B" }] }

theorem enumValues?_numbered_five : List.Forall₂ Gives (fiveBody.parts.filter counts) [some (.whole 5), none] ∧
    ∃ numbers : List Number, enumValues? fiveBody = some (numbers.map .number) ∧ numbers.length = 2 ∧
      numbers[0]? = some (.whole 5) ∧ numbers[1]? = some (.whole 6) := by
  have gives : List.Forall₂ Gives (fiveBody.parts.filter counts) [some (.whole 5), none] := by
    refine .cons (.valued rfl rfl ?_) (.cons (.plain (by decide) rfl) .nil)
    rw [Tree.literal?, valueWithin, Tree.unwrap]
    rfl
  obtain ⟨numbers, all, length, valued, -, -, behind⟩ := (enumValues?_numbered fiveBody).2 _ gives
  exact ⟨gives, numbers, all, length, valued 0 _ rfl, behind 0 5 (valued 0 _ rfl) rfl (by decide)⟩

-- Behind one and a half stands 0 again, behind the greatest word the least one.
theorem enumValues?_numbered_fraction :
    (∃ body ∈ (parse "enum E{A=1.5,B}").preorder, body.parts.all counts = true ∧
      (enumValues? body).map (·.map Json.asDouble?) =
        some [some ⟨false, 6755399441055744, -52⟩, some ⟨false, 0, -1074⟩]) ∧
    ∃ body ∈ (parse "enum E{A=9223372036854775807,B}").preorder, body.parts.all counts = true ∧
      (enumValues? body).map (·.map Json.asWhole?) =
        some [some 9223372036854775807, some (-9223372036854775808)] := by
  decide +kernel

end Builder
end SchemaAtlas
