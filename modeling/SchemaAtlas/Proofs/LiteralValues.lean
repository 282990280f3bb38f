import SchemaAtlas.Proofs.LiteralTexts
import SchemaAtlas.Proofs.PairedLists

namespace SchemaAtlas
namespace Script

-- The trees of literals, and what the evaluator makes of them.

namespace Literal

structure IsPair (t key value : Tree) : Prop where
  kind : t.kind = .pair
  key : t.child? .key = some key
  value : t.child? .value = some value

-- The trees of a literal: what kind they are of, what they say and what is inside them. Whatever
-- else stands between the parts of a list, such as a comment, is no part of it.
inductive Spelled : Literal → Tree → Prop where
  | null : t.kind = .null → Spelled null t
  | bool : t.kind = (if b then .true else .false) → Spelled (bool b) t
  | number : t.kind = .number → t.text = String.ofList n.text → Spelled (number false n) t
  | negative {inner : Tree} : t.kind = .unary "-" → t.child? .argument = some inner → inner.kind = .number →
      inner.text = String.ofList n.text → Spelled (number true n) t
  | string : q.Spelled t → Spelled (string q) t
  | array : t.kind = .array → List.Forall₂ Spelled items t.parts → Spelled (array items) t
  | object {pairs : List (Tree × Tree)} : t.kind = .object → List.Forall₂ (fun part p => IsPair part p.1 p.2) t.parts pairs →
      List.Forall₂ Quoted.Spelled (members.map Prod.fst) (pairs.map Prod.fst) →
      List.Forall₂ Spelled (members.map Prod.snd) (pairs.map Prod.snd) → Spelled (object members) t

def SpelledMember (m : Quoted × Literal) (t : Tree) : Prop :=
  ∃ key value, IsPair t key value ∧ m.1.Spelled key ∧ m.2.Spelled value

end Literal

variable {t : Tree}

theorem unwrap_plain (plain : t.kind.isWrapper = false) : t.unwrap = t := by
  rw [Tree.unwrap, if_neg (by simp [plain])]

theorem valueWithin_succ (plain : t.kind.isWrapper = false) (k : Nat) :
    valueWithin (k + 1) t = valueOver (valueWithin k) t := by
  rw [valueWithin, unwrap_plain plain]

theorem mapM_none {f : β → Option γ} {bs : List β} (listed : b ∈ bs) (failed : f b = none) : bs.mapM f = none := by
  induction bs with
  | nil => cases listed
  | cons first rest ih =>
    rw [List.mapM_cons]
    rcases List.mem_cons.mp listed with rfl | later
    · rw [failed]
      rfl
    · rw [ih later]
      cases f first <;> rfl

namespace Literal

theorem spelled_object {members : List (Quoted × Literal)} : (object members).Spelled t ↔
    t.kind = .object ∧ List.Forall₂ SpelledMember members t.parts := by
  constructor
  · intro spelled
    cases spelled with
    | @object _ _ pairs kind parts keys values =>
      refine ⟨kind, ?_⟩
      clear kind
      generalize t.parts = ts at parts
      induction parts generalizing members with
      | nil =>
        cases members with
        | nil => exact .nil
        | cons m rest => cases keys
      | cons own _ ih =>
        cases members with
        | nil => cases keys
        | cons m rest =>
          cases keys with
          | cons key keys => cases values with | cons value values => exact .cons ⟨_, _, own, key, value⟩ (ih keys values)
  · rintro ⟨kind, each⟩
    suffices ∃ pairs : List (Tree × Tree), List.Forall₂ (fun part p => IsPair part p.1 p.2) t.parts pairs ∧
        List.Forall₂ Quoted.Spelled (members.map Prod.fst) (pairs.map Prod.fst) ∧
        List.Forall₂ Spelled (members.map Prod.snd) (pairs.map Prod.snd) by
      obtain ⟨pairs, parts, keys, values⟩ := this
      exact .object kind parts keys values
    clear kind
    generalize t.parts = ts at each
    induction each with
    | nil => exact ⟨[], .nil, .nil, .nil⟩
    | cons own _ ih =>
      obtain ⟨key, value, here, name, content⟩ := own
      obtain ⟨pairs, parts, keys, values⟩ := ih
      exact ⟨(key, value) :: pairs, .cons here parts, .cons name keys, .cons content values⟩

theorem Spelled.withRole {l : Literal} (spelled : l.Spelled t) (role : Role) : l.Spelled (t.withRole role) := by
  cases spelled with
  | null kind => exact .null kind
  | bool kind => exact .bool kind
  | number kind text => exact .number kind text
  | negative kind argument number_ text => exact .negative kind argument number_ text
  | string spelled => exact .string (spelled.withRole role)
  | array kind each => exact .array kind each
  | object kind parts keys values => exact .object kind parts keys values

theorem Spelled.part {l : Literal} (spelled : l.Spelled t) : (t.kind != .comment && t.kind.isPart) = true := by
  cases spelled with
  | null kind | number kind _ | negative kind _ _ _ | array kind _ | object kind _ _ _ =>
    rw [kind]
    rfl
  | @bool b _ kind => cases b <;> rw [kind] <;> rfl
  | string spelled =>
    cases spelled with
    | string _ kind _ | template _ kind _ _ =>
      rw [kind]
      rfl

theorem parts_eq {t : Tree} (each : ∀ piece ∈ t.children, (piece.kind != .comment && piece.kind.isPart) = true) :
    t.parts = t.children := List.filter_eq_self.mpr each

-- The evaluator turns the tree into something that is kept of the literal as soon as it
-- may go as deep as the literal does, and into nothing before.
structure Evaluates (l : Literal) (t : Tree) : Prop where
  known : ∀ k, l.levels < k → ∃ w, valueWithin k t = some w ∧ l.Keeps w
  deep : ∀ k, k ≤ l.levels → valueWithin k t = none

theorem evaluates_scalar {l : Literal} (flat : l.levels = 0) (plain : t.kind.isWrapper = false)
    (value : ∀ value?, valueOver value? t = some w) (keeps : l.Keeps w) : l.Evaluates t where
  known k reached := by
    obtain ⟨k, rfl⟩ := Nat.exists_eq_succ_of_ne_zero (Nat.ne_zero_of_lt reached)
    exact ⟨w, by rw [Nat.succ_eq_add_one, valueWithin_succ plain, value], keeps⟩
  deep k short := by
    obtain rfl : k = 0 := by omega
    rfl

theorem numberOf?_counts {n : WrittenNumber} (formed : n.WellFormed) (inRange : n.value < Double.overflow) :
    ∃ x, numberOf? (String.ofList n.text) = some x ∧ Counts (fun n => n.natAbs < 2 ^ 63) false n x := by
  by_cases kept : n.Plain ∧ n.digits < 2 ^ 63
  · exact ⟨_, WrittenNumber.numberOf?_whole formed kept.1 kept.2, .whole kept.1 kept.2⟩
  · have other (plain : n.Plain) : 2 ^ 63 ≤ n.digits := Nat.le_of_not_lt fun small => kept ⟨plain, small⟩
    obtain ⟨x, read, sign, rounds⟩ := WrittenNumber.numberOf?_double formed other inRange
    exact ⟨_, read, .double (fun plain small => kept ⟨plain, small⟩) sign rounds⟩

theorem rounds_negate {x : Double} (rounds : x.Rounds q) : x.negate.Rounds q :=
  ⟨rounds.canonical, rounds.inRange, rounds.nearest, rounds.even⟩

theorem negate_counts {n : WrittenNumber} (counts : Counts (fun n => n.natAbs < 2 ^ 63) false n x) :
    ∃ y, x.negate? = some y ∧ Counts (fun n => n.natAbs < 2 ^ 63) true n y := by
  cases counts with
  | whole plain small =>
    have small : n.digits < 2 ^ 63 := by rwa [WrittenNumber.natAbs_signed] at small
    have fits : (n.digits : Int) ≤ Nat.pow 2 63 - 1 := by
      have : ((Nat.pow 2 63 : Nat) : Int) = (2 ^ 63 : Nat) := rfl
      omega
    have inside : Number.leastWhole ≤ -n.digits ∧ -n.digits ≤ Number.greatestWhole := by
      have least : Number.leastWhole = -(2 ^ 63 : Nat) := rfl
      have greatest : Number.greatestWhole = (2 ^ 64 : Nat) - 1 := rfl
      omega
    have negated : Number.negate? (.whole n.digits) = some (.whole (-n.digits)) := by
      rw [Number.negate?, if_pos fits, Number.ofInt, if_pos inside]
    exact ⟨_, negated, .whole plain (by rw [WrittenNumber.natAbs_signed]; exact small)⟩
  | double other sign rounds =>
    refine ⟨_, rfl, .double (fun plain small => ?_) ?_ (rounds_negate rounds)⟩
    · rw [WrittenNumber.natAbs_signed] at small
      exact other plain (by rwa [WrittenNumber.natAbs_signed])
    · simp [Double.negate, sign]

theorem evaluates_number {n : WrittenNumber} (formed : n.WellFormed) (inRange : n.value < Double.overflow)
    (kind : t.kind = .number) (text : t.text = String.ofList n.text) : (number false n).Evaluates t := by
  obtain ⟨x, read, counts⟩ := numberOf?_counts formed inRange
  refine evaluates_scalar rfl (by rw [kind]; rfl) (fun value? => ?_) (.number counts)
  rw [valueOver, kind, text, read]
  rfl

theorem evaluates_negative {n : WrittenNumber} (formed : n.WellFormed) (inRange : n.value < Double.overflow)
    {inner : Tree} (kind : t.kind = .unary "-") (argument : t.child? .argument = some inner)
    (number_ : inner.kind = .number) (text : inner.text = String.ofList n.text) : (number true n).Evaluates t := by
  obtain ⟨x, read, counts⟩ := numberOf?_counts formed inRange
  obtain ⟨y, negated, signed⟩ := negate_counts counts
  have plain : t.kind.isWrapper = false := by rw [kind]; rfl
  have innerPlain : inner.kind.isWrapper = false := by rw [number_]; rfl
  have under (k : Nat) : valueWithin (k + 1) t = (valueWithin k inner).bind (signed? "-") := by
    rw [valueWithin_succ plain, valueOver, kind]
    dsimp only
    rw [argument, Option.bind_some]
  have own (k : Nat) : valueWithin (k + 1) inner = some (.number x) := by
    rw [valueWithin_succ innerPlain, valueOver, number_, text, read]
    rfl
  have one : (number true n).levels = 1 := rfl
  refine ⟨fun k reached => ?_, fun k short => ?_⟩
  · rw [one] at reached
    obtain ⟨k, rfl⟩ : ∃ left, k = left + 2 := ⟨k - 2, by omega⟩
    refine ⟨.number y, ?_, .number signed⟩
    rw [under, own, Option.bind_some, signed?, negated]
    rfl
  · rw [one] at short
    cases k with
    | zero => rfl
    | succ k =>
      obtain rfl : k = 0 := by omega
      rw [under]
      rfl

theorem evaluates_array {items : List Literal} (kind : t.kind = .array) (each : List.Forall₂ Evaluates items t.parts) :
    (array items).Evaluates t := by
  have plain : t.kind.isWrapper = false := by rw [kind]; rfl
  have step (k : Nat) : valueWithin (k + 1) t = (t.parts.mapM (valueWithin k)).map .array := by
    rw [valueWithin_succ plain, valueOver, kind]
  refine ⟨fun k reached => ?_, fun k short => ?_⟩
  · obtain ⟨k, rfl⟩ := Nat.exists_eq_succ_of_ne_zero (Nat.ne_zero_of_lt reached)
    have inside := levels_array.mp (Nat.le_of_lt_succ reached)
    obtain ⟨ws, read, keeps⟩ := mapM_some (P := Keeps) (f := valueWithin k)
      (forall₂_imp_of_mem each fun item listed piece evaluates => evaluates.known k (inside item listed))
    exact ⟨.array ws, by rw [Nat.succ_eq_add_one, step, read]; rfl, .array keeps⟩
  · cases k with
    | zero => rfl
    | succ k =>
      have outside : ¬ ∀ item ∈ items, item.levels < k := fun all => absurd (levels_array.mpr all) (Nat.not_le_of_lt short)
      obtain ⟨item, listed, low⟩ : ∃ item ∈ items, k ≤ item.levels := by simpa using outside
      obtain ⟨piece, inside, evaluates⟩ := forall₂_mem each listed
      rw [step, mapM_none inside (evaluates.deep k low)]
      rfl

def Pairs (m : Quoted × Literal) (t : Tree) : Prop :=
  ∃ value, m.2.Evaluates value ∧ ∀ k, pairValue? (valueWithin k) t = (valueWithin k value).map (String.ofList m.1.kept, ·)

theorem pairs_spelled {m : Quoted × Literal} {key value : Tree} (pair : IsPair t key value) (name : m.1.Spelled key)
    (formed : m.1.WellFormed) (quotes : m.1.quote ≠ .backquote) (evaluates : m.2.Evaluates value) : Pairs m t := by
  refine ⟨value, evaluates, fun k => ?_⟩
  obtain ⟨text, content⟩ := name.stringValue formed quotes
  have read : key.key? = some (String.ofList m.1.kept) := by rw [Tree.key?, text, content]
  rw [pairValue?, pair.kind, pair.key, pair.value]
  change (key.key?.bind fun name => (valueWithin k value).bind fun w => some (name, w)) = _
  rw [read, Option.bind_some]
  cases valueWithin k value <;> rfl

theorem evaluates_object {members : List (Quoted × Literal)} (kind : t.kind = .object)
    (each : List.Forall₂ Pairs members t.parts) : (object members).Evaluates t := by
  have plain : t.kind.isWrapper = false := by rw [kind]; rfl
  have step (k : Nat) : valueWithin (k + 1) t =
      (t.parts.mapM (pairValue? (valueWithin k))).map fun entries => .object (Entries.ofList entries) := by
    rw [valueWithin_succ plain, valueOver, kind]
  refine ⟨fun k reached => ?_, fun k short => ?_⟩
  · obtain ⟨k, rfl⟩ := Nat.exists_eq_succ_of_ne_zero (Nat.ne_zero_of_lt reached)
    have inside := levels_object.mp (Nat.le_of_lt_succ reached)
    obtain ⟨entries, read, keeps⟩ := mapM_some (P := fun m e => e.1 = String.ofList m.1.kept ∧ m.2.Keeps e.2)
      (f := pairValue? (valueWithin k)) (forall₂_imp_of_mem each fun m listed piece pairs => by
        obtain ⟨value, evaluates, same⟩ := pairs
        obtain ⟨w, known, keeps⟩ := evaluates.known k (inside m listed)
        exact ⟨_, by rw [same, known]; rfl, rfl, keeps⟩)
    refine ⟨.object (Entries.ofList entries), by rw [Nat.succ_eq_add_one, step, read]; rfl, .object ?_ ?_⟩
    · rw [List.forall₂_map_left_iff, List.forall₂_map_right_iff]
      exact keeps.imp fun m e related => by rw [related.1, String.toList_ofList]
    · rw [List.forall₂_map_left_iff, List.forall₂_map_right_iff]
      exact keeps.imp fun m e related => related.2
  · cases k with
    | zero => rfl
    | succ k =>
      have outside : ¬ ∀ m ∈ members, m.2.levels < k := fun all => absurd (levels_object.mpr all) (Nat.not_le_of_lt short)
      obtain ⟨m, listed, low⟩ : ∃ m ∈ members, k ≤ m.2.levels := by simpa using outside
      obtain ⟨piece, inside, value, evaluates, same⟩ := forall₂_mem each listed
      rw [step, mapM_none inside (by rw [same, evaluates.deep k low]; rfl)]
      rfl

theorem spelled_evaluates {l : Literal} (formed : l.WellFormed) (spelled : l.Spelled t) : l.Evaluates t := by
  induction formed generalizing t with
  | null =>
    cases spelled with
    | null kind => exact evaluates_scalar rfl (by rw [kind]; rfl) (fun _ => by rw [valueOver, kind]) .null
  | @bool b =>
    cases spelled with
    | bool kind => cases b <;> exact evaluates_scalar rfl (by rw [kind]; rfl) (fun _ => by rw [valueOver, kind]; rfl) .bool
  | number formed inRange =>
    cases spelled with
    | number kind text => exact evaluates_number formed inRange kind text
    | negative kind argument number_ text => exact evaluates_negative formed inRange kind argument number_ text
  | string formed =>
    cases spelled with
    | string spelled =>
      obtain ⟨plain, value⟩ := spelled.value formed
      exact evaluates_scalar rfl plain value (.string String.toList_ofList)
  | array _ ih =>
    cases spelled with
    | array kind each => exact evaluates_array kind (forall₂_imp_of_mem each fun item listed _ own => ih item listed own)
  | object keyed _ ih =>
    obtain ⟨kind, each⟩ := spelled_object.mp spelled
    refine evaluates_object kind (forall₂_imp_of_mem each fun m listed part own => ?_)
    obtain ⟨key, value, pair, name, content⟩ := own
    exact pairs_spelled pair name (keyed m listed).1 (keyed m listed).2 (ih m listed content)

end Literal

end Script
end SchemaAtlas
