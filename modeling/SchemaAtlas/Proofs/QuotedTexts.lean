import SchemaAtlas.Proofs.ScriptReading
import SchemaAtlas.Script.Literal

namespace SchemaAtlas
namespace Script

-- Texts in quotes, piece by piece: what each piece stands for in the language, and what
-- is kept of it.

def codeUnits (n : Nat) : List Nat :=
  if n < 0x10000 then [n] else [0xD800 + (n - 0x10000) / 0x400, 0xDC00 + (n - 0x10000) % 0x400]

def unitsOf (cs : List Char) : List Nat := cs.flatMap fun c => codeUnits c.toNat

-- No code unit of a character stands for another one: the units of pairs are no characters.
theorem codeUnits_cancel {a b : Char} {as bs : List Nat} (same : codeUnits a.toNat ++ as = codeUnits b.toNat ++ bs) :
    a = b ∧ as = bs := by
  have validA : a.toNat < 0xD800 ∨ 0xDFFF < a.toNat ∧ a.toNat < 0x110000 := a.valid
  have validB : b.toNat < 0xD800 ∨ 0xDFFF < b.toNat ∧ b.toNat < 0x110000 := b.valid
  have of_toNat (equal : a.toNat = b.toNat) : a = b := by rw [← Char.ofNat_toNat a, equal, Char.ofNat_toNat]
  unfold codeUnits at same
  split at same <;> split at same
  · obtain ⟨first, rest⟩ := List.cons.inj same
    exact ⟨of_toNat first, rest⟩
  · obtain ⟨first, -⟩ := List.cons.inj same
    omega
  · obtain ⟨first, -⟩ := List.cons.inj same
    omega
  · obtain ⟨first, same⟩ := List.cons.inj same
    obtain ⟨second, rest⟩ := List.cons.inj same
    exact ⟨of_toNat (by omega), rest⟩

theorem unitsOf_injective {as bs : List Char} (same : unitsOf as = unitsOf bs) : as = bs := by
  have long (c : Char) (units : List Nat) : codeUnits c.toNat ++ units ≠ [] := by
    unfold codeUnits
    split <;> exact List.cons_ne_nil _ _
  induction as generalizing bs with
  | nil =>
    cases bs with
    | nil => rfl
    | cons b bs => exact absurd same.symm (long b _)
  | cons a as ih =>
    cases bs with
    | nil => exact absurd same (long a _)
    | cons b bs =>
      obtain ⟨rfl, rest⟩ := codeUnits_cancel same
      rw [ih rest]

-- A character behind a backslash, a code of two or four digits or between braces, or a
-- line that goes on.
inductive Escape where
  | single (c : Char)
  | hex (digits : List Char)
  | unicode (digits : List Char)
  | point (digits : List Char)
  | lineEnd (ends : List Char)

namespace Escape

def text : Escape → List Char
  | single c => ['\\', c]
  | hex digits => '\\' :: 'x' :: digits
  | unicode digits => '\\' :: 'u' :: digits
  | point digits => '\\' :: 'u' :: '\x7b' :: (digits ++ ['\x7d'])
  | lineEnd ends => '\\' :: ends

def controls : List (Char × Char) :=
  [('n', '\n'), ('t', '\t'), ('r', '\r'), ('0', Char.ofNat 0), ('b', Char.ofNat 8), ('f', Char.ofNat 12), ('v', Char.ofNat 11)]

def codeOf (digits : List Char) : Nat := (Numeral.natural? 16 digits).getD 0

def units : Escape → List Nat
  | single c => codeUnits ((controls.lookup c).getD c).toNat
  | hex digits => [codeOf digits]
  | unicode digits => [codeOf digits]
  | point digits => codeUnits (codeOf digits)
  | lineEnd _ => []

def lineEnds : List (List Char) := [['\n'], ['\r'], ['\r', '\n'], [Char.ofNat 0x2028], [Char.ofNat 0x2029]]

def WellFormed : Escape → Prop
  | single c => c ∉ ['x', 'u'] ∧ isLineEnd c = false ∧ (isDigit c = true → c = '0')
  | hex digits => digits.length = 2 ∧ ∀ d ∈ digits, d ∈ Grammar.hexDigits
  | unicode digits => digits.length = 4 ∧ ∀ d ∈ digits, d ∈ Grammar.hexDigits
  | point digits => digits ≠ [] ∧ codeOf digits ≤ 0x10FFFF ∧ ∀ d ∈ digits, d ∈ Grammar.hexDigits
  | lineEnd ends => ends ∈ lineEnds

-- What may stand behind an escape: no digit behind a zero, no further line end behind a line end
-- that it could belong to.
def StopsAt : Escape → Option Char → Prop
  | single c, next => c = '0' → ∀ d ∈ next, isDigit d = false
  | lineEnd ends, next => ends = ['\r'] → ∀ d ∈ next, isLineEnd d = false
  | _, _ => True

def kept : Escape → List Char
  | single 'n' => ['\n']
  | single 't' => ['\t']
  | single 'r' => ['\r']
  | single '0' => [Char.ofNat 0]
  | e => e.text.dropWhile (· == '\\')

-- An escape that is decoded: no code, no line end, and none of four letters.
def Simple (e : Escape) : Prop := ∃ c, e = single c ∧ c ∉ ['b', 'f', 'v', '\\']

theorem text_cons (e : Escape) : ∃ body, e.text = '\\' :: body := by cases e <;> exact ⟨_, rfl⟩

theorem unescape_text {e : Escape} (formed : e.WellFormed) :
    unescape (String.ofList e.text) = String.ofList e.kept := by
  unfold unescape
  rw [String.toList_ofList]
  cases e with
  | single c =>
    by_cases line : c = 'n'
    · subst line; rfl
    by_cases tab : c = 't'
    · subst tab; rfl
    by_cases back : c = 'r'
    · subst back; rfl
    by_cases zero : c = '0'
    · subst zero; rfl
    simp [text, kept, line, tab, back, zero]
  | hex digits => rfl
  | unicode digits => rfl
  | point digits => rfl
  | lineEnd ends =>
    have formed : ends ∈ lineEnds := formed
    simp only [lineEnds, List.mem_cons, List.not_mem_nil, or_false] at formed
    rcases formed with rfl | rfl | rfl | rfl | rfl <;> rfl

theorem units_kept {e : Escape} (simple : e.Simple) : unitsOf e.kept = e.units := by
  obtain ⟨c, rfl, other⟩ := simple
  by_cases line : c = 'n'
  · subst line; rfl
  by_cases tab : c = 't'
  · subst tab; rfl
  by_cases back : c = 'r'
  · subst back; rfl
  by_cases zero : c = '0'
  · subst zero; rfl
  simp only [List.mem_cons, List.not_mem_nil, or_false, not_or] at other
  have plain : controls.lookup c = none := by
    simp only [controls, List.lookup_cons, beq_eq_false_iff_ne.mpr line, beq_eq_false_iff_ne.mpr tab,
      beq_eq_false_iff_ne.mpr back, beq_eq_false_iff_ne.mpr zero, beq_eq_false_iff_ne.mpr other.1,
      beq_eq_false_iff_ne.mpr other.2.1, beq_eq_false_iff_ne.mpr other.2.2.1, List.lookup_nil]
  simp [text, kept, units, unitsOf, plain, line, tab, back, zero, other.2.2.2]

-- Two characters, but three octal digits count as one code.
theorem escapeLength_single {c : Char} (letters : c ∉ ['x', 'u', '\r']) (rest : List Char) :
    Grammar.escapeLength ('\\' :: c :: rest) =
      if '0' ≤ c && c ≤ '7' then ((c :: rest).take 3 |>.takeWhile fun d => '0' ≤ d && d ≤ '7').length + 1 else 2 := by
  simp only [List.mem_cons, List.not_mem_nil, or_false, not_or] at letters
  simp [Grammar.escapeLength, letters]

theorem isDigit_of_octal (octal : ('0' ≤ c && c ≤ '7') = true) : isDigit c = true := by
  simp only [isDigit, Bool.and_eq_true, decide_eq_true_eq] at octal ⊢
  exact ⟨octal.1, Char.le_trans octal.2 (by decide)⟩

theorem escapeLength_text {e : Escape} (formed : e.WellFormed) (rest : List Char) (stops : e.StopsAt rest.head?) :
    Grammar.escapeLength (e.text ++ rest) = e.text.length := by
  cases e with
  | single c =>
    obtain ⟨letters, line, digit⟩ := formed
    have carriage : c ≠ '\r' := by
      rintro rfl
      cases line
    change Grammar.escapeLength ('\\' :: c :: rest) = 2
    rw [escapeLength_single (by simpa [carriage] using letters)]
    split
    · next octal =>
      obtain rfl := digit (isDigit_of_octal octal)
      cases rest with
      | nil => rfl
      | cons d rest =>
        have plain : ('0' ≤ d && d ≤ '7') = false := by
          have other : isDigit d = false := stops rfl d rfl
          by_contra octal
          rw [isDigit_of_octal (by simpa using octal)] at other
          cases other
        simp [plain]
    · rfl
  | hex digits =>
    change 4 = _
    simp [text, formed.1]
  | unicode digits =>
    obtain ⟨four, hex⟩ := formed
    cases digits with
    | nil => cases four
    | cons d ds =>
      have brace : d ≠ '\x7b' := by
        rintro rfl
        exact absurd (hex _ List.mem_cons_self) (by decide)
      have six : Grammar.escapeLength ('\\' :: 'u' :: d :: (ds ++ rest)) = 6 := by simp [Grammar.escapeLength, brace]
      rw [List.length_cons] at four
      simp only [text, List.cons_append, six, List.length_cons]
      omega
  | point digits =>
    have inside : ∀ d ∈ digits, Grammar.hexDigits.contains d = true :=
      fun d listed => List.elem_eq_true_of_mem (formed.2.2 d listed)
    have brace : Grammar.hexDigits.contains '\x7d' = false := by decide
    have hex : (digits ++ '\x7d' :: rest).takeWhile Grammar.hexDigits.contains = digits := by
      rw [List.takeWhile_append_of_pos inside, List.takeWhile_cons_of_neg (by rw [brace]; decide), List.append_nil]
    change Grammar.escapeLength ('\\' :: 'u' :: '\x7b' :: ((digits ++ ['\x7d']) ++ rest)) = _
    rw [List.append_assoc]
    change ((digits ++ '\x7d' :: rest).takeWhile Grammar.hexDigits.contains).length + 4 = _
    rw [hex]
    simp [text]
  | lineEnd ends =>
    have formed : ends ∈ lineEnds := formed
    simp only [lineEnds, List.mem_cons, List.not_mem_nil, or_false] at formed
    rcases formed with rfl | rfl | rfl | rfl | rfl
    · rfl
    · cases rest with
      | nil => rfl
      | cons d rest => exact if_neg (by simp [stops rfl d rfl])
    · rfl
    · rfl
    · rfl

end Escape

inductive Segment where
  | plain (chars : List Char)
  | escape (e : Escape)

namespace Segment

def text : Segment → List Char
  | plain chars => chars
  | escape e => e.text

def units : Segment → List Nat
  | plain chars => unitsOf chars
  | escape e => e.units

def kept : Segment → List Char
  | plain chars => chars
  | escape e => e.kept

def isPlain : Segment → Bool
  | plain _ => true
  | escape _ => false

end Segment

inductive Quote where
  | double
  | single
  | backquote
deriving DecidableEq

namespace Quote

def char : Quote → Char
  | double => '"'
  | single => '\''
  | backquote => '`'

-- The characters that stand for themselves between quotes. A template may go over lines,
-- but nothing in it opens a substitution.
def Allows (q : Quote) (chars : List Char) : Prop :=
  (∀ c ∈ chars, c ≠ q.char ∧ c ≠ '\\' ∧ c ≠ '\r' ∧ (q ≠ backquote → c ≠ '\n')) ∧
    (q = backquote → ¬ ['$', '\x7b'] <:+: chars)

end Quote

structure Quoted where
  quote : Quote
  segments : List Segment

namespace Quoted

def contentOf (segments : List Segment) : List Char := segments.flatMap Segment.text

def text (q : Quoted) : List Char := q.quote.char :: (contentOf q.segments ++ [q.quote.char])

def units (q : Quoted) : List Nat := q.segments.flatMap Segment.units

-- What the evaluator makes of a text. A template stays as it is written, without the quotes
-- at either end.
def kept (q : Quoted) : List Char :=
  match q.quote with
  | .backquote => ((q.text.dropWhile (· == '`')).reverse.dropWhile (· == '`')).reverse
  | _ => q.segments.flatMap Segment.kept

-- Rows of characters are as long as they can be.
def Formed (q : Quote) : List Segment → Prop
  | [] => True
  | .plain chars :: rest =>
    (chars ≠ [] ∧ q.Allows chars ∧ ∀ next ∈ rest.head?, next.isPlain = false) ∧ Formed q rest
  | .escape e :: rest => (e.WellFormed ∧ e.StopsAt (contentOf rest ++ [q.char]).head?) ∧ Formed q rest

def WellFormed (q : Quoted) : Prop := Formed q.quote q.segments

def Simple (q : Quoted) : Prop := ∀ e, .escape e ∈ q.segments → q.quote ≠ .backquote ∧ e.Simple

theorem formed_allows {q : Quote} {segments : List Segment} (formed : Formed q segments)
    (listed : .plain chars ∈ segments) : q.Allows chars := by
  induction segments with
  | nil => cases listed
  | cons piece rest ih =>
    rcases List.mem_cons.mp listed with rfl | further
    · exact formed.1.2.1
    · cases piece with
      | plain others => exact ih formed.2 further
      | escape e => exact ih formed.2 further

theorem unitsOf_flatMap {segments : List Segment} (simple : ∀ e, .escape e ∈ segments → e.Simple) :
    unitsOf (segments.flatMap Segment.kept) = segments.flatMap Segment.units := by
  rw [unitsOf, List.flatMap_assoc]
  refine List.flatMap_congr fun piece listed => ?_
  cases piece with
  | plain chars => rfl
  | escape e => exact Escape.units_kept (simple e listed)

theorem kept_template {q : Quoted} (formed : q.WellFormed) (template : q.quote = .backquote)
    (plain : ∀ e, .escape e ∉ q.segments) : q.kept = q.segments.flatMap Segment.kept := by
  have same : contentOf q.segments = q.segments.flatMap Segment.kept := by
    refine List.flatMap_congr fun piece listed => ?_
    cases piece with
    | plain chars => rfl
    | escape e => exact absurd listed (plain e)
  -- Without an escape there is no quote but the two at the ends.
  have apart : ∀ c ∈ contentOf q.segments, (c == '`') = false := by
    intro c inside
    obtain ⟨piece, listed, inside⟩ := List.mem_flatMap.mp inside
    cases piece with
    | plain chars =>
      have allowed := formed_allows formed listed
      rw [template] at allowed
      exact beq_eq_false_iff_ne.mpr (allowed.1 c inside).1
    | escape e => exact absurd listed (plain e)
  rw [kept, template, text, template, ← same]
  generalize contentOf q.segments = content at apart
  cases content with
  | nil => rfl
  | cons c rest =>
    have front : List.dropWhile (· == '`') ('`' :: (c :: rest ++ ['`'])) = c :: rest ++ ['`'] := by
      simp [apart c List.mem_cons_self]
    have back : List.dropWhile (· == '`') ([] ++ (c :: rest).reverse) = (c :: rest).reverse :=
      (span_stop (by simp) fun d last => apart d (List.mem_reverse.mp (List.mem_of_mem_head? last))).2
    rw [List.nil_append] at back
    change (List.dropWhile (· == '`') (List.dropWhile (· == '`') ('`' :: (c :: rest ++ ['`']))).reverse).reverse = _
    rw [front, List.reverse_append]
    change (List.dropWhile (· == '`') ('`' :: (c :: rest).reverse)).reverse = _
    rw [List.dropWhile_cons_of_pos (by decide), back, List.reverse_reverse]

theorem units_kept {q : Quoted} (formed : q.WellFormed) (simple : q.Simple) : unitsOf q.kept = q.units := by
  have same : q.kept = q.segments.flatMap Segment.kept := by
    by_cases template : q.quote = .backquote
    · exact kept_template formed template fun e listed => (simple e listed).1 template
    · rw [kept]
      split
      · next back => exact absurd back template
      · rfl
  rw [same, unitsOf_flatMap fun e listed => (simple e listed).2]
  rfl

end Quoted

inductive Spells : Segment → Tree → Prop where
  | plain : t.kind = .stringFragment → t.text = String.ofList chars → Spells (.plain chars) t
  | escape : t.kind = .escapeSequence → t.text = String.ofList e.text → Spells (.escape e) t

-- The tree of a text. A template is read as it is written, whatever its pieces are, as long as
-- none of them is put in.
inductive Quoted.Spelled (q : Quoted) (t : Tree) : Prop where
  | string : q.quote ≠ .backquote → t.kind = .string → List.Forall₂ Spells q.segments t.parts → q.Spelled t
  | template : q.quote = .backquote → t.kind = .templateString → t.text = String.ofList q.text →
      t.parts.any (·.kind == .templateSubstitution) = false → q.Spelled t

namespace Quoted

variable {q : Quoted} {t : Tree}

theorem Spelled.withRole (spelled : q.Spelled t) (role : Role) : q.Spelled (t.withRole role) := by
  cases spelled with
  | string quotes kind pieces => exact .string quotes kind pieces
  | template back kind text whole => exact .template back kind text whole

theorem stringValue_spelled {mark : Quote} {segments : List Segment} (spells : List.Forall₂ Spells segments t.parts)
    (formed : Formed mark segments) : t.stringValue = String.ofList (segments.flatMap Segment.kept) := by
  rw [Tree.stringValue]
  generalize t.parts = ts at spells
  induction spells with
  | nil => rfl
  | cons own _ ih =>
    rw [List.map_cons, String.join_cons, List.flatMap_cons, String.ofList_append]
    cases own with
    | plain kind text => rw [ih formed.2, kind, text]; rfl
    | escape kind text =>
      rw [ih formed.2, kind, text]
      dsimp only
      rw [Escape.unescape_text formed.1.1]
      rfl

theorem Spelled.stringValue (spelled : q.Spelled t) (formed : q.WellFormed) (quotes : q.quote ≠ .backquote) :
    t.kind = .string ∧ t.stringValue = String.ofList q.kept := by
  cases spelled with
  | string _ kind pieces =>
    refine ⟨kind, (stringValue_spelled pieces formed).trans ?_⟩
    rw [kept]
    split
    · next back => exact absurd back quotes
    · rfl
  | template back => exact absurd back quotes

theorem Spelled.value (spelled : q.Spelled t) (formed : q.WellFormed) :
    t.kind.isWrapper = false ∧ ∀ value?, valueOver value? t = some (.string (String.ofList q.kept)) := by
  cases spelled with
  | string quotes kind pieces =>
    obtain ⟨-, content⟩ := (Spelled.string quotes kind pieces).stringValue formed quotes
    exact ⟨by rw [kind]; rfl, fun value? => by rw [valueOver, kind, ← content]⟩
  | template back kind text whole =>
    refine ⟨by rw [kind]; rfl, fun value? => ?_⟩
    have content : templateContent t.text = String.ofList q.kept := by
      rw [text, templateContent, String.toList_ofList, kept, back]
    rw [valueOver, kind]
    simp only [whole, content, Bool.false_eq_true, if_false]

end Quoted

namespace Reading

open Grammar

variable {c : Cursor} {tail : List Char}

theorem chars_apply {kind : Kind} (other : kind.isName = false) (split : c.rest = text ++ tail) (long : text ≠ []) :
    ∃ t, chars kind text.length c = some (t, c.advance text.length) ∧ t.kind = kind ∧ t.text = String.ofList text := by
  have fits : (decide (text.length > 0) && decide (c.rest.length ≥ text.length)) = true := by
    have := List.length_pos_iff.mpr long
    simp [split, this]
  obtain ⟨kinds, texts, -⟩ := Cursor.tree_parts c (c.advance text.length) kind [] other
  refine ⟨c.tree kind [] (c.advance text.length), ?_, kinds, texts.trans (Cursor.textTo_past split)⟩
  rw [chars, bind_some (cursor_apply c), fits, bind_some (check_apply true c), bind_some (set_apply _ c)]
  rfl

def pieceRule (substitution : Reading Tree) : Quote → Reading (Option Tree)
  | .double => stringPiece '"'
  | .single => stringPiece '\''
  | .backquote => templatePiece substitution

variable {q : Quote} (substitution : Reading Tree)

theorem pieceRule_ended (ended : c.rest = q.char :: tail) : pieceRule substitution q c = some (none, c) := by
  cases q with
  | double =>
    rw [pieceRule, stringPiece, bind_some (cursor_apply c), ended]
    rfl
  | single =>
    rw [pieceRule, stringPiece, bind_some (cursor_apply c), ended]
    rfl
  | backquote =>
    rw [pieceRule, templatePiece, bind_some (cursor_apply c), ended]
    rfl

theorem pieceRule_escape {e : Escape} (formed : e.WellFormed) (stops : e.StopsAt tail.head?)
    (split : c.rest = e.text ++ tail) :
    ∃ t, pieceRule substitution q c = some (some t, c.advance e.text.length) ∧ Spells (.escape e) t := by
  obtain ⟨body, head⟩ := e.text_cons
  obtain ⟨t, read, kind, text⟩ : ∃ t, chars .escapeSequence e.text.length c = some (t, c.advance e.text.length) ∧
      t.kind = .escapeSequence ∧ t.text = String.ofList e.text := chars_apply rfl split (by simp [head])
  have length := Escape.escapeLength_text formed tail stops
  refine ⟨t, ?_, .escape kind text⟩
  rw [head, List.cons_append] at split length
  cases q with
  | double =>
    rw [pieceRule, stringPiece, bind_some (cursor_apply c), split]
    change (chars .escapeSequence (escapeLength ('\\' :: (body ++ tail))) >>= _ : Reading (Option Tree)) c = _
    rw [length, ← head, bind_some read]
    rfl
  | single =>
    rw [pieceRule, stringPiece, bind_some (cursor_apply c), split]
    change (chars .escapeSequence (escapeLength ('\\' :: (body ++ tail))) >>= _ : Reading (Option Tree)) c = _
    rw [length, ← head, bind_some read]
    rfl
  | backquote =>
    rw [pieceRule, templatePiece, bind_some (cursor_apply c)]
    simp only [split]
    rw [length, ← head, bind_some read]
    rfl

theorem stringPiece_plain {quote : Char} {text : List Char} (apart : ∀ d ∈ text, d ≠ quote ∧ d ≠ '\\' ∧ d ≠ '\n' ∧ d ≠ '\r')
    (long : text ≠ []) (stops : ∀ d ∈ tail.head?, d = quote ∨ d = '\\') (split : c.rest = text ++ tail) :
    ∃ t, stringPiece quote c = some (some t, c.advance text.length) ∧ Spells (.plain text) t := by
  obtain ⟨t, read, kind, same⟩ : ∃ t, chars .stringFragment text.length c = some (t, c.advance text.length) ∧
      t.kind = .stringFragment ∧ t.text = String.ofList text := chars_apply rfl split long
  refine ⟨t, ?_, .plain kind same⟩
  have row : (text ++ tail).takeWhile (fun d => d != quote && d != '\\' && d != '\n' && d != '\r') = text :=
    (span_stop (fun d inside => by simpa [and_assoc] using apart d inside)
      (fun d behind => by rcases stops d behind with rfl | rfl <;> simp)).1
  cases text with
  | nil => exact absurd rfl long
  | cons d rest =>
    obtain ⟨notQuote, notSlash, -⟩ := apart d List.mem_cons_self
    rw [stringPiece, bind_some (cursor_apply c), split]
    simp only [List.cons_append, beq_eq_false_iff_ne.mpr notQuote, beq_eq_false_iff_ne.mpr notSlash, Bool.false_eq_true,
      if_false]
    rw [List.cons_append] at row
    rw [row, bind_some read]
    rfl

theorem plainLength_cons (other : d ≠ '`' ∧ d ≠ '\\') (closed : d = '$' → ∀ e ∈ rest.head?, e ≠ '\x7b') :
    plainLength (d :: rest) = plainLength rest + 1 := by
  rw [plainLength.eq_def]
  split
  · next same =>
    cases same
    exact absurd rfl (closed rfl _ rfl)
  · next same =>
    cases same
    simp [other]
  · next same => cases same

theorem plainLength_row {text : List Char} (apart : ∀ d ∈ text, d ≠ '`' ∧ d ≠ '\\') (closed : ¬ ['$', '\x7b'] <:+: text)
    (stops : ∀ d ∈ tail.head?, d = '`' ∨ d = '\\') : plainLength (text ++ tail) = text.length := by
  induction text with
  | nil =>
    cases tail with
    | nil => rfl
    | cons d rest => rcases stops d rfl with rfl | rfl <;> rfl
  | cons d rest ih =>
    obtain ⟨own, others⟩ := List.forall_mem_cons.mp apart
    have closedRest : ¬ ['$', '\x7b'] <:+: rest := fun inside => closed (inside.trans (List.suffix_cons d rest).isInfix)
    have next : d = '$' → ∀ e ∈ (rest ++ tail).head?, e ≠ '\x7b' := by
      rintro rfl e behind rfl
      cases rest with
      | nil => rcases stops _ behind with same | same <;> cases same
      | cons f rest =>
        cases behind
        exact closed ⟨[], rest, rfl⟩
    rw [List.cons_append, plainLength_cons own next, ih others closedRest, List.length_cons]

theorem templatePiece_row (long : plainLength c.rest ≠ 0) : templatePiece substitution c =
    (chars .stringFragment (plainLength c.rest) >>= fun t => pure (some t) : Reading (Option Tree)) c := by
  rw [templatePiece, bind_some (cursor_apply c)]
  refine congrFun ?_ c
  split
  · next same => exact absurd (by rw [same]; rfl) long
  · next same => exact absurd (by rw [same]; rfl) long
  · next same => exact absurd (by rw [same]; rfl) long
  · rfl

theorem templatePiece_plain {text : List Char} (apart : ∀ d ∈ text, d ≠ '`' ∧ d ≠ '\\') (closed : ¬ ['$', '\x7b'] <:+: text)
    (long : text ≠ []) (stops : ∀ d ∈ tail.head?, d = '`' ∨ d = '\\') (split : c.rest = text ++ tail) :
    ∃ t, templatePiece substitution c = some (some t, c.advance text.length) ∧ Spells (.plain text) t := by
  obtain ⟨t, read, kind, same⟩ : ∃ t, chars .stringFragment text.length c = some (t, c.advance text.length) ∧
      t.kind = .stringFragment ∧ t.text = String.ofList text := chars_apply rfl split long
  refine ⟨t, ?_, .plain kind same⟩
  have row : plainLength c.rest = text.length := split ▸ plainLength_row apart closed stops
  rw [templatePiece_row substitution (by simpa [row] using long), row, bind_some read]
  rfl

theorem pieceRule_plain {text : List Char} (allowed : q.Allows text) (long : text ≠ [])
    (stops : ∀ d ∈ tail.head?, d = q.char ∨ d = '\\') (split : c.rest = text ++ tail) :
    ∃ t, pieceRule substitution q c = some (some t, c.advance text.length) ∧ Spells (.plain text) t := by
  obtain ⟨apart, closed⟩ := allowed
  cases q with
  | double =>
    exact stringPiece_plain (fun d inside =>
      ⟨(apart d inside).1, (apart d inside).2.1, (apart d inside).2.2.2 (by decide), (apart d inside).2.2.1⟩) long stops split
  | single =>
    exact stringPiece_plain (fun d inside =>
      ⟨(apart d inside).1, (apart d inside).2.1, (apart d inside).2.2.2 (by decide), (apart d inside).2.2.1⟩) long stops split
  | backquote =>
    exact templatePiece_plain substitution (fun d inside => ⟨(apart d inside).1, (apart d inside).2.1⟩) (closed rfl) long
      stops split

theorem row_stops {rest : List Segment} (next : ∀ piece ∈ rest.head?, piece.isPlain = false) :
    ∀ d ∈ (Quoted.contentOf rest ++ q.char :: tail).head?, d = q.char ∨ d = '\\' := by
  intro d behind
  cases rest with
  | nil => exact .inl (Option.mem_some_iff.mp behind).symm
  | cons piece rest =>
    cases piece with
    | plain others => cases next _ rfl
    | escape e =>
      have first : (Quoted.contentOf (.escape e :: rest) ++ q.char :: tail).head? = some '\\' := by
        obtain ⟨body, head⟩ := e.text_cons
        change (e.text ++ Quoted.contentOf rest ++ q.char :: tail).head? = _
        rw [head]
        rfl
      rw [first] at behind
      exact .inr (Option.mem_some_iff.mp behind).symm

theorem piece_read {piece : Segment} {rest : List Segment} (formed : Quoted.Formed q (piece :: rest))
    (split : c.rest = piece.text ++ (Quoted.contentOf rest ++ q.char :: tail)) :
    piece.text ≠ [] ∧ ∃ t, pieceRule substitution q c = some (some t, c.advance piece.text.length) ∧ Spells piece t := by
  cases piece with
  | plain text =>
    obtain ⟨long, allowed, next⟩ := formed.1
    exact ⟨long, pieceRule_plain substitution allowed long (row_stops next) split⟩
  | escape e =>
    obtain ⟨formed, stops⟩ := formed.1
    obtain ⟨body, head⟩ := e.text_cons
    refine ⟨by rw [Segment.text, head]; exact List.cons_ne_nil _ _, pieceRule_escape substitution formed ?_ split⟩
    cases inner : Quoted.contentOf rest <;> simpa [inner] using stops

theorem pieces_read {segments : List Segment} (formed : Quoted.Formed q segments) (c : Cursor)
    (split : c.rest = Quoted.contentOf segments ++ q.char :: tail) :
    ∃ ts, Rounds (pieceRule substitution q) c ts (c.advance (Quoted.contentOf segments).length) ∧
      List.Forall₂ Spells segments ts := by
  induction segments generalizing c with
  | nil => exact ⟨[], .done (pieceRule_ended substitution split), .nil⟩
  | cons piece rest ih =>
    have whole : Quoted.contentOf (piece :: rest) = piece.text ++ Quoted.contentOf rest := rfl
    rw [whole, List.append_assoc] at split
    obtain ⟨long, t, read, spells⟩ := piece_read substitution formed split
    have formed : Quoted.Formed q rest := by cases piece <;> exact formed.2
    obtain ⟨ts, rounds, all⟩ := ih formed _ (Cursor.rest_past split)
    rw [Cursor.advance_add, ← List.length_append, ← whole] at rounds
    exact ⟨t :: ts, .more read (Cursor.shorter split long) rounds, .cons spells all⟩

theorem cut_quote (q : Quote) (rest : List Char) :
    cut (q.char :: rest) = (if q = .backquote then .backquote else .quote, 1) := by
  cases q <;> rfl

theorem solid_quote (q : Quote) (rest : List Char) : Cursor.Solid (q.char :: rest) := by
  cases q <;> exact ⟨by simp [isSpace, Quote.char], rfl⟩

theorem quote_token (split : c.rest = q.char :: tail) : c.token =
    { shape := if q = .backquote then .backquote else .quote, text := String.ofList [q.char], start := c
      next := c.advance 1, newline := false, comments := [] } := by
  have solid : Cursor.Solid c.rest := split ▸ solid_quote q tail
  rw [Cursor.token_solid solid (by rw [split, cut_quote]), split]
  rfl

theorem spells_parts (spells : List.Forall₂ Spells segments ts) {t : Tree} (children : t.children = ts) :
    t.parts = ts ∧ t.parts.any (·.kind == .templateSubstitution) = false := by
  have each : ∀ piece ∈ ts, piece.kind = .stringFragment ∨ piece.kind = .escapeSequence := by
    clear children
    induction spells with
    | nil => simp
    | cons own _ ih =>
      refine List.forall_mem_cons.mpr ⟨?_, ih⟩
      cases own with
      | plain kind _ => exact .inl kind
      | escape kind _ => exact .inr kind
  have all : t.parts = ts := by
    rw [Tree.parts, children, List.filter_eq_self]
    intro piece listed
    rcases each piece listed with kind | kind <;> rw [kind] <;> rfl
  refine ⟨all, ?_⟩
  rw [all, List.any_eq_false]
  intro piece listed
  rcases each piece listed with kind | kind <;> rw [kind] <;> decide

theorem quoted_read {q : Quoted} (formed : q.WellFormed) (split : c.rest = q.text ++ tail) :
    ∃ ts, many (pieceRule substitution q.quote) (c.advance 1) =
        some (ts, c.advance (1 + (Quoted.contentOf q.segments).length)) ∧
      List.Forall₂ Spells q.segments ts ∧
      (c.advance (1 + (Quoted.contentOf q.segments).length)).advance 1 = c.advance q.text.length := by
  have opened : c.rest = [q.quote.char] ++ (Quoted.contentOf q.segments ++ q.quote.char :: tail) := by
    rw [split, Quoted.text]
    simp
  obtain ⟨ts, rounds, spells⟩ := pieces_read substitution formed (c.advance 1) (Cursor.rest_past opened)
  rw [Cursor.advance_add] at rounds
  refine ⟨ts, rounds.many, spells, ?_⟩
  rw [Cursor.advance_add]
  congr 1
  simp [Quoted.text]
  omega

theorem string_read {q : Quoted} (formed : q.WellFormed) (quotes : q.quote ≠ .backquote) (split : c.rest = q.text ++ tail) :
    ∃ t, string c = some (t, c.advance q.text.length) ∧ q.Spelled t := by
  obtain ⟨ts, read, spells, stop⟩ := quoted_read failure formed split
  have rule : pieceRule failure q.quote = stringPiece q.quote.char := by
    cases same : q.quote with
    | double => rfl
    | single => rfl
    | backquote => exact absurd same quotes
  obtain ⟨kind, -, children⟩ := Cursor.tree_parts c (c.advance q.text.length) .string ts rfl
  refine ⟨_, ?_, .string quotes kind (by rw [(spells_parts spells children).1]; exact spells)⟩
  rw [rule] at read
  rw [string, bind_some (peek_apply c), quote_token split, if_neg quotes]
  dsimp only
  rw [beq_self_eq_true, bind_some (check_apply true c), Reading.take, bind_some (set_apply _ c), String.toList_ofList]
  simp only [List.head?_cons, Option.getD_some]
  rw [bind_some read, bind_some (cursor_apply _), stop, bind_some (set_apply _ _)]
  rfl

theorem template_read {q : Quoted} (formed : q.WellFormed) (back : q.quote = .backquote) (split : c.rest = q.text ++ tail) :
    ∃ t, template substitution c = some (t, c.advance q.text.length) ∧ q.Spelled t := by
  obtain ⟨ts, read, spells, stop⟩ := quoted_read substitution formed split
  obtain ⟨kind, text, children⟩ := Cursor.tree_parts c (c.advance q.text.length) .templateString ts rfl
  refine ⟨_, ?_, .template back kind (text.trans (Cursor.textTo_past split)) (spells_parts spells children).2⟩
  rw [back] at read
  rw [template, bind_some (peek_apply c), quote_token split, if_pos back]
  dsimp only
  rw [beq_self_eq_true, bind_some (check_apply true c), Reading.take, bind_some (set_apply _ c)]
  change (many (pieceRule substitution .backquote) >>= _ : Reading Tree) (c.advance 1) = _
  rw [bind_some read, bind_some (cursor_apply _), stop, bind_some (set_apply _ _)]
  rfl

end Reading

end Script
end SchemaAtlas
