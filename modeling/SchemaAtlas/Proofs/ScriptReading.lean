import Mathlib.Data.List.Forall2
import SchemaAtlas.Script.Grammar.Modules

namespace SchemaAtlas
namespace Script

-- How rules read a text that has no blanks in it.

theorem span_stop {p : Char → Bool} {row rest : List Char} (inside : ∀ c ∈ row, p c = true)
    (stops : ∀ c ∈ rest.head?, p c = false) :
    (row ++ rest).takeWhile p = row ∧ (row ++ rest).dropWhile p = rest := by
  rw [List.takeWhile_append_of_pos inside, List.dropWhile_append_of_pos inside]
  cases rest with
  | nil => simp
  | cons c cs => simp [stops c rfl]

namespace Cursor

variable (c : Cursor)

theorem rest_advance (count : Nat) : (c.advance count).rest = c.rest.drop count := by
  induction count generalizing c with
  | zero => rfl
  | succ count ih =>
    rw [advance]
    split
    · next nothing => rw [nothing]; rfl
    · next x rest split => rw [ih, split]; rfl

theorem advance_add (first second : Nat) : (c.advance first).advance second = c.advance (first + second) := by
  induction first generalizing c with
  | zero => rw [advance, Nat.zero_add]
  | succ first ih =>
    rw [Nat.succ_add, advance, advance]
    split
    · next nothing =>
      cases second with
      | zero => rfl
      | succ second => rw [advance, nothing]
    · exact ih _

theorem offset_advance {count : Nat} (inside : count ≤ c.rest.length) : (c.advance count).offset = c.offset + count := by
  induction count generalizing c with
  | zero => rfl
  | succ count ih =>
    cases split : c.rest with
    | nil => simp [split] at inside
    | cons x rest =>
      have inside : count ≤ rest.length := by simpa [split] using inside
      rw [advance, split]
      dsimp only
      rw [ih _ inside]
      exact Nat.add_right_comm c.offset 1 count

variable {c} {text tail : List Char}

theorem rest_past (at_ : c.rest = text ++ tail) : (c.advance text.length).rest = tail := by
  rw [rest_advance, at_, List.drop_left]

theorem textTo_past (at_ : c.rest = text ++ tail) : c.textTo (c.advance text.length) = String.ofList text := by
  rw [textTo, offset_advance c (by simp [at_]), Nat.add_sub_cancel_left, at_, List.take_left]

theorem shorter (split : c.rest = text ++ tail) (long : text ≠ []) :
    (c.advance text.length).rest.length < c.rest.length := by
  have := List.length_pos_iff.mpr long
  rw [rest_past split, split, List.length_append]
  omega

def Solid (rest : List Char) : Prop := (∀ x ∈ rest.head?, isSpace x = false) ∧ commentLength? rest = none

theorem gap_solid (solid : Solid c.rest) : c.gap = { newline := false, comments := [], stop := c } := by
  have blanks : c.rest.takeWhile isSpace = [] := by
    cases split : c.rest with
    | nil => rfl
    | cons x rest => simp [solid.1 x (by simp [split])]
  simp [gap, skipSpaces, blanks, advance, solid.2]

theorem token_solid (solid : Solid c.rest) (split : cut c.rest = (shape, length)) : c.token =
    { shape := shape, text := String.ofList (c.rest.take length), start := c, next := c.advance length, newline := false
      comments := [] } := by
  rw [token, gap_solid solid]
  simp only [split]

theorem tree_parts (start stop : Cursor) (kind : Kind) (children : List Tree) (other : kind.isName = false) :
    (start.tree kind children stop).kind = kind ∧ (start.tree kind children stop).text = start.textTo stop ∧
      (start.tree kind children stop).children = children := by
  rw [tree, dif_pos (by simp [other])]
  exact ⟨rfl, rfl, rfl⟩

-- Signs of one character that no longer sign starts with.
def marks : List Char := ['[', ']', '\x7b', '\x7d', ',', ':', ';', ')']

theorem cut_mark (mark : x ∈ marks) (rest : List Char) : cut (x :: rest) = (.sign, 1) := by
  simp only [marks, List.mem_cons, List.not_mem_nil, or_false] at mark
  rcases mark with rfl | rfl | rfl | rfl | rfl | rfl | rfl | rfl <;> rfl

theorem solid_mark (mark : x ∈ marks) (rest : List Char) : Solid (x :: rest) := by
  simp only [marks, List.mem_cons, List.not_mem_nil, or_false] at mark
  rcases mark with rfl | rfl | rfl | rfl | rfl | rfl | rfl | rfl <;> exact ⟨by simp [isSpace], rfl⟩

theorem token_mark (mark : x ∈ marks) (split : c.rest = x :: tail) : c.token =
    { shape := .sign, text := String.ofList [x], start := c, next := c.advance 1, newline := false, comments := [] } := by
  have solid : Solid c.rest := split ▸ solid_mark mark tail
  rw [token_solid solid (by rw [split, cut_mark mark]), split]
  rfl

theorem token_stop (stop : c.rest = []) : c.token =
    { shape := .stop, text := "", start := c, next := c, newline := false, comments := [] } := by
  have solid : Solid c.rest := stop ▸ ⟨by simp, rfl⟩
  have nothing : cut c.rest = (.stop, 0) := by rw [stop]; rfl
  rw [token_solid solid nothing, stop]
  rfl

end Cursor

namespace Reading

theorem bind_some {first : Reading α} {next : α → Reading β} (taken : first c = some (a, later)) :
    (first >>= next) c = next a later := by
  change (first c).bind _ = _
  rw [taken]
  rfl

theorem bind_none {first : Reading α} {next : α → Reading β} (failed : first c = none) :
    (first >>= next) c = none := by
  change (first c).bind _ = _
  rw [failed]
  rfl

theorem pure_apply (a : α) (c : Cursor) : (pure a : Reading α) c = some (a, c) := rfl

theorem orElse_apply (first second : Reading α) (c : Cursor) : (first <|> second) c = (first c).or (second c) := by
  change (first c <|> second c) = _
  cases first c <;> rfl

theorem peek_apply (c : Cursor) : peek c = some (c.token, c) := rfl

theorem set_apply (next c : Cursor) : (set next : Reading PUnit) c = some (⟨⟩, next) := rfl

theorem cursor_apply (c : Cursor) : cursor c = some (c, c) := rfl

theorem here_apply (c : Cursor) : here c = some (c.token.start, c) := rfl

theorem check_apply (condition : Bool) (c : Cursor) : check condition c = if condition then some ((), c) else none := by
  cases condition <;> rfl

theorem atSign_apply (sign : String) (c : Cursor) :
    atSign sign c = some (c.token.shape == .sign && c.token.text == sign, c) := rfl

theorem acceptSign_apply (sign : String) (c : Cursor) : acceptSign sign c =
    if c.token.shape == .sign && c.token.text == sign then some (true, c.token.next) else some (false, c) := by
  change (peek >>= _ : Reading Bool) c = _
  rw [bind_some (peek_apply c)]
  split <;> rfl

variable {c : Cursor}

def Ends (rest : List Char) : Prop := rest = [] ∨ ∃ x tail, rest = x :: tail ∧ x ∈ [']', '\x7d', ',', ';', ')']

theorem Ends.mark (closing : x ∈ [']', '\x7d', ',', ';', ')']) : x ∈ Cursor.marks := by
  simp only [List.mem_cons, List.not_mem_nil, or_false] at closing
  rcases closing with rfl | rfl | rfl | rfl | rfl <;> decide

theorem Ends.token (ends : Ends c.rest) : ∃ shape text next, c.token =
    { shape := shape, text := text, start := c, next := next, newline := false, comments := [] } ∧
      (shape, text) ∈ [(TokenShape.stop, ""), (.sign, "]"), (.sign, "\x7d"), (.sign, ","), (.sign, ";"), (.sign, ")")] := by
  rcases ends with stop | ⟨x, tail, split, closing⟩
  · exact ⟨.stop, "", c, c.token_stop stop, by simp⟩
  · refine ⟨.sign, _, _, Cursor.token_mark (mark closing) split, ?_⟩
    simp only [List.mem_cons, List.not_mem_nil, or_false] at closing
    rcases closing with rfl | rfl | rfl | rfl | rfl <;> decide

theorem Ends.atSign (ends : Ends c.rest) {word : String} (other : word ∉ ["]", "\x7d", ",", ";", ")"]) :
    (c.token.shape == .sign && c.token.text == word) = false := by
  obtain ⟨shape, text, next, same, either⟩ := ends.token
  rw [same]
  simp only [List.mem_cons, List.not_mem_nil, or_false, Prod.mk.injEq, not_or] at either other
  rcases either with ⟨rfl, rfl⟩ | ⟨rfl, rfl⟩ | ⟨rfl, rfl⟩ | ⟨rfl, rfl⟩ | ⟨rfl, rfl⟩ | ⟨rfl, rfl⟩ <;>
    simp [Ne.symm other.1, Ne.symm other.2.1, Ne.symm other.2.2.1, Ne.symm other.2.2.2.1, Ne.symm other.2.2.2.2]

theorem Ends.acceptSign (ends : Ends c.rest) {word : String} (other : word ∉ ["]", "\x7d", ",", ";", ")"]) :
    acceptSign word c = some (false, c) := by
  rw [acceptSign_apply, ends.atSign other]
  rfl

open Grammar

theorem Ends.operatorAt (ends : Ends c.rest) : operatorAt c.token = none := by
  rcases ends with stop | ⟨x, tail, split, closing⟩
  · rw [c.token_stop stop]
    rfl
  · rw [Cursor.token_mark (mark closing) split]
    simp only [Grammar.operatorAt, split]
    simp only [List.mem_cons, List.not_mem_nil, or_false] at closing
    rcases closing with rfl | rfl | rfl | rfl | rfl <;> rfl

theorem Ends.assignmentAt (ends : Ends c.rest) : assignmentAt c.token = none := by
  rcases ends with stop | ⟨x, tail, split, closing⟩
  · rw [c.token_stop stop]
    rfl
  · rw [Cursor.token_mark (mark closing) split]
    simp only [Grammar.assignmentAt, split]
    simp only [List.mem_cons, List.not_mem_nil, or_false] at closing
    rcases closing with rfl | rfl | rfl | rfl | rfl <;> rfl

theorem grow_none {step : α → Reading (Option α)} (ended : step item c = some (none, c)) :
    grow item step c = some (item, c) := by
  rw [grow, bind_some (cursor_apply c), grown, bind_some ended]
  rfl

theorem chainStep_ends (ends : Ends c.rest) (r : Rules) (start : Cursor) (left : Tree) :
    chainStep r start left c = some (none, c) := by
  obtain ⟨shape, text, next, same, either⟩ := ends.token
  rw [chainStep, bind_some (peek_apply c), same]
  simp only [List.mem_cons, List.not_mem_nil, or_false, Prod.mk.injEq] at either
  rcases either with ⟨rfl, rfl⟩ | ⟨rfl, rfl⟩ | ⟨rfl, rfl⟩ | ⟨rfl, rfl⟩ | ⟨rfl, rfl⟩ | ⟨rfl, rfl⟩ <;> rfl

theorem typedStep_ends (ends : Ends c.rest) (r : Rules) (start : Cursor) (left : Tree) :
    typedStep r start left c = some (none, c) := by
  obtain ⟨shape, text, next, same, either⟩ := ends.token
  rw [typedStep, bind_some (peek_apply c), same]
  simp only [List.mem_cons, List.not_mem_nil, or_false, Prod.mk.injEq] at either
  rcases either with ⟨rfl, rfl⟩ | ⟨rfl, rfl⟩ | ⟨rfl, rfl⟩ | ⟨rfl, rfl⟩ | ⟨rfl, rfl⟩ | ⟨rfl, rfl⟩ <;> rfl

variable {start : Cursor} {t : Tree} {r : Rules} {classes : Reading Tree}

theorem chain_ends (read : primary r classes start = some (t, c)) (ends : Ends c.rest) :
    chain r classes start = some (t, c) := by
  rw [chain, bind_some (here_apply start), bind_some read]
  exact grow_none (chainStep_ends ends r _ t)

theorem updated_ends (read : primary r classes start = some (t, c)) (ends : Ends c.rest) :
    updated r classes start = some (t, c) := by
  rw [updated, bind_some (here_apply start), bind_some (chain_ends read ends), bind_some (peek_apply c)]
  have up : (c.token.shape == .sign && c.token.text == "++") = false := ends.atSign (by decide)
  have down : (c.token.shape == .sign && c.token.text == "--") = false := ends.atSign (by decide)
  rw [Bool.and_or_distrib_left, up, down]
  rfl

theorem joined_ends {inner : Reading Tree} (read : inner start = some (t, c)) (ends : Ends c.rest)
    (levels : List (List String)) : joined inner levels start = some (t, c) := by
  induction levels with
  | nil => exact read
  | cons level tighter ih =>
    rw [joined, bind_some (here_apply start), bind_some ih]
    refine grow_none ?_
    rw [bind_some (peek_apply c), ends.operatorAt]
    rfl

theorem binary_ends (read : r.unary start = some (t, c)) (ends : Ends c.rest) : binary r start = some (t, c) := by
  rw [binary, bind_some (here_apply start), bind_some (joined_ends read ends operatorLevels)]
  refine grow_none ?_
  rw [bind_some (typedStep_ends ends r _ t)]
  dsimp only
  rw [bind_some (peek_apply c), ends.operatorAt]
  rfl

theorem conditional_ends (read : r.unary start = some (t, c)) (ends : Ends c.rest) :
    conditional r start = some (t, c) := by
  rw [conditional, bind_some (here_apply start), bind_some (binary_ends read ends),
    bind_some (ends.acceptSign (by decide))]
  rfl

theorem assignedPattern_ends (closed : ∀ t c, r.pattern start = some (t, c) → Ends c.rest) :
    assignedPattern r start = none := by
  rw [assignedPattern, bind_some (peek_apply start)]
  cases opening : start.token.shape == .sign && (start.token.text == "[" || start.token.text == "\x7b") with
  | false => exact bind_none (check_apply _ _)
  | true =>
    rw [bind_some (check_apply _ _)]
    cases read : r.pattern start with
    | none => exact bind_none read
    | some taken =>
      rw [bind_some read, bind_some (atSign_apply "=" _), (closed _ _ read).atSign (by decide)]
      exact bind_none (check_apply _ _)

theorem assignment_ends (read : r.unary start = some (t, c)) (ends : Ends c.rest)
    (closed : ∀ t c, r.pattern start = some (t, c) → Ends c.rest) : assignment r start = some (t, c) := by
  have left : (assignedPattern r <|> conditional r) start = some (t, c) := by
    rw [orElse_apply, assignedPattern_ends closed, conditional_ends read ends]
    rfl
  rw [assignment, bind_some (here_apply start), bind_some left, bind_some (peek_apply c), ends.assignmentAt]
  rfl

theorem expression_ends (read : r.unary start = some (t, c)) (ends : Ends c.rest)
    (closed : ∀ t c, r.pattern start = some (t, c) → Ends c.rest)
    (noYield : (start.token.shape == .name && start.token.text == "yield") = false)
    (noArrow : startsArrow start.token = false) : expression r start = some (t, c) := by
  rw [expression, bind_some (peek_apply start), noYield, noArrow]
  exact assignment_ends read ends closed

theorem sign_apply (word : String) (c : Cursor) : sign word c =
    if c.token.shape == .sign && c.token.text == word then some ((), c.token.next) else none := by
  have accepted := acceptSign_apply word c
  rw [sign]
  split at accepted
  · next yes =>
    rw [bind_some accepted, if_pos yes]
    rfl
  · next no =>
    rw [bind_some accepted, if_neg no]
    rfl

-- Rounds of a rule that is read again and again. Each takes something, so there is fuel
-- for all of them.

inductive Rounds (inner : Reading (Option α)) : Cursor → List α → Cursor → Prop where
  | done {d stop : Cursor} : inner d = some (none, stop) → Rounds inner d [] stop
  | more {d next stop : Cursor} {items : List α} : inner d = some (some item, next) →
      next.rest.length < d.rest.length → Rounds inner next items stop → Rounds inner d (item :: items) stop

theorem Rounds.repeated {inner : Reading (Option α)} (rounds : Rounds inner c items stop)
    (fuel : c.rest.length < count) : repeated inner count c = some (items, stop) := by
  induction rounds generalizing count with
  | done ended =>
    obtain ⟨count, rfl⟩ := Nat.exists_eq_succ_of_ne_zero (Nat.ne_zero_of_lt fuel)
    rw [Reading.repeated, bind_some ended]
    rfl
  | more taken less _ ih =>
    obtain ⟨count, rfl⟩ := Nat.exists_eq_succ_of_ne_zero (Nat.ne_zero_of_lt fuel)
    rw [Reading.repeated, bind_some taken]
    dsimp only
    rw [bind_some (ih (by omega))]
    rfl

theorem Rounds.many {inner : Reading (Option α)} (rounds : Rounds inner c items stop) :
    many inner c = some (items, stop) := by
  rw [Reading.many, bind_some (cursor_apply c)]
  exact rounds.repeated (Nat.lt_succ_self _)

theorem token_eq_mark (mark : x ∈ Cursor.marks) (split : c.rest = x :: tail) (word : String) :
    (c.token.shape == .sign && c.token.text == word) = (String.ofList [x] == word) := by
  rw [Cursor.token_mark mark split]
  rfl

theorem sign_mark (mark : x ∈ Cursor.marks) (split : c.rest = x :: tail) :
    sign (String.ofList [x]) c = some ((), c.advance 1) := by
  rw [sign_apply, token_eq_mark mark split, Cursor.token_mark mark split]
  simp

theorem acceptSign_mark (mark : x ∈ Cursor.marks) (split : c.rest = x :: tail) :
    acceptSign (String.ofList [x]) c = some (true, c.advance 1) := by
  rw [acceptSign_apply, token_eq_mark mark split, Cursor.token_mark mark split]
  simp

def commas : List (List Char) → List Char
  | [] => []
  | [text] => text
  | text :: rest => text ++ ',' :: commas rest

-- What a rule makes of a text in front of the end of an expression: it takes exactly this
-- text and gives something of a kind.
def Takes (m : Reading α) (text : List Char) (P : α → Prop) : Prop :=
  ∀ (c : Cursor) (tail : List Char), c.rest = text ++ tail → Ends tail → ∃ a, m c = some (a, c.advance text.length) ∧ P a

-- Where it takes anything, it takes exactly this text.
def Bounds (m : Reading α) (text : List Char) : Prop :=
  ∀ (c : Cursor) (tail : List Char), c.rest = text ++ tail → Ends tail → ∀ a stop, m c = some (a, stop) →
    stop = c.advance text.length

def Opens (text : List Char) : Prop :=
  ∀ (c : Cursor) (tail : List Char), c.rest = text ++ tail → Ends tail →
    ∀ word ∈ ["]", "\x7d", ",", "..."], (c.token.shape == .sign && c.token.text == word) = false

def listRound (closing separator : String) (item : Reading Tree) : Reading (Option (List Tree)) := do
  if ← atSign closing then return none
  if ← acceptSign separator then return some []
  let t ← item
  check ((← atSign closing) || (← atSign separator))
  return some [t]

theorem listUpTo_eq (closing separator : String) (item : Reading Tree) : listUpTo closing separator item = (do
    let items ← many (listRound closing separator item)
    sign closing
    return items.flatten) := rfl

theorem closing_mark (closing : x ∈ [']', '\x7d']) : x ∈ Cursor.marks ∧ x ∈ [']', '\x7d', ',', ';', ')'] ∧ x ≠ ',' := by
  simp only [List.mem_cons, List.not_mem_nil, or_false] at closing
  rcases closing with rfl | rfl <;> decide

theorem listRound_closing (mark : x ∈ Cursor.marks) (split : c.rest = x :: tail) (separator : String) (item : Reading Tree) :
    listRound (String.ofList [x]) separator item c = some (none, c) := by
  rw [listRound, bind_some (atSign_apply _ c), token_eq_mark mark split]
  simp [pure_apply]

theorem listRound_comma (closing : x ∈ [']', '\x7d']) (split : c.rest = ',' :: tail) (item : Reading Tree) :
    listRound (String.ofList [x]) "," item c = some (some [], c.advance 1) := by
  have comma : ',' ∈ Cursor.marks := by decide
  have other : (String.ofList [','] == String.ofList [x]) = false := by
    simp only [List.mem_cons, List.not_mem_nil, or_false] at closing
    rcases closing with rfl | rfl <;> decide
  have taken : acceptSign "," c = some (true, c.advance 1) := acceptSign_mark comma split
  rw [listRound, bind_some (atSign_apply _ c), token_eq_mark comma split, other]
  simp only [Bool.false_eq_true, if_false]
  rw [bind_some taken]
  rfl

theorem closing_opens (closing : x ∈ [']', '\x7d'])
    (opens : ∀ word ∈ ["]", "\x7d", ",", "..."], (c.token.shape == .sign && c.token.text == word) = false) :
    atSign (String.ofList [x]) c = some (false, c) ∧ acceptSign "," c = some (false, c) := by
  have shut : (c.token.shape == .sign && c.token.text == String.ofList [x]) = false := by
    simp only [List.mem_cons, List.not_mem_nil, or_false] at closing
    rcases closing with rfl | rfl
    · exact opens "]" (by decide)
    · exact opens "\x7d" (by decide)
  rw [atSign_apply, acceptSign_apply, shut, opens "," (by decide)]
  exact ⟨rfl, rfl⟩

theorem listRound_item {item : Reading Tree} (closing : x ∈ [']', '\x7d'])
    (opens : ∀ word ∈ ["]", "\x7d", ",", "..."], (c.token.shape == .sign && c.token.text == word) = false)
    (read : item c = some (t, stop)) (ended : stop.rest = y :: tail) (either : y = x ∨ y = ',') :
    listRound (String.ofList [x]) "," item c = some (some [t], stop) := by
  obtain ⟨shut, comma⟩ := closing_opens closing opens
  have mark : y ∈ Cursor.marks := by
    rcases either with rfl | rfl
    · exact (closing_mark closing).1
    · decide
  rw [listRound, bind_some shut]
  simp only [Bool.false_eq_true, if_false]
  rw [bind_some comma]
  simp only [Bool.false_eq_true, if_false]
  rw [bind_some read, bind_some (atSign_apply _ stop), bind_some (atSign_apply _ stop), token_eq_mark mark ended,
    token_eq_mark mark ended]
  have here : (String.ofList [y] == String.ofList [x] || String.ofList [y] == ",") = true := by
    rcases either with rfl | rfl
    · simp
    · simp [show String.ofList [','] = "," by rfl]
  rw [here]
  rfl

theorem commas_cons_cons (text next : List Char) (rest : List (List Char)) :
    commas (text :: next :: rest) = text ++ ',' :: commas (next :: rest) := rfl

theorem rounds_takes {ι : Type} {item : Reading Tree} {text : ι → List Char} {P : ι → Tree → Prop}
    (closing : x ∈ [']', '\x7d']) (items : List ι)
    (each : ∀ i ∈ items, Opens (text i) ∧ text i ≠ [] ∧ Takes item (text i) (P i)) (c : Cursor) (tail : List Char)
    (split : c.rest = commas (items.map text) ++ x :: tail) :
    ∃ groups, Rounds (listRound (String.ofList [x]) "," item) c groups (c.advance (commas (items.map text)).length) ∧
      List.Forall₂ P items groups.flatten := by
  induction items generalizing c with
  | nil => exact ⟨[], .done (listRound_closing (closing_mark closing).1 split _ _), .nil⟩
  | cons i rest ih =>
    obtain ⟨⟨opens, long, takes⟩, others⟩ := List.forall_mem_cons.mp each
    cases rest with
    | nil =>
      have ends : Ends (x :: tail) := .inr ⟨x, tail, rfl, (closing_mark closing).2.1⟩
      obtain ⟨t, read, good⟩ := takes c _ split ends
      have ended := Cursor.rest_past split
      exact ⟨[[t]], .more (listRound_item closing (opens c _ split ends) read ended (.inl rfl)) (Cursor.shorter split long)
        (.done (listRound_closing (closing_mark closing).1 ended _ _)), .cons good .nil⟩
    | cons j rest =>
      rw [List.map_cons, List.map_cons, commas_cons_cons, List.append_assoc, List.cons_append] at split
      have ends : Ends (',' :: (commas ((j :: rest).map text) ++ x :: tail)) := .inr ⟨',', _, rfl, by decide⟩
      obtain ⟨t, read, good⟩ := takes c _ split ends
      have ended := Cursor.rest_past split
      have comma : (c.advance (text i).length).rest = [','] ++ (commas ((j :: rest).map text) ++ x :: tail) := ended
      have behind := Cursor.rest_past comma
      obtain ⟨groups, rounds, all⟩ := ih others ((c.advance (text i).length).advance 1) behind
      have stop : ((c.advance (text i).length).advance 1).advance (commas ((j :: rest).map text)).length =
          c.advance (commas ((i :: j :: rest).map text)).length := by
        simp only [Cursor.advance_add, List.map_cons, commas_cons_cons, List.length_append, List.length_cons]
        congr 1
        omega
      exact ⟨[t] :: [] :: groups, .more (listRound_item closing (opens c _ split ends) read ended (.inr rfl))
        (Cursor.shorter split long) (.more (listRound_comma closing ended item) (Cursor.shorter comma (by simp))
          (stop ▸ rounds)), .cons good all⟩

theorem listUpTo_takes {ι : Type} {item : Reading Tree} {text : ι → List Char} {P : ι → Tree → Prop}
    (closing : x ∈ [']', '\x7d']) (items : List ι)
    (each : ∀ i ∈ items, Opens (text i) ∧ text i ≠ [] ∧ Takes item (text i) (P i)) (c : Cursor) (tail : List Char)
    (split : c.rest = commas (items.map text) ++ x :: tail) :
    ∃ ts, listUpTo (String.ofList [x]) "," item c = some (ts, c.advance ((commas (items.map text)).length + 1)) ∧
      List.Forall₂ P items ts := by
  obtain ⟨groups, rounds, all⟩ := rounds_takes closing items each c tail split
  refine ⟨groups.flatten, ?_, all⟩
  rw [listUpTo_eq, bind_some rounds.many, bind_some (sign_mark (closing_mark closing).1 (Cursor.rest_past split)),
    Cursor.advance_add]
  rfl

theorem bind_inv {first : Reading α} {next : α → Reading β} (taken : (first >>= next) c = some result) :
    ∃ a later, first c = some (a, later) ∧ next a later = some result := by
  obtain ⟨⟨a, later⟩, read, rest⟩ := Option.bind_eq_some_iff.mp taken
  exact ⟨a, later, read, rest⟩

theorem listRound_none {item : Reading Tree} (closing : x ∈ [']', '\x7d'])
    (opens : ∀ word ∈ ["]", "\x7d", ",", "..."], (c.token.shape == .sign && c.token.text == word) = false)
    (failed : item c = none) : listRound (String.ofList [x]) "," item c = none := by
  obtain ⟨shut, comma⟩ := closing_opens closing opens
  rw [listRound, bind_some shut]
  simp only [Bool.false_eq_true, if_false]
  rw [bind_some comma]
  exact bind_none failed

theorem repeated_more {inner : Reading (Option α)} (taken : inner c = some (some item, next))
    (fuel : c.rest.length < count) (read : repeated inner count c = some (items, stop)) :
    ∃ left rest, repeated inner left next = some (rest, stop) ∧ left + 1 = count := by
  obtain ⟨left, rfl⟩ := Nat.exists_eq_succ_of_ne_zero (Nat.ne_zero_of_lt fuel)
  rw [repeated, bind_some taken] at read
  obtain ⟨rest, later, others, read⟩ := bind_inv read
  cases read
  exact ⟨left, rest, others, rfl⟩

theorem repeated_item {item : Reading Tree} {text : List Char} (closing : x ∈ [']', '\x7d']) (opens : Opens text)
    (long : text ≠ []) (bounds : Bounds item text) (split : c.rest = text ++ y :: tail) (either : y = x ∨ y = ',')
    (fuel : c.rest.length < count)
    (read : repeated (listRound (String.ofList [x]) "," item) count c = some (groups, stop)) :
    ∃ left rest, repeated (listRound (String.ofList [x]) "," item) left (c.advance text.length) = some (rest, stop) ∧
      (c.advance text.length).rest.length < left := by
  have ends : Ends (y :: tail) := by
    rcases either with rfl | rfl
    · exact .inr ⟨y, tail, rfl, (closing_mark closing).2.1⟩
    · exact .inr ⟨',', tail, rfl, by decide⟩
  have opens := opens c _ split ends
  cases taken : item c with
  | none =>
    obtain ⟨left, rfl⟩ := Nat.exists_eq_succ_of_ne_zero (Nat.ne_zero_of_lt fuel)
    cases (bind_none (listRound_none closing opens taken)).symm.trans read
  | some result =>
    obtain ⟨t, next⟩ := result
    obtain rfl := bounds c _ split ends t next taken
    have round := listRound_item closing opens taken (Cursor.rest_past split) either
    obtain ⟨left, rest, others, same⟩ := repeated_more round fuel read
    have := Cursor.shorter split long
    exact ⟨left, rest, others, by omega⟩

theorem repeated_bounds {ι : Type} {item : Reading Tree} {text : ι → List Char} (closing : x ∈ [']', '\x7d'])
    (items : List ι) (each : ∀ i ∈ items, Opens (text i) ∧ text i ≠ [] ∧ Bounds item (text i)) (c : Cursor)
    (tail : List Char) (split : c.rest = commas (items.map text) ++ x :: tail) (fuel : c.rest.length < count)
    (read : repeated (listRound (String.ofList [x]) "," item) count c = some (groups, stop)) :
    stop = c.advance (commas (items.map text)).length := by
  have closed {c : Cursor} {count : Nat} {groups : List (List Tree)} (split : c.rest = x :: tail)
      (fuel : c.rest.length < count)
      (read : repeated (listRound (String.ofList [x]) "," item) count c = some (groups, stop)) : stop = c := by
    have ended : Rounds (listRound (String.ofList [x]) "," item) c [] c :=
      .done (listRound_closing (closing_mark closing).1 split _ _)
    rw [ended.repeated fuel] at read
    cases read
    rfl
  induction items generalizing c count groups with
  | nil => exact closed split fuel read
  | cons i rest ih =>
    obtain ⟨⟨opens, long, bounds⟩, others⟩ := List.forall_mem_cons.mp each
    cases rest with
    | nil =>
      obtain ⟨left, groups, read, fuel⟩ := repeated_item closing opens long bounds split (.inl rfl) fuel read
      exact closed (Cursor.rest_past split) fuel read
    | cons j rest =>
      rw [List.map_cons, List.map_cons, commas_cons_cons, List.append_assoc, List.cons_append] at split
      obtain ⟨left, groups, read, fuel⟩ := repeated_item closing opens long bounds split (.inr rfl) fuel read
      have comma : (c.advance (text i).length).rest = [','] ++ (commas ((j :: rest).map text) ++ x :: tail) :=
        Cursor.rest_past split
      obtain ⟨left, groups, read, same⟩ := repeated_more (listRound_comma closing comma item) fuel read
      have less : ((c.advance (text i).length).advance 1).rest.length < (c.advance (text i).length).rest.length :=
        Cursor.shorter comma (by simp)
      have behind : ((c.advance (text i).length).advance 1).rest = commas ((j :: rest).map text) ++ x :: tail :=
        Cursor.rest_past comma
      rw [ih others _ behind (by omega) read]
      simp only [Cursor.advance_add, List.map_cons, commas_cons_cons, List.length_append, List.length_cons]
      congr 1
      omega

theorem listUpTo_bounds {ι : Type} {item : Reading Tree} {text : ι → List Char} (closing : x ∈ [']', '\x7d'])
    (items : List ι) (each : ∀ i ∈ items, Opens (text i) ∧ text i ≠ [] ∧ Bounds item (text i)) (c : Cursor)
    (tail : List Char) (split : c.rest = commas (items.map text) ++ x :: tail)
    (read : listUpTo (String.ofList [x]) "," item c = some (ts, stop)) :
    stop = c.advance ((commas (items.map text)).length + 1) := by
  rw [listUpTo_eq] at read
  obtain ⟨groups, later, rounds, read⟩ := bind_inv read
  rw [many, bind_some (cursor_apply c)] at rounds
  have ended := repeated_bounds closing items each c tail split (Nat.lt_succ_self _) rounds
  rw [ended, bind_some (sign_mark (closing_mark closing).1 (Cursor.rest_past split)), Cursor.advance_add] at read
  cases read
  rfl

theorem within_some {inner : Reading (List Tree)} (read : inner start = some (children, stop)) (kind : Kind) :
    within kind inner start = some (start.token.start.tree kind children stop, stop) := by
  rw [within, bind_some (here_apply start), bind_some read]
  rfl

end Reading

end Script
end SchemaAtlas
