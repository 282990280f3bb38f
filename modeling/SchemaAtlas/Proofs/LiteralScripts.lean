import SchemaAtlas.Builder.Declaration
import SchemaAtlas.Proofs.LiteralReading

namespace SchemaAtlas
namespace Script

-- A script that declares a constant with a literal as its value.

open Reading Grammar

variable {c : Cursor} {text tail : List Char} {r : Rules} {P : Tree → Prop}

theorem token_blank (split : c.rest = ' ' :: tail) (solid : Cursor.Solid tail) : c.token = (c.advance 1).token := by
  have split : c.rest = [' '] ++ tail := split
  have behind : (c.advance 1).rest = tail := Cursor.rest_past split
  have blanks : c.rest.takeWhile isSpace = [' '] := by
    rw [split]
    exact (span_stop (by simp [isSpace]) solid.1).1
  have gap : c.gap = { newline := false, comments := [], stop := c.advance 1 } := by
    rw [Cursor.gap]
    simp only [skipSpaces, blanks]
    change (if (commentLength? (c.advance 1).rest).isSome then _ else _) = _
    rw [behind, solid.2]
    rfl
  rw [Cursor.token, Cursor.token, gap, Cursor.gap_solid (behind ▸ solid)]

theorem tree_name (start stop : Cursor) (children : List Tree) (named : start.textTo stop ≠ "") :
    (start.tree kind children stop).kind = kind := by
  rw [Cursor.tree, dif_pos fun _ => named]

def starters : List Char := ['n', 't', 'f', '-', '"', '\'', '`', '[', '\x7b'] ++ tenDigits

theorem cut_equals (first : x ∈ starters) (rest : List Char) : cut ('=' :: x :: rest) = (.sign, 1) := by
  simp only [starters, tenDigits, List.mem_append, List.mem_cons, List.not_mem_nil, or_false] at first
  rcases first with (rfl | rfl | rfl | rfl | rfl | rfl | rfl | rfl | rfl) | rfl | rfl | rfl | rfl | rfl | rfl | rfl | rfl | rfl | rfl <;>
    rfl

theorem token_equals (first : ∃ x rest, text = x :: rest ∧ x ∈ starters) (split : c.rest = '=' :: (text ++ tail)) :
    c.token = { shape := .sign, text := "=", start := c, next := c.advance 1, newline := false, comments := [] } := by
  obtain ⟨x, rest, rfl, listed⟩ := first
  have solid : Cursor.Solid c.rest := split ▸ solid_char (by decide) (by decide) _
  have split : c.rest = ['='] ++ (x :: rest ++ tail) := split
  exact token_cut solid split (by rw [split]; exact cut_equals listed _)

theorem text_starters {l : Literal} (formed : l.WellFormed) : ∃ x rest, l.text = x :: rest ∧ x ∈ starters := by
  cases formed with
  | null => exact ⟨_, _, rfl, by decide⟩
  | @bool b => cases b <;> exact ⟨_, _, rfl, by decide⟩
  | @number negative n formed _ =>
    cases negative with
    | false =>
      obtain ⟨x, rest, same, digit⟩ := first_digit formed
      exact ⟨x, rest, same, List.mem_append_right _ digit⟩
    | true => exact ⟨_, _, rfl, by decide⟩
  | @string q _ =>
    refine ⟨_, _, rfl, ?_⟩
    cases q.quote <;> decide
  | array _ => exact ⟨_, _, rfl, by decide⟩
  | object _ _ => exact ⟨_, _, rfl, by decide⟩

theorem identifier_read (split : c.rest = ' ' :: 'x' :: '=' :: tail) : c.token.text = "x" ∧
    ∃ name, identifier c = some (name, c.advance 2) ∧ name.kind = .identifier := by
  have blank : c.rest = [' '] ++ ('x' :: '=' :: tail) := split
  have atName : (c.advance 1).rest = ['x'] ++ ('=' :: tail) := Cursor.rest_past blank
  have token := token_blank split (solid_char (by decide) (by decide) _)
  rw [token_word ⟨_, _, rfl, by decide⟩ (by decide) atName (by simp [Breaks]; decide)] at token
  have named : (c.advance 1).textTo ((c.advance 1).advance 1) ≠ "" := by
    have text : (c.advance 1).textTo ((c.advance 1).advance 1) = String.ofList ['x'] := Cursor.textTo_past atName
    rw [text]
    decide
  refine ⟨by rw [token], (c.advance 1).tree .identifier [] ((c.advance 1).advance 1), ?_, tree_name _ _ _ named⟩
  rw [identifier, bind_some (peek_apply c), token]
  change leaf .identifier c = _
  rw [leaf, bind_some (peek_apply c), token]
  change some _ = some _
  rw [← Cursor.advance_add c 1 1]
  rfl

theorem declarator_read (named : r.pattern = pattern r') (takes : Takes r.expression text P)
    (first : ∃ x rest, text = x :: rest ∧ x ∈ starters) (split : c.rest = ' ' :: 'x' :: '=' :: (text ++ tail))
    (ends : Ends tail) : ∃ d name t : Tree, declarator r c = some (d, c.advance (3 + text.length)) ∧ d.kind = .declarator ∧
      d.children = [name.withRole .name, t.withRole .value] ∧ name.kind = .identifier ∧ P t := by
  obtain ⟨-, name, readName, kindName⟩ := identifier_read split
  have upToName : c.rest = [' ', 'x'] ++ ('=' :: (text ++ tail)) := split
  have atEquals : (c.advance 2).rest = '=' :: (text ++ tail) := Cursor.rest_past upToName
  have token := token_equals first atEquals
  have upToSign : c.rest = [' ', 'x', '='] ++ (text ++ tail) := split
  have behind : (c.advance 3).rest = text ++ tail := Cursor.rest_past upToSign
  obtain ⟨t, read, good⟩ := takes _ tail behind ends
  have pattern_ : r.pattern c = some (name, c.advance 2) := by
    rw [named, pattern, orElse_apply, readName]
    rfl
  have none_of (word : String) (other : ("=" == word) = false) :
      ((c.advance 2).token.shape == .sign && (c.advance 2).token.text == word) = false := by
    rw [token]
    exact other
  have equals : acceptSign "=" (c.advance 2) = some (true, c.advance 3) := by
    rw [acceptSign_apply, token, ← Cursor.advance_add c 2 1]
    rfl
  have value : initializer r (c.advance 2) = some ([t.withRole .value], c.advance (3 + text.length)) := by
    rw [initializer, bind_some equals, ← Cursor.advance_add]
    exact bind_some read
  obtain ⟨kind, -, children⟩ := Cursor.tree_parts c.token.start (c.advance (3 + text.length)) .declarator
    [name.withRole .name, t.withRole .value] rfl
  refine ⟨_, name, t, within_some ?_ _, kind, children, kindName, good⟩
  rw [bind_some pattern_, bind_some (acceptSign_false (none_of "!" (by decide)))]
  have noType : optionalAscription r (c.advance 2) = some ([], c.advance 2) := by
    rw [optionalAscription, bind_some (atSign_false (none_of ":" (by decide)))]
    rfl
  rw [bind_some noType, bind_some value]
  rfl

theorem declaration_read (named : r.pattern = pattern r') (takes : Takes r.expression text P)
    (first : ∃ x rest, text = x :: rest ∧ x ∈ starters)
    (split : c.rest = ['c', 'o', 'n', 's', 't', ' ', 'x', '='] ++ (text ++ [';'])) : ∃ s d name t : Tree,
      declaration r c = some (s, c.advance (9 + text.length)) ∧ s.kind = .lexicalDeclaration ∧ s.children = [d] ∧
        d.kind = .declarator ∧ d.children = [name.withRole .name, t.withRole .value] ∧ name.kind = .identifier ∧ P t := by
  have atWord : c.rest = ['c', 'o', 'n', 's', 't'] ++ (' ' :: 'x' :: '=' :: (text ++ [';'])) := split
  have token := token_word ⟨_, _, rfl, by decide⟩ (by decide) atWord (by simp [Breaks]; decide)
  have behind : (c.advance 5).rest = ' ' :: 'x' :: '=' :: (text ++ [';']) := Cursor.rest_past atWord
  have ends : Ends [';'] := .inr ⟨';', [], rfl, by decide⟩
  obtain ⟨d, name, t, read, kindD, childrenD, kindName, good⟩ := declarator_read named takes first behind ends
  have atEnd : (c.advance (8 + text.length)).rest = [';'] := by
    have size : 8 + text.length = (['c', 'o', 'n', 's', 't', ' ', 'x', '='] ++ text).length := by
      rw [List.length_append]
      rfl
    rw [Cursor.rest_advance, split, ← List.append_assoc, size, List.drop_left]
  rw [Cursor.advance_add, show 5 + (3 + text.length) = 8 + text.length by omega] at read
  have semicolon : ';' ∈ Cursor.marks := by decide
  have noMore : acceptSign "," (c.advance (8 + text.length)) = some (false, c.advance (8 + text.length)) :=
    acceptSign_false (token_eq_mark semicolon atEnd ",")
  have ended : statementEnd (c.advance (8 + text.length)) = some ((), c.advance (9 + text.length)) := by
    have taken : acceptSign ";" (c.advance (8 + text.length)) = some (true, (c.advance (8 + text.length)).advance 1) :=
      acceptSign_mark semicolon atEnd
    rw [statementEnd, bind_some taken, Cursor.advance_add, show 8 + text.length + 1 = 9 + text.length by omega]
    rfl
  have names : declarators r (c.advance 5) = some ([d], c.advance (8 + text.length)) := by
    have others : Rounds (do if ← acceptSign "," then return some (← declarator r) else return none)
        (c.advance (8 + text.length)) [] (c.advance (8 + text.length)) := .done (by rw [bind_some noMore]; rfl)
    rw [declarators, bind_some read, bind_some others.many]
    rfl
  have bound : bindings r c = some ((.lexicalDeclaration, [d]), c.advance (8 + text.length)) := by
    have keyword : (TokenShape.name == .name && ["let", "const", "var"].contains (String.ofList ['c', 'o', 'n', 's', 't'])) =
        true := by decide
    rw [bindings, bind_some (peek_apply c), token]
    dsimp only
    rw [keyword, bind_some (check_apply true c), Reading.take, bind_some (set_apply _ c)]
    change (declarators r >>= _ : Reading (Kind × List Tree)) (c.advance 5) = _
    rw [bind_some names]
    rfl
  have noStrays : Rounds (do if ← ahead statementEnd then return none else return some (← stray))
      (c.advance (8 + text.length)) [] (c.advance (8 + text.length)) := by
    refine .done ?_
    have looks : ahead statementEnd (c.advance (8 + text.length)) = some (true, c.advance (8 + text.length)) := by
      rw [ahead, ended]
      rfl
    rw [bind_some looks]
    rfl
  obtain ⟨kind, -, children⟩ := Cursor.tree_parts c (c.advance (9 + text.length)) .lexicalDeclaration [d] rfl
  refine ⟨_, d, name, t, ?_, kind, children, kindD, childrenD, kindName, good⟩
  have toList : declaration r c = bindingList r c := by
    rw [declaration, bind_some (peek_apply c), token]
    change (if (c.advance 5).token.text == "enum" then enumDeclaration r else bindingList r) c = _
    rw [(identifier_read behind).1]
    rfl
  rw [toList, bindingList, bind_some (here_apply c), bind_some bound]
  dsimp only
  rw [bind_some noStrays.many, bind_some ended, token]
  rfl

def constScript (text : List Char) : String := "const x=" ++ String.ofList text ++ ";"

theorem constScript_toList (text : List Char) :
    (constScript text).toList = ['c', 'o', 'n', 's', 't', ' ', 'x', '='] ++ (text ++ [';']) := by
  have middle : (String.ofList text).toList = text := String.toList_ofList
  rw [constScript, String.toList_append, String.toList_append, middle, List.append_assoc]
  rfl

theorem statements_single {stop : Cursor} {s : Tree} (read : r.statement c = some (s, stop))
    (goesOn : (c.token.shape == .stop) = false) (some_of : c.rest ≠ []) (stopped : stop.rest = []) :
    statements r c = some ([s], stop) := by
  have either : (r.statement <|> stray) c = some (s, stop) := by
    rw [orElse_apply, read]
    rfl
  have step : (do
      let t ← peek
      if t.shape == .stop then return none
      else return some (← r.statement <|> stray) : Reading (Option Tree)) c = some (some s, stop) := by
    rw [bind_some (peek_apply c), goesOn]
    exact bind_some either
  have last : (do
      let t ← peek
      if t.shape == .stop then return none
      else return some (← r.statement <|> stray) : Reading (Option Tree)) stop = some (none, stop) := by
    rw [bind_some (peek_apply stop), Cursor.token_stop stopped]
    rfl
  have less : stop.rest.length < c.rest.length := by
    rw [stopped]
    exact List.length_pos_iff.mpr some_of
  exact (Rounds.more step less (.done last)).many

theorem parse_const (takes : Takes (rules (6 * (constScript text).length + 15)).expression text P)
    (first : ∃ x rest, text = x :: rest ∧ x ∈ starters) : ∃ s d name t : Tree, (parse (constScript text)).children = [s] ∧
      s.kind = .lexicalDeclaration ∧ s.children = [d] ∧ d.kind = .declarator ∧
        d.children = [name.withRole .name, t.withRole .value] ∧ name.kind = .identifier ∧ P t := by
  have split : (Cursor.ofText (constScript text)).rest = ['c', 'o', 'n', 's', 't', ' ', 'x', '='] ++ (text ++ [';']) :=
    constScript_toList text
  generalize start : Cursor.ofText (constScript text) = c at split
  obtain ⟨s, d, name, t, read, kinds⟩ := declaration_read rfl takes first split
  have atWord : c.rest = ['c', 'o', 'n', 's', 't'] ++ (' ' :: 'x' :: '=' :: (text ++ [';'])) := split
  have token := token_word ⟨_, _, rfl, by decide⟩ (by decide) atWord (by simp [Breaks]; decide)
  have taken : (rules (6 * (constScript text).length + 16)).statement c = some (s, c.advance (9 + text.length)) := by
    change statement (rules (6 * (constScript text).length + 15)) c = _
    rw [statement, bind_some (peek_apply c), token]
    exact read
  have stopped : (c.advance (9 + text.length)).rest = [] := by
    rw [Cursor.rest_advance, split]
    simp
    omega
  have single := statements_single taken (by rw [token]; rfl) (by rw [split]; exact List.cons_ne_nil _ _) stopped
  have script : skipInterpreter c = c := by rw [skipInterpreter, split]; rfl
  refine ⟨s, d, name, t, ?_, kinds⟩
  rw [parse, start, script, StateT.run, single]
  exact (Cursor.tree_parts _ _ _ _ rfl).2.2

theorem parts_single {site : Site} {child : Tree} (children : site.tree.children = [child])
    (part : (child.kind != .comment && child.kind.isPart) = true) : site.parts = [site.down child] := by
  rw [Site.parts, Literal.parts_eq (by simpa [children] using part), children]
  rfl

open Builder in
theorem ofDeclarator?_read (site : Site) (visible : Bool) {name t : Tree} (children : site.tree.children = [name.withRole .name, t.withRole .value])
    (kind : name.kind = .identifier) : ∃ declared, Declaration.ofDeclarator? visible site = some declared ∧
      declared.value.tree = t.withRole .value := by
  have named : site.child? .name = some (site.down (name.withRole .name)) := by
    rw [Site.child?, Tree.child?, children]
    rfl
  have valued : site.child? .value = some (site.down (t.withRole .value)) := by
    rw [Site.child?, Tree.child?, children]
    rfl
  have identifier : ((site.down (name.withRole .name)).kind == .identifier) = true := beq_iff_eq.mpr kind
  refine ⟨{ name := (site.down (name.withRole .name)).text, value := site.down (t.withRole .value), exported := visible }, ?_, rfl⟩
  rw [Declaration.ofDeclarator?, named, valued]
  exact if_pos identifier

theorem initialized_const (takes : Takes (rules (6 * (constScript text).length + 15)).expression text P)
    (first : ∃ x rest, text = x :: rest ∧ x ∈ starters) : ∃ t : Tree,
      (Builder.Declaration.initialized (parse (constScript text))).map (·.value.tree) = [t.withRole .value] ∧ P t := by
  obtain ⟨s, d, name, t, children, kindS, childrenS, kindD, childrenD, kindName, good⟩ := parse_const takes first
  refine ⟨t, ?_, good⟩
  generalize parse (constScript text) = root at children
  have statements : (Site.root root).parts = [(Site.root root).down s] := parts_single children (by rw [kindS]; rfl)
  have declarators : Builder.Declaration.declarators ((Site.root root).down s) = [((Site.root root).down s).down d] := by
    have kind : ((Site.root root).down s).kind = .lexicalDeclaration := kindS
    have one : ((Site.root root).down s).parts = [((Site.root root).down s).down d] :=
      parts_single childrenS (by rw [kindD]; rfl)
    rw [Builder.Declaration.declarators, kind]
    dsimp only
    have own : ((((Site.root root).down s).down d).kind == .declarator) = true := beq_iff_eq.mpr kindD
    rw [one]
    exact List.filter_eq_self.mpr (by simpa using own)
  have statement : Builder.Declaration.ofStatement? ((Site.root root).down s) = some ((Site.root root).down s, false) := by
    have kind : ((Site.root root).down s).kind = .lexicalDeclaration := kindS
    rw [Builder.Declaration.ofStatement?, kind]
  obtain ⟨declared, read, value⟩ := ofDeclarator?_read (((Site.root root).down s).down d) false childrenD kindName
  rw [Builder.Declaration.initialized, statements, List.flatMap_cons, statement]
  dsimp only
  rw [declarators, List.filterMap_cons, read]
  exact congrArg (fun tree => [tree]) value

-- What the evaluator makes of the tree of a literal: what is kept of it, or nothing where it
-- goes too deep. A simple one gives the one value that it denotes.
structure Literal.Known (l : Literal) (t : Tree) : Prop where
  kept : l.levels ≤ defaultMaxDepth → ∃ w, t.literal? = some w ∧ l.Keeps w
  deep : defaultMaxDepth < l.levels → t.literal? = none
  denoted : l.Simple → l.levels ≤ defaultMaxDepth → ∃ v, t.literal? = some v ∧ ∀ w, l.Denotes w ↔ w = v

theorem Literal.known_of_spelled {l : Literal} (formed : l.WellFormed) (spelled : l.Spelled t) : l.Known t where
  kept flat := (spelled_evaluates formed spelled).known _ (Nat.lt_succ_of_le flat)
  deep nested := (spelled_evaluates formed spelled).deep _ nested
  denoted simple flat := by
    obtain ⟨v, read, keeps⟩ := (spelled_evaluates formed spelled).known _ (Nat.lt_succ_of_le flat)
    have denotes := keeps_denotes formed simple keeps
    exact ⟨v, read, fun w => ⟨fun other => denotes_unique formed other denotes, fun same => same ▸ denotes⟩⟩

-- On every tree of a literal, whatever reads it. The grammar gives such a tree wherever an
-- expression may stand, and as the value of a constant.
theorem literal_evaluated {l : Literal} (formed : l.WellFormed) :
    (∀ t : Tree, l.Spelled t → l.Known t) ∧
    (∀ (n : Nat) (c : Cursor) (tail : List Char), 2 * l.levels + 2 ≤ n → c.rest = l.text ++ tail → Ends tail →
      ∃ t, (rules n).expression c = some (t, c.advance l.text.length) ∧ l.Spelled t ∧ l.Known t) ∧
    (∃ t : Tree, (Builder.Declaration.initialized (parse (constScript l.text))).map (·.value.tree) = [t] ∧
      l.Spelled t ∧ l.Known t) ∧
    l.levels ≤ l.containers + 1 := by
  have takes {n : Nat} (enough : 2 * l.levels + 2 ≤ n) : Takes (rules n).expression l.text l.Spelled := by
    obtain ⟨n, rfl⟩ : ∃ left, n = left + 1 := ⟨n - 1, by omega⟩
    exact Literal.unary_expression formed (Literal.unary_takes formed (by omega))
  refine ⟨fun t => Literal.known_of_spelled formed, fun n c tail enough split ends => ?_, ?_, Literal.levels_le formed⟩
  · obtain ⟨t, read, spelled⟩ := takes enough c tail split ends
    exact ⟨t, read, spelled, Literal.known_of_spelled formed spelled⟩
  · have deep := Literal.levels_le_length formed
    have length : (constScript l.text).length = l.text.length + 9 := by
      rw [← String.length_toList, constScript_toList]
      simp
    obtain ⟨t, values, spelled⟩ := initialized_const (takes (by omega)) (text_starters formed)
    exact ⟨t.withRole .value, values, spelled.withRole .value, Literal.known_of_spelled formed (spelled.withRole .value)⟩

def keyText : Quoted := { quote := .double, segments := [.plain ['a']] }

def lineText : Quoted := { quote := .single, segments := [.plain ['b'], .escape (.single 'n')] }

def nestedLiteral : Literal := .object [(keyText, .array [.number true { whole := ['2'] }, .string lineText])]

theorem nestedLiteral_formed : nestedLiteral.WellFormed := by
  have key : keyText.WellFormed := ⟨⟨by decide, ⟨by simp [Quote.char, keyText], by simp [keyText]⟩, by simp⟩, trivial⟩
  have text : lineText.WellFormed := by
    refine ⟨⟨by decide, ⟨by simp [Quote.char, lineText], by simp [lineText]⟩, by simp [Segment.isPlain]⟩, ?_, trivial⟩
    exact ⟨⟨by decide, by decide, by decide⟩, fun zero => absurd zero (by decide)⟩
  have number : ({ whole := ['2'] } : WrittenNumber).WellFormed :=
    ⟨⟨by decide, List.forall_mem_singleton.mpr rfl⟩, by decide, by simp, by simp⟩
  have small : ({ whole := ['2'] } : WrittenNumber).value < Double.overflow := by
    have two : ({ whole := ['2'] } : WrittenNumber).value = 2 := by
      have digits : Nat.ofDigitChars 10 ['2'] 0 = 2 := rfl
      simp [WrittenNumber.value, WrittenNumber.digits, WrittenNumber.exponent, digits]
    have great : (1 : ℚ) ≤ 2 ^ Double.greatestExponent := one_le_zpow₀ one_le_two (by decide)
    rw [two, Double.overflow]
    linarith
  have items : (Literal.array [.number true { whole := ['2'] }, .string lineText]).WellFormed :=
    .array (List.forall_mem_cons.mpr ⟨.number number small, List.forall_mem_singleton.mpr (.string text)⟩)
  exact .object (List.forall_mem_singleton.mpr ⟨key, by decide⟩) (List.forall_mem_singleton.mpr items)

theorem nestedLiteral_simple : nestedLiteral.Simple := by
  have key : keyText.Simple := by simp [Quoted.Simple, keyText]
  have text : lineText.Simple := by
    have escape : (Escape.single 'n').Simple := ⟨'n', rfl, by decide⟩
    simpa [Quoted.Simple, lineText] using escape
  have items : (Literal.array [.number true { whole := ['2'] }, .string lineText]).Simple :=
    .array (List.forall_mem_cons.mpr ⟨.number fun _ _ _ => by decide, List.forall_mem_singleton.mpr (.string text)⟩)
  exact .object (List.forall_mem_singleton.mpr key) (List.forall_mem_singleton.mpr items)

def leafTree (kind : Kind) (other : kind.isName = false) (role : Role) (text : String) (children : List Tree) : Tree :=
  { kind := kind, role := role, location := .start, offset := 0, text := text, children := children, named := by simp [other] }

def nestedTree : Tree :=
  leafTree .object rfl .value "\x7b\"a\":[-2,/**/'b\\n']\x7d" [leafTree .pair rfl .plain "\"a\":[-2,/**/'b\\n']" [
    leafTree .string rfl .key "\"a\"" [leafTree .stringFragment rfl .plain "a" []],
    leafTree .array rfl .value "[-2,/**/'b\\n']" [
      leafTree (.unary "-") rfl .plain "-2" [leafTree .number rfl .argument "2" []],
      leafTree .comment rfl .plain "/**/" [],
      leafTree .string rfl .plain "'b\\n'" [leafTree .stringFragment rfl .plain "b" [],
        leafTree .escapeSequence rfl .plain "\\n" []]]]]

theorem nestedTree_spelled : nestedLiteral.Spelled nestedTree := by
  have key : keyText.Spelled (leafTree .string rfl .key "\"a\"" [leafTree .stringFragment rfl .plain "a" []]) :=
    .string (by decide) rfl (.cons (.plain rfl rfl) .nil)
  have text : lineText.Spelled (leafTree .string rfl .plain "'b\\n'" [leafTree .stringFragment rfl .plain "b" [],
      leafTree .escapeSequence rfl .plain "\\n" []]) :=
    .string (by decide) rfl (.cons (.plain rfl rfl) (.cons (.escape rfl rfl) .nil))
  have number : (Literal.number true { whole := ['2'] }).Spelled
      (leafTree (.unary "-") rfl .plain "-2" [leafTree .number rfl .argument "2" []]) := .negative rfl rfl rfl rfl
  exact Literal.spelled_object.mpr ⟨rfl, .cons ⟨_, _, ⟨rfl, rfl, rfl⟩, key,
    .array rfl (.cons number (.cons (.string text) .nil))⟩ .nil⟩

theorem literal_evaluated_nested : nestedLiteral.WellFormed ∧ nestedLiteral.Spelled nestedTree ∧
    nestedTree.literal? = some (.object [("a", .array [.number (.whole (-2)), .string "b\n"])]) ∧
    constScript nestedLiteral.text = "const x=\x7b\"a\":[-2,'b\\n']\x7d;" ∧
    ∃ t : Tree, (Builder.Declaration.initialized (parse (constScript nestedLiteral.text))).map (·.value.tree) = [t] ∧
      t.literal? = some (.object [("a", .array [.number (.whole (-2)), .string "b\n"])]) := by
  obtain ⟨every, -, ⟨t, values, -, known⟩, -⟩ := literal_evaluated nestedLiteral_formed
  have number : Literal.Counts (fun n => Number.leastWhole ≤ n ∧ n ≤ Number.greatestWhole) true { whole := ['2'] } (.whole (-2)) :=
    .whole ⟨rfl, rfl⟩ (by decide)
  have value : nestedLiteral.Denotes (.object (Entries.ofList [("a", .array [.number (.whole (-2)), .string "b\n"])])) :=
    .object (.cons (by decide) .nil) (.cons (.array (.cons (.number number) (.cons (.string (by decide)) .nil))) .nil)
  have valued {t : Tree} (known : nestedLiteral.Known t) :
      t.literal? = some (.object [("a", .array [.number (.whole (-2)), .string "b\n"])]) := by
    obtain ⟨v, read, denoted⟩ := known.denoted nestedLiteral_simple (by decide)
    exact read.trans (congrArg some ((denoted _).mp value).symm)
  exact ⟨nestedLiteral_formed, nestedTree_spelled, valued (every nestedTree nestedTree_spelled), by decide, t, values, valued known⟩

def codedLiteral : Literal := .string { quote := .double, segments := [.escape (.unicode ['0', '0', '4', '1'])] }

def codedTree : Tree := leafTree .string rfl .value "\"\\u0041\"" [leafTree .escapeSequence rfl .plain "\\u0041" []]

-- A code is not decoded.
theorem literal_evaluated_coded : constScript codedLiteral.text = "const x=\"\\u0041\";" ∧ codedLiteral.WellFormed ∧
    codedLiteral.Denotes (.string "A") ∧ codedLiteral.Spelled codedTree ∧
    codedTree.literal?.bind Json.asString? = some "u0041" ∧
    (Builder.Declaration.initialized (parse (constScript codedLiteral.text))).map
      (fun d => (d.value.tree.literal?).bind Json.asString?) = [some "u0041"] := by
  have all : (['0', '0', '4', '1'].all hexDigits.contains) = true := rfl
  have hex : ∀ d ∈ ['0', '0', '4', '1'], d ∈ hexDigits := fun d listed => List.contains_iff_mem.mp (List.all_eq_true.mp all d listed)
  refine ⟨by decide, .string ⟨⟨⟨rfl, hex⟩, trivial⟩, trivial⟩, .string (by decide),
    .string (.string (by decide) rfl (.cons (.escape rfl rfl) .nil)), ?_, ?_⟩
  · decide +kernel
  · decide +kernel

end Script
end SchemaAtlas
