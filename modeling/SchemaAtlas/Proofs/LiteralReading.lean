import SchemaAtlas.Proofs.LiteralTokens
import SchemaAtlas.Proofs.LiteralValues

namespace SchemaAtlas
namespace Script

-- The rules take a literal as a whole, and their tree of it is one that spells it.

open Reading Grammar

namespace Reading

variable {c : Cursor} {text tail : List Char}

theorem sign_none {word : String} (other : (c.token.shape == .sign && c.token.text == word) = false) :
    sign word c = none := by
  rw [sign_apply, other]
  rfl

theorem atSign_false {word : String} (other : (c.token.shape == .sign && c.token.text == word) = false) :
    atSign word c = some (false, c) := by
  rw [atSign_apply, other]

theorem acceptSign_false {word : String} (other : (c.token.shape == .sign && c.token.text == word) = false) :
    acceptSign word c = some (false, c) := by
  rw [acceptSign_apply, other]
  rfl

theorem within_none {inner : Reading (List Tree)} (failed : inner c = none) (kind : Kind) : within kind inner c = none := by
  rw [within, bind_some (here_apply c)]
  exact bind_none failed

theorem within_inv {inner : Reading (List Tree)} (read : within kind inner c = some (t, stop)) :
    ∃ children, inner c = some (children, stop) := by
  rw [within, bind_some (here_apply c)] at read
  obtain ⟨children, later, taken, read⟩ := bind_inv read
  cases read
  exact ⟨children, taken⟩

def bracketed (kind : Kind) (x y : Char) (item : Reading Tree) : Reading Tree :=
  within kind (do
    sign (String.ofList [x])
    listUpTo (String.ofList [y]) "," item)

variable {ι : Type} {item : Reading Tree} {textOf : ι → List Char}

theorem bracketed_takes {P : ι → Tree → Prop} (kind : Kind) (other : kind.isName = false) (opening : x ∈ Cursor.marks)
    (closing : y ∈ [']', '\x7d']) (items : List ι)
    (each : ∀ i ∈ items, Opens (textOf i) ∧ textOf i ≠ [] ∧ Takes item (textOf i) (P i)) :
    Takes (bracketed kind x y item) (x :: (commas (items.map textOf) ++ [y]))
      fun t => t.kind = kind ∧ List.Forall₂ P items t.children := by
  intro c tail split _
  have split : c.rest = [x] ++ (commas (items.map textOf) ++ y :: tail) := by simpa using split
  obtain ⟨ts, read, all⟩ := listUpTo_takes closing items each (c.advance 1) tail (Cursor.rest_past split)
  have stop : (c.advance 1).advance ((commas (items.map textOf)).length + 1) =
      c.advance (x :: (commas (items.map textOf) ++ [y])).length := by
    rw [Cursor.advance_add]
    congr 1
    simp
    omega
  obtain ⟨kinds, -, children⟩ := Cursor.tree_parts c.token.start
    (c.advance (x :: (commas (items.map textOf) ++ [y])).length) kind ts other
  refine ⟨_, within_some ?_ kind, kinds, children.symm ▸ all⟩
  rw [bind_some (sign_mark opening split), read, stop]

theorem bracketed_bounds (kind : Kind) (opening : x ∈ Cursor.marks) (closing : y ∈ [']', '\x7d']) (items : List ι)
    (each : ∀ i ∈ items, Opens (textOf i) ∧ textOf i ≠ [] ∧ Bounds item (textOf i)) :
    Bounds (bracketed kind x y item) (x :: (commas (items.map textOf) ++ [y])) := by
  intro c tail split _ t stop read
  have split : c.rest = [x] ++ (commas (items.map textOf) ++ y :: tail) := by simpa using split
  obtain ⟨children, read⟩ := within_inv read
  rw [bind_some (sign_mark opening split)] at read
  rw [listUpTo_bounds closing items each (c.advance 1) tail (Cursor.rest_past split) read, Cursor.advance_add]
  congr 1
  simp
  omega

variable {r : Rules} {signs : List String}

theorem identifier_none (starts : c.token.Starts signs) : identifier c = none := by
  rw [identifier, bind_some (peek_apply c), starts.notFree]
  exact bind_none (check_apply false c)

theorem thisLeaf_none (starts : c.token.Starts signs) : thisLeaf c = none := by
  have other : atWord "this" c = some (false, c) := by
    change some ((c.token.shape == .name && c.token.text == "this"), c) = _
    rw [starts.notWord (by decide)]
  rw [thisLeaf, bind_some other]
  exact bind_none (check_apply false c)

theorem target_eq (starts : c.token.Starts signs) : target r c = r.pattern c := by
  have base : (identifier <|> thisLeaf) c = none := by
    rw [orElse_apply, identifier_none starts, thisLeaf_none starts]
    rfl
  have member : memberTarget r c = none := by
    rw [memberTarget, bind_some (here_apply c)]
    exact bind_none base
  rw [target, orElse_apply, member]
  rfl

theorem defaulted_bounds {pattern : Reading Tree} (bounds : Bounds pattern text) (kind : Kind) :
    Bounds (defaulted r kind pattern) text := by
  intro c tail split ends t stop read
  rw [defaulted, bind_some (here_apply c)] at read
  obtain ⟨left, later, taken, read⟩ := bind_inv read
  obtain rfl := bounds c tail split ends left later taken
  have behind : Ends (c.advance text.length).rest := by rwa [Cursor.rest_past split]
  rw [bind_some (behind.acceptSign (by decide))] at read
  cases read
  rfl

theorem starts_quoted {q : Quoted} (split : c.rest = q.text ++ tail) : c.token.start = c ∧ c.token.Starts [] := by
  rw [quote_token (q := q.quote) (by rw [split]; rfl)]
  refine ⟨rfl, fun shape => ?_, fun shape => ?_⟩ <;> split at shape <;> cases shape

theorem shape_quoted {q : Quoted} (quotes : q.quote ≠ .backquote) (split : c.rest = q.text ++ tail) :
    c.token.shape = .quote := by
  rw [quote_token (q := q.quote) (by rw [split]; rfl)]
  exact if_neg quotes

theorem propertyName_quoted {q : Quoted} (formed : q.WellFormed) (quotes : q.quote ≠ .backquote)
    (split : c.rest = q.text ++ tail) (inner : Reading Tree) :
    ∃ t, propertyName inner c = some (t, c.advance q.text.length) ∧ q.Spelled t := by
  obtain ⟨t, read, spelled⟩ := string_read formed quotes split
  refine ⟨t, ?_, spelled⟩
  rw [propertyName, bind_some (peek_apply c), shape_quoted quotes split]
  exact read

theorem colon_behind {q : Quoted} {value : List Char} (split : c.rest = q.text ++ ':' :: value ++ tail) :
    c.rest = q.text ++ (':' :: (value ++ tail)) ∧ (c.advance q.text.length).rest = [':'] ++ (value ++ tail) := by
  have split : c.rest = q.text ++ (':' :: (value ++ tail)) := by simpa using split
  exact ⟨split, Cursor.rest_past split⟩

theorem anyName_none (quote : c.token.shape = .quote) (kind : Kind) : anyName kind c = none := by
  rw [anyName, bind_some (peek_apply c), isName, quote]
  exact bind_none (check_apply false c)

theorem defaulted_none {pattern : Reading Tree} (failed : pattern c = none) (kind : Kind) : defaulted r kind pattern c = none := by
  rw [defaulted, bind_some (here_apply c)]
  exact bind_none failed

theorem restPattern_none (other : (c.token.shape == .sign && c.token.text == "...") = false) : restPattern r c = none :=
  within_none (bind_none (sign_none other)) _

def memberPattern (r : Rules) : Reading Tree := restPattern r <|> pairPattern r <|> shorthandPattern r

theorem memberPattern_bounds {q : Quoted} (formed : q.WellFormed) (quotes : q.quote ≠ .backquote) {value : List Char}
    (bounds : Bounds (target r) value) : Bounds (memberPattern r) (q.text ++ ':' :: value) := by
  intro c tail split ends t stop read
  obtain ⟨whole, colon⟩ := colon_behind split
  have noRest : restPattern r c = none := restPattern_none ((starts_quoted whole).2.notSign (by simp))
  have noName : shorthandPattern r c = none := defaulted_none (anyName_none (shape_quoted quotes whole) _) _
  rw [memberPattern, orElse_apply, noRest, Option.none_or, orElse_apply, noName, Option.or_none] at read
  obtain ⟨children, read⟩ := within_inv read
  obtain ⟨key, named, -⟩ := propertyName_quoted formed quotes whole r.expression
  rw [bind_some named, bind_some (sign_mark (x := ':') (by decide) colon)] at read
  obtain ⟨t, later, taken, read⟩ := bind_inv read
  cases read
  rw [defaulted_bounds bounds _ _ tail (Cursor.rest_past colon) ends _ _ taken, Cursor.advance_add, Cursor.advance_add]
  congr 1
  simp
  omega

end Reading

namespace Literal

theorem text_ne_nil {l : Literal} (formed : l.WellFormed) : l.text ≠ [] := by
  cases formed with
  | null => exact List.cons_ne_nil _ _
  | @bool b => cases b <;> exact List.cons_ne_nil _ _
  | @number negative n formed _ =>
    obtain ⟨x, rest, same, -⟩ := first_digit formed
    cases negative
    · rw [text, same]
      exact List.cons_ne_nil _ _
    · exact List.cons_ne_nil _ _
  | string _ => exact List.cons_ne_nil _ _
  | array _ => exact List.cons_ne_nil _ _
  | object _ _ => exact List.cons_ne_nil _ _

theorem opens {l : Literal} (formed : l.WellFormed) : Opens l.text := fun _ _ split ends => text_opens formed split ends

theorem member_opens (m : Quoted × Literal) : Opens (memberText m) := fun c tail split _ word _ =>
  (starts_quoted (colon_behind split).1).2.notSign (by simp)

theorem member_ne_nil (m : Quoted × Literal) : memberText m ≠ [] := List.cons_ne_nil _ _

theorem target_bounds {l : Literal} (formed : l.WellFormed) (bounds : Bounds r.pattern l.text) : Bounds (target r) l.text := by
  intro c tail split ends t stop read
  rw [target_eq (token_starts formed split ends).2] at read
  exact bounds c tail split ends t stop read

theorem elementPattern_bounds {l : Literal} (formed : l.WellFormed) (bounds : Bounds r.pattern l.text) :
    Bounds (restPattern r <|> defaulted r .assignmentPattern (target r)) l.text := by
  intro c tail split ends t stop read
  rw [orElse_apply, restPattern_none (text_opens formed split ends "..." (by decide)), Option.none_or] at read
  exact defaulted_bounds (target_bounds formed bounds) _ c tail split ends t stop read

theorem pattern_none {l : Literal} (formed : l.WellFormed) (flat : "[" ∉ l.signs ∧ "\x7b" ∉ l.signs) (n : Nat) :
    Bounds (rules n).pattern l.text := by
  intro c tail split ends t stop read
  cases n with
  | zero => cases read
  | succ n =>
    have starts := (token_starts formed split ends).2
    change pattern (rules n) c = some (t, stop) at read
    rw [pattern, orElse_apply, identifier_none starts, Option.none_or, orElse_apply, objectPattern,
      within_none (bind_none (sign_none (starts.notSign flat.2))), Option.none_or, arrayPattern,
      within_none (bind_none (sign_none (starts.notSign flat.1)))] at read
    cases read

theorem pattern_bounds {l : Literal} (formed : l.WellFormed) (n : Nat) : Bounds (rules n).pattern l.text := by
  induction formed generalizing n with
  | null => exact pattern_none .null (by decide) n
  | bool => exact pattern_none .bool (by simp [signs]) n
  | @number negative m formed inRange => exact pattern_none (.number formed inRange) (by cases negative <;> simp [signs]) n
  | string formed => exact pattern_none (.string formed) (by simp [signs]) n
  | @array items inner ih =>
    intro c tail split ends t stop read
    cases n with
    | zero => cases read
    | succ n =>
      have starts := (token_starts (.array inner) split ends).2
      change pattern (rules n) c = some (t, stop) at read
      rw [pattern, orElse_apply, identifier_none starts, Option.none_or, orElse_apply, objectPattern,
        within_none (bind_none (sign_none (starts.notSign (by simp [signs])))), Option.none_or] at read
      rw [text_array] at split ⊢
      exact bracketed_bounds .arrayPattern (by decide) (by decide) items (fun item listed =>
        ⟨opens (inner item listed), text_ne_nil (inner item listed), elementPattern_bounds (inner item listed) (ih item listed n)⟩)
        c tail split ends t stop read
  | @object members keyed inner ih =>
    intro c tail split ends t stop read
    cases n with
    | zero => cases read
    | succ n =>
      have starts := (token_starts (.object keyed inner) split ends).2
      change pattern (rules n) c = some (t, stop) at read
      rw [pattern, orElse_apply, identifier_none starts, Option.none_or, orElse_apply, arrayPattern,
        within_none (bind_none (sign_none (starts.notSign (by simp [signs])))), Option.or_none] at read
      rw [text_object] at split ⊢
      exact bracketed_bounds .objectPattern (by decide) (by decide) members (fun m listed =>
        ⟨member_opens m, member_ne_nil m, memberPattern_bounds (keyed m listed).1 (keyed m listed).2
          (target_bounds (inner m listed) (ih m listed n))⟩) c tail split ends t stop read

end Literal

namespace Reading

variable {c : Cursor} {text tail : List Char} {r : Rules} {classes : Reading Tree} {signs : List String}

theorem not_signs (starts : c.token.Starts signs) {words : List String} (others : ∀ word ∈ words, word ∉ signs) :
    (c.token.shape == .sign && words.contains c.token.text) = false := by
  by_contra both
  obtain ⟨shape, listed⟩ : c.token.shape = .sign ∧ c.token.text ∈ words := by simpa using both
  exact others _ listed (starts.sign shape)

theorem not_words (starts : c.token.Starts signs) {words : List String} (others : ∀ word ∈ words, word ∉ ["null", "true", "false"]) :
    (c.token.shape == .name && words.contains c.token.text) = false := by
  by_contra both
  obtain ⟨shape, listed⟩ : c.token.shape = .name ∧ c.token.text ∈ words := by simpa using both
  exact others _ listed (starts.word shape)

def prefixes : List String := ["!", "~", "-", "+", "++", "--", "<"]

theorem unary_updated (starts : c.token.Starts signs) (others : ∀ word ∈ prefixes, word ∉ signs) :
    unary r classes c = updated r classes c := by
  have none_of {words : List String} (some_of : ∀ word ∈ words, word ∈ prefixes) :
      (c.token.shape == .sign && words.contains c.token.text) = false :=
    not_signs starts fun word listed => others word (some_of word listed)
  rw [unary, bind_some (peek_apply c), none_of (by decide), none_of (by decide), not_words starts (by decide),
    starts.notSign (others "<" (by decide)), starts.notWord (by decide)]
  rfl

theorem element_takes {P : Tree → Prop} (opens : Opens text) (takes : Takes r.expression text P) :
    Takes (element r) text P := by
  intro c tail split ends
  obtain ⟨t, read, good⟩ := takes c tail split ends
  refine ⟨t, ?_, good⟩
  rw [element, bind_some (atSign_false (opens c tail split ends "..." (by decide)))]
  exact read

theorem methodName_none {q : Quoted} (formed : q.WellFormed) (quotes : q.quote ≠ .backquote)
    (split : c.rest = q.text ++ tail) (colon : (c.advance q.text.length).rest = ':' :: behind) : methodName r c = none := by
  have quote := shape_quoted quotes split
  have starts := (starts_quoted split).2
  have noModifier : modifiers methodWords startsMethodName c = some ((), c) := by
    have ended : Rounds (do
        let t ← peek
        if t.shape == .name && methodWords.contains t.text && startsMethodName t.next.token then
          Reading.take t
          return some ()
        else return none) c [] c := .done (by rw [bind_some (peek_apply c), quote]; rfl)
    rw [modifiers, bind_some ended.many]
    rfl
  obtain ⟨name, named, -⟩ := propertyName_quoted formed quotes split r.expression
  -- Behind the key stands a colon and no parenthesis.
  have colonMark : ':' ∈ Cursor.marks := by decide
  have noSign (word : String) (other : (String.ofList [':'] == word) = false) :
      atSign word (c.advance q.text.length) = some (false, c.advance q.text.length) :=
    atSign_false (by rw [token_eq_mark colonMark colon, other])
  have noSignature : startsSignature (c.advance q.text.length) = none := by
    rw [startsSignature, bind_some (noSign "(" (by decide)), bind_some (noSign "<" (by decide))]
    exact check_apply false _
  have noMark : acceptSign "?" (c.advance q.text.length) = some (false, c.advance q.text.length) :=
    acceptSign_false (by rw [token_eq_mark colonMark colon]; decide)
  rw [methodName, orElse_apply, bind_some noModifier, bind_some (acceptSign_false (starts.notSign (by simp))),
    bind_some named, bind_some noMark, bind_none noSignature]
  rfl

def PairOf (q : Quoted) (P : Tree → Prop) (t : Tree) : Prop :=
  t.kind = .pair ∧ ∃ key inner : Tree, t.children = [key.withRole .key, inner.withRole .value] ∧ q.Spelled key ∧ P inner

theorem pair_takes {q : Quoted} {value : List Char} {P : Tree → Prop} (formed : q.WellFormed)
    (quotes : q.quote ≠ .backquote) (opens : Opens value) (takes : Takes r.expression value P) :
    Takes (pair r) (q.text ++ ':' :: value) (PairOf q P) := by
  intro c tail split ends
  obtain ⟨whole, colon⟩ := colon_behind split
  obtain ⟨key, named, spelled⟩ := propertyName_quoted formed quotes whole r.expression
  have behind : ((c.advance q.text.length).advance 1).rest = value ++ tail := Cursor.rest_past colon
  obtain ⟨inner, read, good⟩ := takes _ tail behind ends
  have stop : ((c.advance q.text.length).advance 1).advance value.length = c.advance (q.text ++ ':' :: value).length := by
    rw [Cursor.advance_add, Cursor.advance_add]
    congr 1
    simp
    omega
  obtain ⟨kinds, -, children⟩ := Cursor.tree_parts c.token.start (c.advance (q.text ++ ':' :: value).length) .pair
    [key.withRole .key, inner.withRole .value] rfl
  refine ⟨_, within_some ?_ _, kinds, key, inner, children, spelled, good⟩
  rw [bind_some named, bind_some (sign_mark (x := ':') (by decide) colon),
    bind_some (atSign_false (opens _ tail behind ends "\x7d" (by decide))),
    bind_some (atSign_false (opens _ tail behind ends "," (by decide))), ← stop]
  simp only [Bool.or_self, Bool.false_eq_true, if_false]
  rw [bind_some read]
  rfl

theorem objectMember_takes {q : Quoted} {value : List Char} {P : Tree → Prop} (formed : q.WellFormed)
    (quotes : q.quote ≠ .backquote) (opens : Opens value) (takes : Takes r.expression value P) :
    Takes (objectMember r) (q.text ++ ':' :: value) (PairOf q P) := by
  intro c tail split ends
  obtain ⟨whole, colon⟩ := colon_behind split
  have noMethod : ahead (methodName r) c = some (false, c) := by
    rw [ahead, methodName_none formed quotes whole colon]
    rfl
  obtain ⟨t, read, good⟩ := pair_takes formed quotes opens takes c tail split ends
  refine ⟨t, ?_, good⟩
  rw [objectMember, bind_some (atSign_false ((starts_quoted whole).2.notSign (by simp)))]
  simp only [Bool.false_eq_true, if_false]
  rw [bind_some noMethod]
  simp only [Bool.false_eq_true, if_false]
  rw [orElse_apply, read]
  rfl

theorem leaf_apply {text : String}
    (token : c.token = { shape := shape, text := text, start := c, next := next, newline := false, comments := [] })
    (kind : Kind) : leaf kind c = some (c.tree kind [] next, next) := by
  rw [leaf, bind_some (peek_apply c), token]
  rfl

theorem primary_word {word : List Char} (first : ∃ x rest, word = x :: rest ∧ x ∈ letters)
    (inside : word.all isNameChar = true) (known : plainWords.lookup (String.ofList word) = some kind)
    (split : c.rest = word ++ tail) (ends : Ends tail) :
    primary r classes c = some (c.tree kind [] (c.advance word.length), c.advance word.length) := by
  have token := token_word first inside split (ends_breaks ends)
  rw [primary, bind_some (peek_apply c), token]
  dsimp only
  rw [known]
  exact leaf_apply token kind

theorem primary_number {n : WrittenNumber} (formed : n.WellFormed) (split : c.rest = n.text ++ tail) (ends : Ends tail) :
    ∃ t, primary r classes c = some (t, c.advance n.text.length) ∧ t.kind = .number ∧ t.text = String.ofList n.text := by
  have token := token_number formed split ends
  obtain ⟨kind, text, -⟩ := Cursor.tree_parts c (c.advance n.text.length) .number [] rfl
  refine ⟨_, ?_, kind, text.trans (Cursor.textTo_past split)⟩
  rw [primary, bind_some (peek_apply c), token]
  dsimp only
  rw [number, bind_some (peek_apply c), token]
  exact leaf_apply token .number

theorem primary_quoted {q : Quoted} (formed : q.WellFormed) (split : c.rest = q.text ++ tail) :
    ∃ t, primary r classes c = some (t, c.advance q.text.length) ∧ q.Spelled t := by
  have token := quote_token (q := q.quote) (c := c) (by rw [split]; rfl)
  rw [primary, bind_some (peek_apply c), token]
  by_cases back : q.quote = .backquote
  · rw [if_pos back]
    exact template_read (sequence r) formed back split
  · rw [if_neg back]
    exact string_read formed back split

end Reading

namespace Literal

variable {r : Rules} {classes : Reading Tree}

theorem primary_unary {l : Literal} {P : Tree → Prop} (formed : l.WellFormed) (signless : "-" ∉ l.signs)
    (takes : Takes (primary r classes) l.text P) : Takes (unary r classes) l.text P := by
  intro c tail split ends
  obtain ⟨t, read, good⟩ := takes c tail split ends
  have others : ∀ word ∈ prefixes, word ∉ l.signs := by
    intro word listed own
    have each : ∀ word ∈ ["-", "[", "\x7b"], word ∈ prefixes → word = "-" := by decide
    exact signless (each word (l.signs_subset word own) listed ▸ own)
  refine ⟨t, ?_, good⟩
  rw [unary_updated (token_starts formed split ends).2 others]
  exact updated_ends read (by rwa [Cursor.rest_past split])

theorem word_takes {word : List Char} (kind : Kind) (first : ∃ x rest, word = x :: rest ∧ x ∈ letters) (inside : word.all isNameChar = true)
    (known : plainWords.lookup (String.ofList word) = some kind) (other : kind.isName = false) :
    Takes (primary r classes) word fun t => t.kind = kind := by
  intro c tail split ends
  obtain ⟨same, -, -⟩ := Cursor.tree_parts c (c.advance word.length) kind [] other
  exact ⟨_, primary_word first inside known split ends, same⟩

theorem null_takes : Takes (primary r classes) null.text null.Spelled := fun c tail split ends => by
  obtain ⟨t, read, kind⟩ := word_takes .null ⟨_, _, rfl, by decide⟩ rfl rfl rfl c tail split ends
  exact ⟨t, read, .null kind⟩

theorem bool_takes (b : Bool) : Takes (primary r classes) (bool b).text (bool b).Spelled := fun c tail split ends => by
  cases b with
  | true =>
    obtain ⟨t, read, kind⟩ := word_takes .true ⟨_, _, rfl, by decide⟩ rfl rfl rfl c tail split ends
    exact ⟨t, read, .bool kind⟩
  | false =>
    obtain ⟨t, read, kind⟩ := word_takes .false ⟨_, _, rfl, by decide⟩ rfl rfl rfl c tail split ends
    exact ⟨t, read, .bool kind⟩

theorem number_takes {n : WrittenNumber} (formed : n.WellFormed) (inRange : n.value < Double.overflow) :
    Takes (unary r classes) n.text fun t => t.kind = .number ∧ t.text = String.ofList n.text :=
  primary_unary (.number formed inRange : (number false n).WellFormed) (by simp [signs]) fun _ _ split ends =>
    primary_number formed split ends

theorem negative_takes {n : WrittenNumber} (formed : n.WellFormed)
    (takes : Takes r.unary n.text fun t => t.kind = .number ∧ t.text = String.ofList n.text) :
    Takes (unary r classes) (number true n).text (number true n).Spelled := by
  intro c tail split ends
  have minus : c.rest = ['-'] ++ (n.text ++ tail) := split
  obtain ⟨inner, read, kind, text⟩ := takes (c.advance 1) tail (Cursor.rest_past minus) ends
  obtain ⟨kinds, -, children⟩ := Cursor.tree_parts c (c.advance (number true n).text.length) (.unary "-")
    [inner.withRole .argument] rfl
  have argument (t : Tree) (held : t.children = [inner.withRole .argument]) :
      t.child? .argument = some (inner.withRole .argument) := by
    rw [Tree.child?, held]
    rfl
  refine ⟨_, ?_, .negative kinds (argument _ children) kind text⟩
  have token := token_minus formed split
  have stop : (c.advance 1).advance n.text.length = c.advance (number true n).text.length := by
    rw [Cursor.advance_add, Nat.add_comm]
    rfl
  have under : (do
      Reading.take c.token
      let inner ← r.unary
      return [inner.withRole .argument] : Reading (List Tree)) c =
        some ([inner.withRole .argument], c.advance (number true n).text.length) := by
    rw [token, Reading.take, bind_some (set_apply _ c), bind_some read, stop]
    rfl
  have whole := within_some under (.unary "-")
  rw [token] at whole
  rw [unary, bind_some (peek_apply c), token]
  exact whole

theorem string_takes {q : Quoted} (formed : q.WellFormed) : Takes (primary r classes) (string q).text (string q).Spelled := by
  intro c tail split ends
  obtain ⟨t, read, spelled⟩ := primary_quoted formed split
  exact ⟨t, read, .string spelled⟩

theorem array_takes {items : List Literal} (formed : ∀ item ∈ items, item.WellFormed)
    (each : ∀ item ∈ items, Takes r.expression item.text item.Spelled) :
    Takes (primary r classes) (array items).text (array items).Spelled := by
  intro c tail split ends
  have first : primary r classes c = Grammar.array r c := by
    rw [primary, bind_some (peek_apply c), Cursor.token_mark (x := '[') (by decide) (by rw [split]; rfl)]
    rfl
  rw [text_array] at split ⊢
  obtain ⟨t, read, kind, all⟩ := bracketed_takes .array rfl (by decide) (by decide) items (fun item listed =>
    ⟨opens (formed item listed), text_ne_nil (formed item listed), element_takes (opens (formed item listed)) (each item listed)⟩)
    c tail split ends
  have parts : t.parts = t.children := parts_eq fun piece listed => by
    obtain ⟨item, -, spelled⟩ := forall₂_mem all.flip listed
    exact spelled.part
  exact ⟨t, first.trans read, .array kind (parts ▸ all)⟩

theorem pairOf_member {m : Quoted × Literal} {t : Tree} (pair : PairOf m.1 m.2.Spelled t) : SpelledMember m t := by
  obtain ⟨kind, key, value, children, name, content⟩ := pair
  refine ⟨key.withRole .key, value.withRole .value, ⟨kind, ?_, ?_⟩, name.withRole _, content.withRole _⟩
  · rw [Tree.child?, children]
    rfl
  · rw [Tree.child?, children]
    rfl

theorem object_takes {members : List (Quoted × Literal)} (keyed : ∀ m ∈ members, m.1.WellFormed ∧ m.1.quote ≠ .backquote)
    (formed : ∀ m ∈ members, m.2.WellFormed) (each : ∀ m ∈ members, Takes r.expression m.2.text m.2.Spelled) :
    Takes (primary r classes) (object members).text (object members).Spelled := by
  intro c tail split ends
  have first : primary r classes c = Grammar.object r c := by
    rw [primary, bind_some (peek_apply c), Cursor.token_mark (x := '\x7b') (by decide) (by rw [split]; rfl)]
    rfl
  rw [text_object] at split ⊢
  obtain ⟨t, read, kind, all⟩ := bracketed_takes .object rfl (by decide) (by decide) members (fun m listed =>
    ⟨member_opens m, member_ne_nil m, objectMember_takes (keyed m listed).1 (keyed m listed).2 (opens (formed m listed))
      (each m listed)⟩) c tail split ends
  have parts : t.parts = t.children := parts_eq fun piece listed => by
    obtain ⟨m, -, kind, -⟩ := forall₂_mem all.flip listed
    rw [kind]
    rfl
  exact ⟨t, first.trans read, spelled_object.mpr ⟨kind, parts ▸ all.imp fun m t pair => pairOf_member pair⟩⟩

theorem unary_expression {l : Literal} (formed : l.WellFormed) {P : Tree → Prop} (takes : Takes (rules n).unary l.text P) :
    Takes (rules (n + 1)).expression l.text P := by
  intro c tail split ends
  obtain ⟨t, read, good⟩ := takes c tail split ends
  have past := Cursor.rest_past split
  obtain ⟨-, starts⟩ := token_starts formed split ends
  refine ⟨t, ?_, good⟩
  change expression (rules n) c = _
  refine expression_ends read (by rwa [past]) (fun t stop pattern => ?_) (starts.notWord (by decide)) ?_
  · rw [pattern_bounds formed n c tail split ends t stop pattern, past]
    exact ends
  · have noSign (word : String) (other : word ∉ ["-", "[", "\x7b"]) :
        (c.token.shape == .sign && c.token.text == word) = false :=
      starts.notSign fun own => other (l.signs_subset word own)
    rw [startsArrow, starts.notFree, Bool.and_or_distrib_left, noSign "(" (by decide), noSign "<" (by decide)]
    rfl

theorem unary_takes {l : Literal} (formed : l.WellFormed) (enough : 2 * l.levels + 1 ≤ n) :
    Takes (rules n).unary l.text l.Spelled := by
  -- Each level of the literal takes two of the grammar.
  obtain ⟨n, rfl⟩ := Nat.exists_eq_succ_of_ne_zero (Nat.ne_zero_of_lt enough)
  change Takes (unary (rules n) (classExpression (rules n))) l.text l.Spelled
  induction formed generalizing n with
  | null => exact primary_unary .null (by simp [signs]) null_takes
  | @bool b => exact primary_unary .bool (by simp [signs]) (bool_takes b)
  | @number negative m formed inRange =>
    cases negative with
    | false =>
      intro c tail split ends
      obtain ⟨t, read, kind, text⟩ := number_takes formed inRange c tail split ends
      exact ⟨t, read, .number kind text⟩
    | true =>
      have one : (number true m).levels = 1 := rfl
      obtain ⟨n, rfl⟩ : ∃ left, n = left + 1 := ⟨n - 1, by omega⟩
      exact negative_takes formed (number_takes formed inRange)
  | string formed => exact primary_unary (.string formed) (by simp [signs]) (string_takes formed)
  | @array items inner ih =>
    refine primary_unary (.array inner) (by simp [signs]) (array_takes inner fun item listed => ?_)
    have inside := levels_array.mp (le_refl (array items).levels) item listed
    obtain ⟨n, rfl⟩ : ∃ left, n = left + 2 := ⟨n - 2, by omega⟩
    exact unary_expression (inner item listed) (ih item listed n (by omega))
  | @object members keyed inner ih =>
    refine primary_unary (.object keyed inner) (by simp [signs]) (object_takes keyed inner fun m listed => ?_)
    have inside := levels_object.mp (le_refl (object members).levels) m listed
    obtain ⟨n, rfl⟩ : ∃ left, n = left + 2 := ⟨n - 2, by omega⟩
    exact unary_expression (inner m listed) (ih m listed n (by omega))

end Literal

end Script
end SchemaAtlas
