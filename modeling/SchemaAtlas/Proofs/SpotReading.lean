import SchemaAtlas.Proofs.LiteralTokens
import SchemaAtlas.Proofs.ScriptSpots

namespace SchemaAtlas
namespace Script

open SchemaAtlas.Script.Tree (Apart Drawn IsBlank Named)

-- How rules move through a text, and how what they read stays apart.

namespace Cursor

variable {c d : Cursor}

theorem location_le_advance (c : Cursor) (count : Nat) : c.location ≤ (c.advance count).location := by
  induction count generalizing c with
  | zero => exact le_refl _
  | succ count ih =>
    rw [advance]
    split
    · exact le_refl _
    · exact le_trans (le_of_lt (Location.lt_after _ _)) (ih { rest := _, offset := _, location := _ })

theorem location_lt_advance {count : Nat} (more : c.rest ≠ []) (positive : 0 < count) :
    c.location < (c.advance count).location := by
  obtain ⟨count, rfl⟩ := Nat.exists_eq_succ_of_ne_zero (Nat.ne_of_gt positive)
  rw [advance]
  split
  · rename_i none
    exact absurd none more
  · exact lt_of_lt_of_le (Location.lt_after _ _) (location_le_advance { rest := _, offset := _, location := _ } _)

theorem tree_children (start stop : Cursor) (kind : Kind) (children : List Tree) :
    (start.tree kind children stop).children = children := by
  unfold tree
  split <;> rfl

theorem tree_location (start stop : Cursor) (kind : Kind) (children : List Tree) :
    (start.tree kind children stop).location = start.location := by
  unfold tree
  split <;> rfl

theorem tree_role (start stop : Cursor) (kind : Kind) (children : List Tree) :
    (start.tree kind children stop).role = .plain := by
  unfold tree
  split <;> rfl

theorem tree_isPlain (start stop : Cursor) (children : List Tree) {kind : Kind} (plain : kind.isPlain = true) :
    (start.tree kind children stop).kind.isPlain = true := by
  unfold tree
  split
  · exact plain
  · rfl

theorem tree_leaf_isBlank (start stop : Cursor) {kind : Kind} (plain : kind.isPlain = true) :
    (start.tree kind [] stop).IsBlank :=
  Tree.isBlank_of_leaf (tree_isPlain start stop [] plain) (tree_children start stop kind [])

structure Follows (c : Cursor) (gap : Gap) : Prop where
  behind : c.location ≤ gap.stop.location
  comments : ∀ t ∈ gap.comments, t.IsBlank

theorem skipSpaces_follows {past : Cursor} {before : Gap} (behind : c.location ≤ past.location)
    (comments : ∀ t ∈ before.comments, t.IsBlank) : c.Follows (skipSpaces past before) :=
  ⟨le_trans behind (location_le_advance _ _), comments⟩

theorem skipComments_follows {gap : Gap} (fuel : Nat) (follows : c.Follows gap) : c.Follows (skipComments fuel gap) := by
  induction fuel generalizing gap with
  | zero => exact follows
  | succ fuel ih =>
    rw [skipComments]
    split
    · exact follows
    · rename_i length _
      refine ih (skipSpaces_follows (le_trans follows.behind (location_le_advance _ length)) ?_)
      exact List.forall_mem_append.mpr ⟨follows.comments, List.forall_mem_singleton.mpr (tree_leaf_isBlank _ _ rfl)⟩

theorem gap_follows (c : Cursor) : c.Follows c.gap := by
  have spaces : c.Follows (skipSpaces c { newline := false, comments := [], stop := c }) :=
    skipSpaces_follows (le_refl _) fun _ listed => nomatch listed
  unfold gap
  dsimp only
  split
  · exact skipComments_follows _ spaces
  · exact spaces

theorem location_le_start (c : Cursor) : c.location ≤ c.token.start.location := c.gap_follows.behind

theorem comments_isBlank (c : Cursor) : ∀ t ∈ c.token.comments, t.IsBlank := c.gap_follows.comments

theorem start_le_next (c : Cursor) : c.token.start.location ≤ c.token.next.location := location_le_advance _ _

theorem location_le_next (c : Cursor) : c.location ≤ c.token.next.location :=
  le_trans c.location_le_start c.start_le_next

theorem digitsLength_pos {hex : Bool} {x : Char} {rest : List Char} (name : isNameChar x = true) :
    0 < digitsLength hex (x :: rest) := by
  cases rest with
  | nil => simp [digitsLength, name]
  | cons y rest =>
    rw [digitsLength]
    split
    · omega
    · omega

theorem numberLength_pos {x : Char} {rest : List Char} (name : isNameChar x = true) : 0 < numberLength (x :: rest) := by
  have whole (hex : Bool) : 0 < digitsLength hex (x :: rest) := digitsLength_pos name
  unfold numberLength
  dsimp only
  repeat' split
  all_goals first
    | exact whole _
    | omega

theorem numberLength_point_pos (rest : List Char) : 0 < numberLength ('.' :: rest) := by
  have none : digitsLength false ('.' :: rest) = 0 := by cases rest <;> rfl
  simp [numberLength, none]

theorem isNameChar_of_isDigit {x : Char} (digit : isDigit x = true) : isNameChar x = true := (digit_name digit).1

theorem cut_named {cs : List Char} (named : (cut cs).1 ∈ [TokenShape.name, .quote, .number, .privateName]) :
    cs ≠ [] ∧ 0 < (cut cs).2 := by
  unfold cut at named ⊢
  split at named
  · simp at named
  · simp
  · simp
  · simp
  · split at named <;> simp_all
  · refine ⟨List.cons_ne_nil _ _, ?_⟩
    split at named
    · rename_i digit
      rw [if_pos digit]
      dsimp only
      exact numberLength_point_pos _
    · simp at named
  · refine ⟨List.cons_ne_nil _ _, ?_⟩
    split at named
    · rename_i digit
      rw [if_pos digit]
      exact numberLength_pos (isNameChar_of_isDigit digit)
    · rename_i other
      rw [if_neg other]
      split at named <;> simp_all

theorem token_text (c : Cursor) :
    c.token.text = String.ofList (c.token.start.rest.take (cut c.token.start.rest).2) := rfl

theorem token_next (c : Cursor) : c.token.next = c.token.start.advance (cut c.token.start.rest).2 := rfl

theorem start_lt_next (text : c.token.text ≠ "") : c.token.start.location < c.token.next.location := by
  rw [token_text] at text
  rw [token_next]
  refine location_lt_advance (fun none => text ?_) (Nat.pos_of_ne_zero fun none => text ?_)
  · rw [none, List.take_nil]
  · rw [none, List.take_zero]

theorem start_lt_next_of_shape (named : c.token.shape ∈ [TokenShape.name, .quote, .number, .privateName]) :
    c.token.start.location < c.token.next.location := by
  obtain ⟨more, positive⟩ := cut_named named
  exact location_lt_advance more positive

end Cursor

namespace Reading

variable {c d : Cursor} {held some_ : List Tree} {out : α → List Tree}

-- A rule that holds trees and goes on from a cursor: what it gives is apart as well, up to
-- where it stops.
def From (held : List Tree) (m : Reading α) (out : α → List Tree) (c : Cursor) : Prop :=
  ∀ lo, Apart lo c.location held → ∀ a d, m c = some (a, d) → Apart lo d.location (out a)

def Keeps (held : List Tree) (m : Reading α) (out : α → List Tree) : Prop := ∀ c, From held m out c

abbrev ReadsTree (m : Reading Tree) : Prop := Keeps [] m fun t => [t]

abbrev ReadsTrees (m : Reading (List Tree)) : Prop := Keeps [] m id

def Moves (m : Reading α) : Prop := ∀ c a d, m c = some (a, d) → c.location ≤ d.location

def Stays (m : Reading α) : Prop := ∀ c a d, m c = some (a, d) → d = c

section Moving

variable {m n : Reading α} {f : α → Reading β}

theorem Stays.moves (stays : Stays m) : Moves m := fun c _ _ read => stays c _ _ read ▸ le_refl _

theorem Stays.bind (first : Stays m) (next : ∀ a, Stays (f a)) : Stays (m >>= f) := by
  intro c b d read
  obtain ⟨a, later, taken, rest⟩ := bind_inv read
  rw [next a later b d rest, first c a later taken]

theorem Moves.bind (first : Moves m) (next : ∀ a, Moves (f a)) : Moves (m >>= f) := by
  intro c b d read
  obtain ⟨a, later, taken, rest⟩ := bind_inv read
  exact le_trans (first c a later taken) (next a later b d rest)

theorem Moves.ite {p : Prop} [Decidable p] (yes : Moves m) (no : Moves n) : Moves (if p then m else n) := by
  split
  · exact yes
  · exact no

theorem Moves.orElse (first : Moves m) (second : Moves n) : Moves (m <|> n) := by
  intro c a d read
  rw [orElse_apply, Option.or_eq_some_iff] at read
  rcases read with taken | ⟨_, taken⟩
  · exact first c a d taken
  · exact second c a d taken

theorem stays_pure (a : α) : Stays (pure a : Reading α) := by
  intro c b d read
  cases read
  rfl

theorem stays_failure : Stays (failure : Reading α) := fun _ _ _ read => nomatch read

theorem stays_cursor : Stays cursor := by
  intro c b d read
  cases read
  rfl

theorem stays_peek : Stays peek := stays_cursor.bind fun _ => stays_pure _

theorem stays_here : Stays here := stays_peek.bind fun _ => stays_pure _

theorem stays_atSign (sign : String) : Stays (atSign sign) := stays_peek.bind fun _ => stays_pure _

theorem stays_atWord (word : String) : Stays (atWord word) := stays_peek.bind fun _ => stays_pure _

theorem stays_ahead (m : Reading α) : Stays (ahead m) := by
  intro c b d read
  cases read
  rfl

theorem check_inv {condition : Bool} (read : check condition c = some (u, d)) : condition = true ∧ d = c := by
  rw [check_apply] at read
  split at read
  · rename_i held
    cases read
    exact ⟨held, rfl⟩
  · cases read

theorem stays_check (condition : Bool) : Stays (check condition) := by
  unfold check
  split
  · exact stays_pure _
  · exact stays_failure

theorem take_token (c : Cursor) : take c.token c = some (⟨⟩, c.token.next) := rfl

theorem accept_apply (p : Token → Bool) (c : Cursor) :
    accept p c = if p c.token then some (true, c.token.next) else some (false, c) := by
  unfold accept
  rw [bind_some (peek_apply c)]
  split <;> rfl

theorem moves_accept (p : Token → Bool) : Moves (accept p) := by
  intro c b d read
  rw [accept_apply] at read
  split at read
  all_goals cases read
  · exact c.location_le_next
  · exact le_refl _

theorem moves_acceptSign (sign : String) : Moves (acceptSign sign) := moves_accept _

theorem moves_acceptWord (word : String) : Moves (acceptWord word) := moves_accept _

theorem moves_sign (s : String) : Moves (sign s) := (moves_acceptSign s).bind fun _ => (stays_check _).moves

theorem moves_word (w : String) : Moves (word w) := (moves_acceptWord w).bind fun _ => (stays_check _).moves

end Moving

section Keeping

variable {m n : Reading α} {f : α → Reading β} {o : α → List Tree} {out : β → List Tree}

theorem Keeps.pure {b : β} (drawn : Drawn (out b) held) : Keeps held (pure b) out := by
  intro c lo apart a d read
  cases read
  exact apart.drawn drawn

theorem Keeps.given {a : α} (keeps : Keeps held (f a) out) : Keeps held (Pure.pure a >>= f) out := keeps

-- A rule goes on with all that is held so far, and one that gives nothing is passed over.

theorem From.seq {c : Cursor} (first : From held m o c) (next : ∀ a, Keeps (o a) (f a) out) :
    From held (m >>= f) out c := by
  intro lo apart b d read
  obtain ⟨a, later, taken, rest⟩ := bind_inv read
  exact next a later lo (first lo apart a later taken) b d rest

theorem Keeps.seq (first : Keeps held m o) (next : ∀ a, Keeps (o a) (f a) out) : Keeps held (m >>= f) out :=
  fun c => (first c).seq next

theorem Keeps.bind (first : Keeps [] m o) (next : ∀ a, Keeps (held ++ o a) (f a) out) : Keeps held (m >>= f) out := by
  intro c lo apart b d read
  obtain ⟨a, later, taken, rest⟩ := bind_inv read
  exact next a later lo (apart.append (first c _ (.nil (le_refl _)) a later taken)) b d rest

theorem Keeps.skip (first : Moves m) (next : ∀ a, Keeps held (f a) out) : Keeps held (m >>= f) out := by
  intro c lo apart b d read
  obtain ⟨a, later, taken, rest⟩ := bind_inv read
  exact next a later lo (apart.later (first c a later taken)) b d rest

theorem Keeps.look (first : Stays m) (next : ∀ a, Keeps held (f a) out) : Keeps held (m >>= f) out := .skip first.moves next

theorem Keeps.weaken {less : α → List Tree} (keeps : Keeps held m o) (drawn : ∀ a, Drawn (less a) (o a)) :
    Keeps held m less := fun c lo apart a d read => (keeps c lo apart a d read).drawn (drawn a)

theorem Keeps.draw {less : List Tree} (keeps : Keeps less m o) (drawn : Drawn less held) : Keeps held m o :=
  fun c lo apart => keeps c lo (apart.drawn drawn)

theorem Keeps.map {g : α → β} (keeps : Keeps held m o) (drawn : ∀ a, Drawn (out (g a)) (o a)) :
    Keeps held (g <$> m) out := by
  rw [map_eq_pure_bind]
  exact .seq keeps fun a => .pure (drawn a)

theorem Keeps.failure : Keeps held (failure : Reading β) out := fun _ _ _ _ _ read => nomatch read

theorem From.of {c : Cursor} (keeps : Keeps held m o) : From held m o c := keeps c

theorem From.orElse {c : Cursor} (first : From held m o c) (second : From held n o c) : From held (m <|> n) o c := by
  intro lo apart a d read
  rw [orElse_apply, Option.or_eq_some_iff] at read
  rcases read with taken | ⟨_, taken⟩
  · exact first lo apart a d taken
  · exact second lo apart a d taken

theorem Keeps.orElse (first : Keeps held m o) (second : Keeps held n o) : Keeps held (m <|> n) o :=
  fun c => (first c).orElse (second c)

theorem From.ite {c : Cursor} {p : Prop} [Decidable p] (yes : From held m o c) (no : From held n o c) :
    From held (if p then m else n) o c := by
  split
  · exact yes
  · exact no

theorem Keeps.ite {p : Prop} [Decidable p] (yes : Keeps held m o) (no : Keeps held n o) :
    Keeps held (if p then m else n) o := fun c => (yes c).ite (no c)

theorem Keeps.blank {t : Tree} (blank : t.IsBlank) (keeps : Keeps (held ++ [t]) m o) : Keeps held m o := by
  intro c lo apart a d read
  exact keeps c lo (apart.append (.blank blank (le_refl _))) a d read

theorem Keeps.blanks {ts : List Tree} (blank : ∀ t ∈ ts, t.IsBlank) (keeps : Keeps (held ++ ts) m o) : Keeps held m o := by
  induction ts generalizing held with
  | nil => rwa [List.append_nil] at keeps
  | cons t rest ih =>
    obtain ⟨first, others⟩ := List.forall_mem_cons.mp blank
    refine .blank first (ih others ?_)
    rwa [List.append_assoc]

theorem Keeps.optional {p : Prop} [Decidable p] {tree : Reading Tree} {next : List Tree → Reading β}
    (reads : ReadsTree tree) (keeps : ∀ ts, Keeps (held ++ ts) (next ts) out) : Keeps held
      (if p then do
        let t ← tree
        let ts ← Pure.pure [t]
        next ts
      else do
        let ts ← Pure.pure []
        next ts) out := by
  split
  · exact .bind reads fun t => keeps [t]
  · exact (List.append_nil held ▸ keeps [] : Keeps held (next []) out)

theorem Keeps.optionalElse {p : Prop} [Decidable p] {tree : Reading Tree} {next : List Tree → Reading β}
    (reads : ReadsTree tree) (keeps : ∀ ts, Keeps (held ++ ts) (next ts) out) : Keeps held
      (if p then do
        let ts ← Pure.pure []
        next ts
      else do
        let t ← tree
        let ts ← Pure.pure [t]
        next ts) out := by
  split
  · exact (List.append_nil held ▸ keeps [] : Keeps held (next []) out)
  · exact .bind reads fun t => keeps [t]

theorem Keeps.peek {f : Token → Reading β} (next : ∀ c : Cursor, From held (f c.token) out c) :
    Keeps held (peek >>= f) out := next

theorem From.take {c : Cursor} {f : PUnit → Reading β} (next : Keeps held (f ⟨⟩) out) :
    From held (take c.token >>= f) out c := by
  intro lo apart b d read
  rw [bind_some (take_token c)] at read
  exact next _ lo (apart.later c.location_le_next) b d read

theorem Keeps.cursor {f : Cursor → Reading β} (next : ∀ c : Cursor, From held (f c) out c) :
    Keeps held (cursor >>= f) out := next

theorem From.set {c further : Cursor} {f : PUnit → Reading β} (ordered : c.location ≤ further.location)
    (next : Keeps held (f ⟨⟩) out) : From held (set further >>= f) out c := by
  intro lo apart b d read
  rw [bind_some (set_apply further c)] at read
  exact next _ lo (apart.later ordered) b d read

theorem From.stay {c : Cursor} (stays : Stays m) (next : ∀ a, From held (f a) out c) : From held (m >>= f) out c := by
  intro lo apart b d read
  obtain ⟨a, later, taken, rest⟩ := bind_inv read
  obtain rfl := stays c a later taken
  exact next a lo apart b d rest

theorem tree_apart {lo : Location} {start stop : Cursor} {kind : Kind} {children : List Tree} (plain : kind.isPlain = true)
    (apart : Apart lo stop.location held) (drawn : Drawn children held) :
    Apart lo stop.location [start.tree kind children stop] := by
  refine Apart.tree ?_ (Cursor.tree_isPlain start stop children plain)
  rw [Cursor.tree_children]
  exact apart.drawn drawn

theorem Keeps.close {start : Cursor} {kind : Kind} {children : List Tree} (plain : kind.isPlain = true)
    (drawn : Drawn children held) : Keeps held (close start kind children) fun t => [t] := by
  intro c lo apart t d read
  cases read
  exact tree_apart plain apart drawn

theorem From.within {c : Cursor} {kind : Kind} {inner : Reading (List Tree)} (plain : kind.isPlain = true)
    (from_ : From held inner id c) : From held (within kind inner) (fun t => [t]) c :=
  From.stay stays_here fun _ => fun lo apart t d read => by
    obtain ⟨children, later, taken, rest⟩ := bind_inv read
    cases rest
    exact tree_apart plain (from_ lo apart children d taken) (.of_eq rfl)

theorem Keeps.within {kind : Kind} {inner : Reading (List Tree)} (plain : kind.isPlain = true)
    (keeps : Keeps held inner id) : Keeps held (within kind inner) fun t => [t] := fun c => From.within plain (keeps c)

theorem readsTree_leaf {kind : Kind} (plain : kind.isPlain = true) : ReadsTree (leaf kind) :=
  .peek fun _ => .take (.close plain (.of_eq rfl))

theorem readsTree_missing (label : String) : ReadsTree (missing label) :=
  .look stays_cursor fun _ => .close rfl (.of_eq rfl)

theorem readsTree_stray : ReadsTree stray := readsTree_leaf rfl

theorem readsTrees_listIf {condition : Bool} {inner : Reading Tree} (tree : ReadsTree inner) :
    ReadsTrees (listIf condition inner) :=
  .ite (.bind tree fun _ => .pure (.of_eq rfl)) (.pure (.of_eq rfl))

theorem keeps_maybe {inner : Reading Tree} (tree : ReadsTree inner) : Keeps [] (maybe inner) Option.toList :=
  .orElse (.map tree fun _ => .of_eq rfl) (.pure (.of_eq rfl))

end Keeping

section Rounds

variable {o : α → List Tree}

theorem keeps_repeated {inner : Reading (Option α)} (round : Keeps [] inner fun item => item.elim [] o) (fuel : Nat) :
    Keeps [] (repeated inner fuel) fun items => items.flatMap o := by
  induction fuel with
  | zero => exact .pure (.of_eq rfl)
  | succ fuel ih =>
    refine .bind round fun item => ?_
    cases item with
    | none => exact .pure (.of_eq rfl)
    | some item => exact .bind ih fun items => .pure (.of_eq rfl)

theorem keeps_many {inner : Reading (Option α)} (round : Keeps [] inner fun item => item.elim [] o) :
    Keeps [] (many inner) fun items => items.flatMap o := .look stays_cursor fun _ => keeps_repeated round _

theorem moves_many {inner : Reading (Option α)} (round : Moves inner) : Moves (many inner) := by
  refine stays_cursor.moves.bind fun c => ?_
  generalize c.rest.length + 1 = fuel
  induction fuel with
  | zero => exact (stays_pure _).moves
  | succ fuel ih =>
    refine round.bind fun item => ?_
    cases item with
    | none => exact (stays_pure _).moves
    | some item => exact ih.bind fun _ => (stays_pure _).moves

theorem readsTrees_many {inner : Reading (Option Tree)} (round : Keeps [] inner Option.toList) : ReadsTrees (many inner) := by
  have single : Keeps [] inner fun item => item.elim [] fun t => [t] :=
    round.weaken fun item => .of_eq (by cases item <;> rfl)
  exact (keeps_many single).weaken fun items => .of_eq (by simp)

theorem readsTrees_until {test : Reading Bool} {inner : Reading Tree} (moves : Moves test) (tree : ReadsTree inner) :
    ReadsTrees (many (do if ← test then return none else return some (← inner))) :=
  readsTrees_many <| .skip moves fun _ => .ite (.pure (.of_eq rfl)) (.bind tree fun _ => .pure (.of_eq rfl))

theorem readsTrees_while {test : Reading Bool} {inner : Reading Tree} (moves : Moves test) (tree : ReadsTree inner) :
    ReadsTrees (many (do if ← test then return some (← inner) else return none)) :=
  readsTrees_many <| .skip moves fun _ => .ite (.bind tree fun _ => .pure (.of_eq rfl)) (.pure (.of_eq rfl))

abbrev Grows (item : Tree) (step : Reading (Option Tree)) : Prop := Keeps [item] step fun larger => [larger.getD item]

theorem keeps_grow {step : Tree → Reading (Option Tree)} (grows : ∀ item, Grows item (step item)) (item : Tree) :
    Keeps [item] (grow item step) fun t => [t] := by
  refine .look stays_cursor fun c => ?_
  generalize c.rest.length + 1 = fuel
  induction fuel generalizing item with
  | zero => exact .pure (.of_eq rfl)
  | succ fuel ih =>
    refine .seq (grows item) fun larger => ?_
    cases larger with
    | none => exact .pure (.of_eq rfl)
    | some larger => exact ih larger

theorem readsTrees_listUpTo {closing separator : String} {item : Reading Tree} (tree : ReadsTree item) :
    ReadsTrees (listUpTo closing separator item) := by
  have round : Keeps [] (listRound closing separator item) fun group => group.elim [] id := by
    refine .look (stays_atSign _) fun _ => .ite (.pure (.of_eq rfl)) ?_
    refine .skip (moves_acceptSign _) fun _ => .ite (.pure (.of_eq rfl)) ?_
    exact .bind tree fun t => .look (stays_atSign _) fun _ => .look (stays_atSign _) fun _ =>
      .look (stays_check _) fun _ => .pure (.of_eq rfl)
  rw [listUpTo_eq]
  exact .bind (keeps_many round) fun groups => .skip (moves_sign _) fun _ => .pure (.of_eq (by simp [List.flatMap]))

end Rounds

section Tokens

variable {c stop : Cursor} {kind : Kind} {children : List Tree}

theorem named_token (plain : kind.isPlain = true) (apart : Apart c.token.next.location stop.location children)
    (front : c.token.start.location < c.token.next.location) :
    (c.token.start.tree kind children stop).Named c.location stop.location := by
  have spots : (c.token.start.tree kind children stop).spots = children.flatMap Tree.spots := by
    rw [Tree.spots_eq, Tree.ownSpots_of_isPlain (Cursor.tree_isPlain _ _ _ plain), Cursor.tree_children]
    rfl
  refine ⟨tree_apart plain (apart.earlier c.location_le_next) (.of_eq rfl), ?_, ?_, ?_⟩
  · rw [Cursor.tree_location]
    exact c.location_le_start
  · rw [Cursor.tree_location]
    exact lt_of_lt_of_le front apart.ordered
  · rw [spots, Cursor.tree_location]
    exact fun s listed _ => lt_of_lt_of_le front (apart.inside s listed).1

theorem named_shape (shape : kind.isShape = true) (apart : Apart c.token.next.location stop.location children)
    (front : c.token.start.location < c.token.next.location) :
    (c.token.start.tree kind children stop).Named c.location stop.location := by
  have other : kind.isName = false := by
    rcases List.mem_pair.mp (of_decide_eq_true shape) with rfl | rfl <;> rfl
  have shape : (c.token.start.tree kind children stop).kind.isShape = true := by
    rwa [(Cursor.tree_parts c.token.start stop kind children other).1]
  have place := Cursor.tree_location c.token.start stop kind children
  have inner : Apart c.token.next.location stop.location (c.token.start.tree kind children stop).children := by
    rwa [Cursor.tree_children]
  have own := Tree.ownSpots_of_isShape shape
  refine ⟨inner.spot (Tree.isFormed_of_isShape shape) own ?_ ?_, ?_, ?_, ?_⟩
  · exact place ▸ c.location_le_start
  · exact place ▸ front
  · exact place ▸ c.location_le_start
  · exact place ▸ lt_of_lt_of_le front apart.ordered
  · rw [Tree.spots_eq, own, List.forall_mem_append, place]
    refine ⟨?_, fun s listed _ => lt_of_lt_of_le front (inner.inside s listed).1⟩
    exact List.forall_mem_singleton.mpr fun isName => nomatch isName

end Tokens

def NamesFrom (m : Reading Tree) (c : Cursor) : Prop := ∀ t d, m c = some (t, d) → t.Named c.location d.location

def ReadsName (m : Reading Tree) : Prop := ∀ c, NamesFrom m c

theorem ReadsName.readsTree {m : Reading Tree} (named : ReadsName m) : ReadsTree m := by
  intro c lo apart t d read
  exact apart.append (named c t d read).apart

theorem ReadsName.peek {f : Token → Reading Tree} (next : ∀ c : Cursor, NamesFrom (f c.token) c) :
    ReadsName (peek >>= f) := next

theorem sign_inv {s : String} (read : sign s c = some (u, d)) : c.token.text = s ∧ d = c.token.next := by
  rw [sign_apply] at read
  split at read
  · rename_i at_
    cases read
    exact ⟨eq_of_beq (Bool.and_eq_true_iff.mp at_).2, rfl⟩
  · cases read

theorem readsName_shape {kind : Kind} {s : String} {inner : Reading (List Tree)} (shape : kind.isShape = true) (more : s ≠ "")
    (trees : ReadsTrees inner) : ReadsName (within kind (do sign s; inner)) := by
  intro c t d read
  rw [within, bind_some (here_apply c)] at read
  obtain ⟨children, later, taken, rest⟩ := bind_inv read
  obtain ⟨_, next, signed, taken⟩ := bind_inv taken
  obtain ⟨text, rfl⟩ := sign_inv signed
  cases rest
  exact named_shape shape (trees _ _ (.nil (le_refl _)) _ _ taken) (Cursor.start_lt_next (by rwa [text]))

theorem namesFrom_leaf {c : Cursor} {kind : Kind} (plain : kind.isPlain = true)
    (named : c.token.shape ∈ [TokenShape.name, .quote, .number, .privateName]) : NamesFrom (leaf kind) c := by
  intro t d read
  cases read
  exact named_token plain (.nil (le_refl _)) (Cursor.start_lt_next_of_shape named)

section Chains

variable {lo mid : Location} {start stop : Cursor} {left named list : Tree} {between : List Tree}

theorem filter_plain (plain : ∀ t ∈ between, t.role = .plain) {role : Role} (other : role ≠ .plain) :
    between.filter (·.role == role) = [] := by
  refine List.filter_eq_nil_iff.mpr fun t listed => ?_
  simpa [plain t listed] using other.symm

theorem member_apart (plain : ∀ t ∈ between, t.role = .plain) (apart : Apart lo mid (left :: between))
    (name : named.Named mid stop.location) : Apart lo stop.location
      [start.tree .member (left.withRole .object :: (between ++ [named.withRole .property])) stop] := by
  obtain ⟨kind, _, children⟩ := Cursor.tree_parts start stop .member
    (left.withRole .object :: (between ++ [named.withRole .property])) rfl
  have property : (start.tree .member (left.withRole .object :: (between ++ [named.withRole .property])) stop).child?
      .property = some (named.withRole .property) := by
    have none : between.find? (·.role == .property) = none := by
      rw [← List.head?_filter, filter_plain plain (by decide)]
      rfl
    rw [Tree.child?, children, List.find?_cons_of_neg (by simp), List.find?_append, none]
    simp
  refine apart.member name ?_ ?_ ?_
  · unfold Tree.isFormed
    rw [kind]
    dsimp only
    rw [property, children]
    simp [filter_plain plain (show Role.object ≠ .plain by decide)]
  · unfold Tree.ownSpots
    rw [kind]
    dsimp only
    rw [property]
    rfl
  · rw [children]
    exact .of_eq (by simp)

theorem grows_member {m : Reading Tree} (name : ReadsName m) : Grows left (do
    let name ← m
    return some (← close start .member [left.withRole .object, name.withRole .property])) := by
  intro c lo apart larger d read
  obtain ⟨named, later, taken, rest⟩ := bind_inv read
  cases rest
  have plain : ∀ t ∈ ([] : List Tree), t.role = .plain := nofun
  exact member_apart plain apart (name _ _ _ taken)

theorem call_apart (plain : ∀ t ∈ between, t.role = .plain) (other : list.kind ≠ .call ∧ list.kind.isWrapper = false)
    (apart : Apart lo stop.location (left :: (between ++ [list]))) : Apart lo stop.location
      [start.tree .call (left.withRole .function :: (between ++ [list.withRole .arguments])) stop] := by
  obtain ⟨kind, _, children⟩ := Cursor.tree_parts start stop .call
    (left.withRole .function :: (between ++ [list.withRole .arguments])) rfl
  refine Apart.formedTree ?_ ?_ ?_
  · rw [children]
    exact apart.drawn (.of_eq (by simp))
  · unfold Tree.isFormed
    rw [kind]
    dsimp only
    rw [children]
    have functions := filter_plain plain (show Role.function ≠ .plain by decide)
    have lists : ∀ t ∈ between, ¬ t.role = .arguments := fun t listed same => by
      rw [plain t listed] at same
      cases same
    simp [functions, other]
    exact fun t listed => .inl (lists t listed)
  · unfold Tree.ownSpots
    rw [kind]

end Chains

end Reading
end Script
end SchemaAtlas
