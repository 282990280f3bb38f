import SchemaAtlas.Proofs.SpotReading

namespace SchemaAtlas
namespace Script
namespace Reading

open Grammar

-- Literals, names, patterns and parameters.

theorem readsTree_chars {kind : Kind} (plain : kind.isPlain = true) (count : Nat) : ReadsTree (chars kind count) := by
  intro c lo apart t d read
  rw [chars, bind_some (cursor_apply c)] at read
  obtain ⟨_, _, checked, rest⟩ := bind_inv read
  obtain rfl := stays_check _ _ _ _ checked
  cases rest
  exact tree_apart plain (apart.later (Cursor.location_le_advance _ count)) (.of_eq rfl)

theorem keeps_stringPiece (quote : Char) : Keeps [] (stringPiece quote) Option.toList := by
  refine .look stays_cursor fun c => ?_
  split
  · exact .failure
  · refine .ite (.pure (.of_eq rfl)) (.ite ?_ ?_)
    · exact .bind (readsTree_chars rfl _) fun _ => .pure (.of_eq rfl)
    · exact .bind (readsTree_chars rfl _) fun _ => .pure (.of_eq rfl)

theorem readsName_string : ReadsName string := by
  refine .peek fun c t d read => ?_
  obtain ⟨_, _, checked, rest⟩ := bind_inv read
  obtain ⟨quote, rfl⟩ := check_inv checked
  rw [bind_some (take_token _)] at rest
  obtain ⟨pieces, later, taken, rest⟩ := bind_inv rest
  cases rest
  have apart := readsTrees_many (keeps_stringPiece _) _ _ (.nil (le_refl _)) _ _ taken
  have shape := eq_of_beq quote
  exact named_token rfl (apart.later (Cursor.location_le_advance later 1)) (Cursor.start_lt_next_of_shape (by simp [shape]))

theorem keeps_templatePiece {substitution : Reading Tree} (tree : ReadsTree substitution) :
    Keeps [] (templatePiece substitution) Option.toList := by
  refine .cursor fun c => ?_
  split
  · exact .of (.pure (.of_eq rfl))
  · refine .set (c.location_le_advance 2) (.bind tree fun inner => .skip (moves_sign _) fun _ => ?_)
    exact .seq (.close rfl (.of_eq rfl)) fun _ => .pure (.of_eq rfl)
  · exact .of (.bind (readsTree_chars rfl _) fun _ => .pure (.of_eq rfl))
  · exact .of (.bind (readsTree_chars rfl _) fun _ => .pure (.of_eq rfl))

theorem readsTree_template {substitution : Reading Tree} (tree : ReadsTree substitution) :
    ReadsTree (template substitution) :=
  .peek fun _ => .stay (stays_check _) fun _ => .take <| .bind (readsTrees_many (keeps_templatePiece tree)) fun _ =>
    .cursor fun c => .set (c.location_le_advance 1) (.close rfl (.of_eq rfl))

theorem readsTree_regex : ReadsTree regex :=
  .peek fun c => .stay (stays_check _) fun _ =>
    .set (le_trans c.location_le_start (Cursor.location_le_advance _ 1)) <| .look stays_cursor fun _ =>
    .bind (readsTree_chars rfl _) fun _ => .look stays_cursor fun _ => .look (stays_check _) fun _ =>
    .cursor fun c => .set (c.location_le_advance 1) <| .look stays_cursor fun _ =>
    .bind (readsTrees_listIf (readsTree_chars rfl _)) fun _ => .close rfl (.of_eq rfl)

theorem readsTree_number : ReadsTree number := .look stays_peek fun _ => .look (stays_check _) fun _ => readsTree_leaf rfl

theorem readsTree_identifier : ReadsTree identifier :=
  .look stays_peek fun _ => .look (stays_check _) fun _ => readsTree_leaf rfl

theorem readsTree_anyName {kind : Kind} (plain : kind.isPlain = true) : ReadsTree (anyName kind) :=
  .look stays_peek fun _ => .look (stays_check _) fun _ => readsTree_leaf plain

theorem moves_leaf (kind : Kind) : Moves (leaf kind) := by
  intro c t d read
  cases read
  exact c.location_le_next

theorem moves_anyName (kind : Kind) : Moves (anyName kind) :=
  stays_peek.moves.bind fun _ => (stays_check _).moves.bind fun _ => moves_leaf kind

theorem readsName_propertyName {expression : Reading Tree} (tree : ReadsTree expression) :
    ReadsName (propertyName expression) := by
  refine .peek fun c => ?_
  split
  · rename_i shape
    exact namesFrom_leaf rfl (by simp [shape])
  · exact readsName_string c
  · rename_i shape
    exact namesFrom_leaf rfl (by simp [shape])
  · rename_i shape
    exact namesFrom_leaf rfl (by simp [shape])
  · have inner : ReadsTrees (do
        let inner ← expression
        sign "]"
        return [inner]) := .bind tree fun _ => .skip (moves_sign _) fun _ => .pure (.of_eq rfl)
    exact readsName_shape rfl (by decide) inner c

theorem readsTree_propertyName {expression : Reading Tree} (tree : ReadsTree expression) :
    ReadsTree (propertyName expression) := (readsName_propertyName tree).readsTree

-- Rules that refer to one another, all of which read a tree.
structure ReadTrees (r : Rules) : Prop where
  expression : ReadsTree r.expression
  unary : ReadsTree r.unary
  primary : ReadsTree r.primary
  pattern : ReadsTree r.pattern
  type : ReadsTree r.type
  statement : ReadsTree r.statement

theorem readsTree_thisLeaf : ReadsTree thisLeaf :=
  .look (stays_atWord _) fun _ => .look (stays_check _) fun _ => readsTree_leaf rfl

variable {r : Rules} (reads : ReadTrees r)

include reads

theorem readsTree_defaulted {kind : Kind} {pattern : Reading Tree} (plain : kind.isPlain = true) (tree : ReadsTree pattern) :
    ReadsTree (defaulted r kind pattern) :=
  .look stays_here fun _ => .bind tree fun _ => .skip (moves_acceptSign _) fun _ =>
    .ite (.bind reads.expression fun _ => .close plain (.of_eq rfl)) (.pure (.of_eq rfl))

theorem readsTree_memberTarget : ReadsTree (memberTarget r) := by
  refine .look stays_here fun _ => .bind (.orElse readsTree_identifier readsTree_thisLeaf) fun base => ?_
  refine .look (stays_atSign _) fun _ => .look (stays_atSign _) fun _ => .look (stays_check _) fun _ => ?_
  refine keeps_grow (fun left => .skip (moves_acceptSign _) fun _ => .ite ?_ ?_) base
  · exact grows_member (readsName_propertyName reads.expression)
  · refine .skip (moves_acceptSign _) fun _ => .ite ?_ (.pure (.of_eq rfl))
    exact .bind reads.expression fun _ => .skip (moves_sign _) fun _ =>
      .seq (.close rfl (.of_eq rfl)) fun _ => .pure (.of_eq rfl)

theorem readsTree_target : ReadsTree (target r) := .orElse (readsTree_memberTarget reads) reads.pattern

theorem readsTree_restPattern : ReadsTree (restPattern r) :=
  .within rfl <| .skip (moves_sign _) fun _ => .bind (readsTree_target reads) fun _ => .pure (.of_eq rfl)

theorem readsTree_pairPattern : ReadsTree (pairPattern r) :=
  .within rfl <| .bind (readsTree_propertyName reads.expression) fun _ => .skip (moves_sign _) fun _ =>
    .bind (readsTree_defaulted reads rfl (readsTree_target reads)) fun _ => .pure (.of_eq rfl)

theorem readsTree_shorthandPattern : ReadsTree (shorthandPattern r) :=
  readsTree_defaulted reads rfl (readsTree_anyName rfl)

theorem readsTree_objectPattern : ReadsTree (objectPattern r) :=
  .within rfl <| .skip (moves_sign _) fun _ => readsTrees_listUpTo <|
    .orElse (readsTree_restPattern reads) (.orElse (readsTree_pairPattern reads) (readsTree_shorthandPattern reads))

theorem readsTree_arrayPattern : ReadsTree (arrayPattern r) :=
  .within rfl <| .skip (moves_sign _) fun _ => readsTrees_listUpTo <|
    .orElse (readsTree_restPattern reads) (readsTree_defaulted reads rfl (readsTree_target reads))

theorem readsTree_pattern : ReadsTree (pattern r) :=
  .orElse readsTree_identifier (.orElse (readsTree_objectPattern reads) (readsTree_arrayPattern reads))

theorem readsTree_ascription : ReadsTree (ascription r) :=
  .within rfl <| .skip (moves_sign _) fun _ => .bind reads.type fun _ => .pure (.of_eq rfl)

theorem readsTrees_optionalAscription : ReadsTrees (optionalAscription r) :=
  .look (stays_atSign _) fun _ => readsTrees_listIf (readsTree_ascription reads)

theorem readsTrees_initializer : ReadsTrees (initializer r) :=
  .skip (moves_acceptSign _) fun _ => .ite (.bind reads.expression fun _ => .pure (.of_eq rfl)) (.pure (.of_eq rfl))

omit reads in
theorem moves_modifiers (words : List String) (follows : Token → Bool) : Moves (modifiers words follows) := by
  refine (moves_many fun c item d read => ?_).bind fun _ => (stays_pure _).moves
  rw [bind_some (peek_apply c)] at read
  split at read
  all_goals cases read
  · exact c.location_le_next
  · exact le_refl _

theorem readsTrees_decorators : ReadsTrees (decorators r) := by
  refine readsTrees_while (stays_atSign _).moves (.within rfl ?_)
  exact .skip (moves_sign _) fun _ => .bind reads.unary fun _ => .pure (.of_eq rfl)

theorem readsTree_parameter : ReadsTree (parameter r) := by
  refine .look stays_here fun _ => .bind (readsTrees_decorators reads) fun _ => .skip (moves_modifiers _ _) fun _ => ?_
  refine .bind (.orElse readsTree_thisLeaf (.orElse (readsTree_restPattern reads) reads.pattern)) fun _ => ?_
  refine .skip (moves_acceptSign _) fun mayLack => .bind (readsTrees_optionalAscription reads) fun _ => ?_
  refine .bind (readsTrees_initializer reads) fun _ => .close ?_ (.of_eq (by simp))
  cases mayLack <;> rfl

theorem readsTree_formalParameters : ReadsTree (formalParameters r) :=
  .within rfl <| .skip (moves_sign _) fun _ => readsTrees_listUpTo (readsTree_parameter reads)

end Reading
end Script
end SchemaAtlas
