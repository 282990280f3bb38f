import SchemaAtlas.Proofs.SpotStatements

namespace SchemaAtlas
namespace Script
namespace Reading

open Grammar

theorem readsTree_exportedName : ReadsTree exportedName := .orElse readsName_string.readsTree (readsTree_anyName rfl)

theorem readsTrees_typed {inner : Reading (List Tree)} (trees : ReadsTrees inner) : ReadsTrees (do
    check ((← acceptWord "type") || (← acceptWord "typeof"))
    inner) :=
  .skip (moves_acceptWord _) fun _ => .skip (moves_acceptWord _) fun _ => .look (stays_check _) fun _ => trees

theorem readsTree_specifier {kind : Kind} (plain : kind.isPlain = true) : ReadsTree (specifier kind) := by
  have renamed : ReadsTrees (do
      let name ← exportedName
      word "as"
      let given ← exportedName
      check ((← atSign ",") || (← atSign "\x7d"))
      return [name.withRole .name, given.withRole .alias]) :=
    .bind readsTree_exportedName fun _ => .skip (moves_word _) fun _ => .bind readsTree_exportedName fun _ =>
      .look (stays_atSign _) fun _ => .look (stays_atSign _) fun _ => .look (stays_check _) fun _ =>
      .pure (.of_eq rfl)
  have single : ReadsTrees (do
      let name ← exportedName
      check ((← atSign ",") || (← atSign "\x7d"))
      return [name.withRole .name]) :=
    .bind readsTree_exportedName fun _ => .look (stays_atSign _) fun _ => .look (stays_atSign _) fun _ =>
      .look (stays_check _) fun _ => .pure (.of_eq rfl)
  exact .within plain (.orElse single (.orElse renamed (.orElse (readsTrees_typed single) (readsTrees_typed renamed))))

theorem readsTree_namedList {kind item : Kind} (plain : kind.isPlain = true) (plainItem : item.isPlain = true) :
    ReadsTree (namedList kind item) :=
  .within plain <| .skip (moves_sign _) fun _ => readsTrees_listUpTo (readsTree_specifier plainItem)

theorem readsTree_namespaceImport : ReadsTree namespaceImport :=
  .within rfl <| .skip (moves_sign _) fun _ => .skip (moves_word _) fun _ => .bind (readsTree_anyName rfl) fun _ =>
    .pure (.of_eq rfl)

theorem readsTree_importClause : ReadsTree importClause := by
  have groups : ReadsTree (namespaceImport <|> namedList .namedImports .importSpecifier) :=
    .orElse readsTree_namespaceImport (readsTree_namedList rfl rfl)
  refine .within rfl <| .look (stays_atSign _) fun _ => .look (stays_atSign _) fun _ => .ite ?_ ?_
  · exact .bind groups fun _ => .pure (.of_eq rfl)
  · refine .bind (readsTree_anyName rfl) fun _ => .skip (moves_acceptSign _) fun _ => .ite ?_ (.pure (.of_eq rfl))
    exact .bind groups fun _ => .pure (.of_eq rfl)

theorem readsTree_fromClause : ReadsTree fromClause :=
  .skip (moves_word _) fun _ => .bind readsName_string.readsTree fun _ => .pure (.of_eq rfl)

theorem readsTree_requireClause : ReadsTree requireClause :=
  readsTree_other <| .bind (readsTree_anyName rfl) fun _ => .skip (moves_sign _) fun _ => .skip (moves_word _) fun _ =>
    .skip (moves_sign _) fun _ => .bind readsName_string.readsTree fun _ => .skip (moves_sign _) fun _ => .pure (.of_eq rfl)

theorem readsTree_importAlias : ReadsTree importAlias :=
  readsTree_other <| .skip (moves_word _) fun _ => .bind (readsTree_anyName rfl) fun _ => .skip (moves_sign _) fun _ =>
    .bind readsTree_dottedName fun _ => .skip moves_statementEnd fun _ => .pure (.of_eq rfl)

section Families

variable {r : Rules} (reads : ReadTrees r)

include reads

theorem readsTrees_importAttributes : ReadsTrees (importAttributes r) :=
  .skip (moves_acceptWord _) fun _ => .skip (moves_acceptWord _) fun _ =>
    .ite (.bind (readsTree_object reads) fun _ => .pure (.of_eq rfl)) (.pure (.of_eq rfl))

theorem readsTree_importStatement : ReadsTree (importStatement r) := by
  have clause : ReadsTrees (do
      let clause ← importClause
      return [clause, ← fromClause]) :=
    .bind readsTree_importClause fun _ => .bind readsTree_fromClause fun _ => .pure (.of_eq rfl)
  have bare : ReadsTrees (do return [(← string).withRole .source]) :=
    .bind readsName_string.readsTree fun _ => .pure (.of_eq rfl)
  have required : ReadsTrees (do return [← requireClause]) := .bind readsTree_requireClause fun _ => .pure (.of_eq rfl)
  have parts := Keeps.orElse bare (.orElse clause (.orElse required (.orElse (readsTrees_typed clause) (readsTrees_typed required))))
  exact .within rfl <| .skip (moves_word _) fun _ => .bind parts fun _ => .bind (readsTrees_importAttributes reads) fun _ =>
    .skip moves_statementEnd fun _ => .pure (.of_eq rfl)

theorem readsTree_exportStatement : ReadsTree (exportStatement r) := by
  have ended {inner : Reading (List Tree)} (trees : ReadsTrees inner) : ReadsTrees (do
      let parts ← inner
      statementEnd
      return parts) := .bind trees fun _ => .skip moves_statementEnd fun _ => .pure (.of_eq rfl)
  have star : ReadsTrees (do
      let _ ← acceptWord "type"
      sign "*"
      let named ← if ← acceptWord "as" then pure [← exportedName] else pure []
      let source ← fromClause
      return named ++ source :: (← importAttributes r)) :=
    .skip (moves_acceptWord _) fun _ => .skip (moves_sign _) fun _ => .skip (moves_acceptWord _) fun _ =>
      .optional readsTree_exportedName fun _ => .bind readsTree_fromClause fun _ =>
      .bind (readsTrees_importAttributes reads) fun _ => .pure (.of_eq (by simp))
  have listed : ReadsTrees (do
      let _ ← acceptWord "type"
      let names ← namedList (.other "export_clause") (.other "export_specifier")
      let source ← listIf (← atWord "from") fromClause
      return names :: source ++ (← importAttributes r)) :=
    .skip (moves_acceptWord _) fun _ => .bind (readsTree_namedList rfl rfl) fun _ => .look (stays_atWord _) fun _ =>
      .bind (readsTrees_listIf readsTree_fromClause) fun _ => .bind (readsTrees_importAttributes reads) fun _ =>
      .pure (.of_eq (by simp))
  have assigned : ReadsTrees (do
      sign "="
      return [← r.expression]) := .skip (moves_sign _) fun _ => .bind reads.expression fun _ => .pure (.of_eq rfl)
  have asNamespace : ReadsTrees (do
      word "as"
      word "namespace"
      return [← anyName .identifier]) :=
    .skip (moves_word _) fun _ => .skip (moves_word _) fun _ => .bind (readsTree_anyName rfl) fun _ => .pure (.of_eq rfl)
  have standing : ReadsTrees (do return [(← interfaceDeclaration r <|> functionDeclaration r <|>
      classDeclaration r).withRole .declaration]) :=
    .bind (.orElse (readsTree_interfaceDeclaration reads) (.orElse (readsTree_functionDeclaration reads)
      (readsTree_classDeclaration reads))) fun _ => .pure (.of_eq rfl)
  have declared : ReadsTrees (do return [(← importAlias <|> ambient r <|> declaration r).withRole .declaration]) :=
    .bind (.orElse readsTree_importAlias (.orElse (readsTree_ambient reads) (readsTree_declaration reads))) fun _ =>
      .pure (.of_eq rfl)
  refine .within rfl <| .bind (readsTrees_decorators reads) fun _ => .skip (moves_word _) fun _ => ?_
  refine .bind (o := id) (.orElse (ended star) (.orElse (ended listed) (.orElse (ended assigned) (.orElse (ended asNamespace) ?_))))
    fun _ => .pure (.of_eq rfl)
  refine .orElse (.skip (moves_word _) fun _ => .orElse standing ?_) declared
  refine .bind (readsTrees_endedValue (readsTree_sequence reads)) fun trees => ?_
  cases trees with
  | nil => exact .failure
  | cons value strays => exact .pure (.of_eq rfl)

theorem readsTree_statement : ReadsTree (statement r) := by
  refine .look stays_peek fun t => ?_
  have plain := readsTree_plainStatement reads
  have declared := readsTree_declaration reads
  split
  · exact .orElse readsTree_importAlias (.orElse (readsTree_importStatement reads) plain)
  · exact readsTree_exportStatement reads
  · exact .orElse (readsTree_exportStatement reads) declared
  · exact .orElse (readsTree_ambient reads) plain
  iterate 9 exact .orElse declared plain
  iterate 4 exact declared
  · exact plain

end Families

theorem rules_read (levels : Nat) : ReadTrees (rules levels) := by
  induction levels with
  | zero => exact ⟨.failure, .failure, .failure, .failure, .failure, .failure⟩
  | succ levels ih =>
    have classes := readsTree_classExpression ih
    exact ⟨readsTree_expression ih, readsTree_unary ih classes, readsTree_primary ih classes, readsTree_pattern ih,
      readsTree_type ih, readsTree_statement ih⟩

theorem readsTrees_statements {r : Rules} (reads : ReadTrees r) : ReadsTrees (statements r) :=
  readsTrees_many <| .look stays_peek fun _ => .ite (.pure (.of_eq rfl)) <|
    .bind (.orElse reads.statement readsTree_stray) fun _ => .pure (.of_eq rfl)

end Reading

theorem parse_apart (text : String) : (parse text).Formed ∧ (parse text).spots.Nodup := by
  obtain ⟨lo, hi, apart⟩ : ∃ lo hi, Tree.Apart lo hi [parse text] := by
    unfold parse
    dsimp only
    split
    · rename_i children stop read
      exact ⟨_, _, Reading.tree_apart rfl (Reading.readsTrees_statements (Reading.rules_read _) _ _ (.nil (le_refl _)) _ _ read)
        (.of_eq rfl)⟩
    · exact ⟨.start, .start, .blank (Cursor.tree_leaf_isBlank _ _ rfl) (le_refl _)⟩
  exact ⟨apart.formed _ List.mem_cons_self, List.flatMap_singleton Tree.spots _ ▸ apart.once⟩

end Script
end SchemaAtlas
