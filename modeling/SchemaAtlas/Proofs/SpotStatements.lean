import SchemaAtlas.Proofs.SpotExpressions

namespace SchemaAtlas
namespace Script
namespace Reading

open Grammar
open SchemaAtlas.Script.Tree (Drawn)

-- Classes, declarations and statements.

theorem moves_statementEnd : Moves statementEnd :=
  (moves_acceptSign _).bind fun _ => .ite (stays_pure _).moves (stays_peek.moves.bind fun _ => (stays_check _).moves)

theorem readsTrees_strays : ReadsTrees (many (do if ← ahead statementEnd then return none else return some (← stray))) :=
  readsTrees_until (stays_ahead _).moves readsTree_stray

theorem readsTrees_endedValue {value : Reading Tree} (tree : ReadsTree value) : ReadsTrees (endedValue value) :=
  .bind tree fun _ => .bind readsTrees_strays fun _ => .skip moves_statementEnd fun _ => .pure (.of_eq rfl)

theorem readsTrees_className : ReadsTrees className := .look stays_peek fun _ => readsTrees_listIf (readsTree_anyName rfl)

theorem readsTree_dottedName : ReadsTree dottedName := by
  refine .look stays_here fun _ => .bind (readsTree_anyName rfl) fun first => keeps_grow (fun left => ?_) first
  refine .skip (moves_acceptSign _) fun _ => .ite (.bind (readsTree_anyName rfl) fun _ => ?_) (.pure (.of_eq rfl))
  exact .seq (.close rfl (.of_eq rfl)) fun _ => .pure (.of_eq rfl)

theorem readsTree_jumpStatement : ReadsTree jumpStatement :=
  readsTree_other <| .skip (moves_accept _) fun _ => .look (stays_check _) fun _ => .look stays_peek fun _ =>
    .bind (readsTrees_listIf (readsTree_leaf rfl)) fun _ => .skip moves_statementEnd fun _ => .pure (.of_eq rfl)

theorem readsTree_emptyStatement : ReadsTree emptyStatement :=
  readsTree_other <| .skip (moves_sign _) fun _ => .pure (.of_eq rfl)

variable {r : Rules} (reads : ReadTrees r)

include reads

theorem readsTree_staticBlock : ReadsTree (staticBlock r) :=
  readsTree_other <| .skip (moves_word _) fun _ => .bind (readsTree_block reads) fun _ => .pure (.of_eq rfl)

theorem readsTree_classMethod : ReadsTree (classMethod r) :=
  .look stays_here fun _ => .bind (readsTree_methodName reads) fun _ => .bind (readsTrees_callSignature reads) fun _ =>
    .look (stays_atSign _) fun _ => .ite (.bind (readsTree_block reads) fun _ => .close rfl (.of_eq (by simp)))
      (.close rfl (.of_eq (by simp)))

theorem readsTree_classField : ReadsTree (classField r) := by
  have rest : ReadsTrees (do
      let name ← propertyName r.expression
      let _ ← (acceptSign "?" <|> acceptSign "!")
      let _ ← acceptSign "!"
      let ascribed ← optionalAscription r
      let value ← initializer r
      check (← ahead statementEnd)
      return name.withRole .name :: ascribed ++ value) :=
    .bind (readsTree_propertyName reads.expression) fun _ => .skip (.orElse (moves_acceptSign _) (moves_acceptSign _)) fun _ =>
      .skip (moves_acceptSign _) fun _ => .bind (readsTrees_optionalAscription reads) fun _ =>
      .bind (readsTrees_initializer reads) fun _ => .look (stays_ahead _) fun _ => .look (stays_check _) fun _ =>
      .pure (.of_eq (by simp))
  exact readsTree_other (.orElse (.skip (moves_modifiers _ _) fun _ => rest) rest)

theorem readsTrees_classMember : ReadsTrees (classMember r) := by
  have method : ReadsTree (do check (← ahead (methodName r)); classMethod r) :=
    .look (stays_ahead _) fun _ => .look (stays_check _) fun _ => readsTree_classMethod reads
  have index : ReadsTree (do modifiers accessWords startsMember; indexMember r) :=
    .skip (moves_modifiers _ _) fun _ => readsTree_indexMember reads
  refine .bind (readsTrees_decorators reads) fun _ => .bind ?_ fun _ => .pure (.of_eq rfl)
  exact .orElse (readsTree_staticBlock reads) (.orElse method (.orElse index (readsTree_classField reads)))

theorem readsTree_classBody : ReadsTree (classBody r) := by
  refine .within rfl <| .skip (moves_sign _) fun _ => .bind (keeps_many (o := id) ?_) fun _ => ?_
  · refine .look (stays_atSign _) fun _ => .ite (.pure (.of_eq rfl)) ?_
    refine .skip (moves_acceptSign _) fun _ => .ite (.pure (.of_eq rfl)) ?_
    exact .bind (readsTrees_classMember reads) fun _ => .pure (.of_eq rfl)
  · exact .skip (moves_sign _) fun _ => .pure (.of_eq (by simp [List.flatMap]))

theorem readsTrees_classHeritage : ReadsTrees (classHeritage r) := by
  have rest (extended : List Tree) : Keeps extended (do
      let implemented ← if ← acceptWord "implements" then do
          let first ← r.type
          let others ← many (do if ← acceptSign "," then return some (← r.type) else return none)
          pure (first :: others)
        else pure []
      return extended ++ implemented) id := by
    refine .skip (moves_acceptWord _) fun _ => .ite (.bind reads.type fun _ => ?_) (.given (.pure (.of_eq (by simp))))
    exact .bind (readsTrees_while (moves_acceptSign _) reads.type) fun _ => .given (.pure (.of_eq (by simp)))
  refine .skip (moves_acceptWord _) fun _ => .ite (.bind reads.unary fun _ => ?_) (.given (rest []))
  exact .bind (readsTrees_optionalTypeArguments reads) fun _ => .given (.draw (rest _) (.of_eq rfl))

theorem readsTrees_classRest : ReadsTrees (classRest r) :=
  .bind readsTrees_className fun _ => .bind (readsTrees_optionalTypeParameters reads) fun _ =>
    .bind (readsTrees_classHeritage reads) fun _ => .bind (readsTree_classBody reads) fun _ => .pure (.of_eq (by simp))

theorem readsTree_classExpression : ReadsTree (classExpression r) :=
  readsTree_other <| .bind (readsTrees_decorators reads) fun _ => .skip (moves_word _) fun _ =>
    .bind (readsTrees_classRest reads) fun _ => .pure (.of_eq rfl)

theorem readsTree_classDeclaration : ReadsTree (classDeclaration r) := by
  refine .look stays_here fun _ => .bind (readsTrees_decorators reads) fun _ => .skip (moves_acceptWord _) fun isAbstract => ?_
  refine .skip (moves_word _) fun _ => .bind (readsTrees_classRest reads) fun _ => .close ?_ (.of_eq rfl)
  cases isAbstract <;> rfl

theorem readsTree_declarator : ReadsTree (declarator r) :=
  .within rfl <| .bind reads.pattern fun _ => .skip (moves_acceptSign _) fun _ =>
    .bind (readsTrees_optionalAscription reads) fun _ => .bind (readsTrees_initializer reads) fun _ => .pure (.of_eq (by simp))

theorem readsTrees_declarators : ReadsTrees (declarators r) :=
  .bind (readsTree_declarator reads) fun _ => .bind (readsTrees_while (moves_acceptSign _) (readsTree_declarator reads)) fun _ =>
    .pure (.of_eq rfl)

theorem keeps_bindings {f : Kind × List Tree → Reading β} {out : β → List Tree}
    (next : ∀ kind names, kind.isPlain = true → Keeps names (f (kind, names)) out) : Keeps [] (bindings r >>= f) out := by
  intro c lo apart b d read
  obtain ⟨⟨kind, names⟩, later, taken, rest⟩ := bind_inv read
  rw [bindings, bind_some (peek_apply c)] at taken
  obtain ⟨_, _, checked, taken⟩ := bind_inv taken
  obtain ⟨_, rfl⟩ := check_inv checked
  rw [bind_some (take_token _)] at taken
  obtain ⟨names, last, taken, same⟩ := bind_inv taken
  cases same
  refine next _ names ?_ _ lo ?_ b d rest
  · split <;> rfl
  · exact readsTrees_declarators reads _ _ (apart.later (Cursor.location_le_next _)) _ _ taken

theorem readsTree_bindingList : ReadsTree (bindingList r) :=
  .look stays_here fun _ => keeps_bindings reads fun _ _ plain => .bind readsTrees_strays fun _ =>
    .skip moves_statementEnd fun _ => .close plain (.of_eq rfl)

theorem readsTree_functionDeclaration : ReadsTree (functionDeclaration r) := by
  refine .look stays_here fun _ => .skip (moves_acceptWord _) fun _ => .skip (moves_word _) fun _ => ?_
  refine .skip (moves_acceptSign _) fun generator => .bind (readsTree_anyName rfl) fun _ => ?_
  refine .bind (readsTrees_callSignature reads) fun _ => .look (stays_atSign _) fun _ => .ite ?_ ?_
  · refine .bind (readsTree_block reads) fun _ => .close ?_ (.of_eq (by simp))
    cases generator <;> rfl
  · exact .skip moves_statementEnd fun _ => .close rfl (.of_eq (by simp))

theorem readsTree_enumMember : ReadsTree (enumMember r) :=
  .look stays_here fun _ => .bind (readsTree_propertyName reads.expression) fun name =>
    .bind (readsTrees_initializer reads) fun value => .ite (.pure (by simp [Drawn])) (.close rfl (.of_eq (by simp)))

theorem readsTree_enumDeclaration : ReadsTree (enumDeclaration r) := by
  refine .within rfl <| .skip (moves_acceptWord _) fun _ => .skip (moves_word _) fun _ => .bind (readsTree_anyName rfl) fun _ => ?_
  refine .bind (readsTree_other (.skip (moves_sign _) fun _ => ?_)) fun _ => .pure (.of_eq rfl)
  exact readsTrees_listUpTo (readsTree_enumMember reads)

theorem readsTree_interfaceDeclaration : ReadsTree (interfaceDeclaration r) := by
  have rest (held extended : List Tree) : Keeps (held ++ extended) (do
      let body ← objectType r
      return held ++ extended ++ [body.withRole .body]) id :=
    .bind (readsTree_objectType reads) fun _ => .pure (.of_eq (by simp))
  refine readsTree_other <| .skip (moves_word _) fun _ => .bind (readsTree_anyName rfl) fun name => ?_
  refine .bind (readsTrees_optionalTypeParameters reads) fun generics => .skip (moves_acceptWord _) fun _ => .ite ?_ ?_
  · refine .bind reads.type fun _ => .bind (readsTrees_while (moves_acceptSign _) reads.type) fun _ => .given ?_
    exact .draw (rest (name.withRole .name :: generics) _) (.of_eq (by simp))
  · exact .given (.draw (rest (name.withRole .name :: generics) []) (.of_eq (by simp)))

theorem readsTree_aliasDeclaration : ReadsTree (aliasDeclaration r) :=
  readsTree_other <| .skip (moves_word _) fun _ => .look stays_peek fun _ => .look (stays_check _) fun _ =>
    .bind (readsTree_anyName rfl) fun _ => .bind (readsTrees_optionalTypeParameters reads) fun _ => .skip (moves_sign _) fun _ =>
    .bind reads.type fun _ => .skip moves_statementEnd fun _ => .pure (.of_eq (by simp))

theorem readsTree_namespaceDeclaration : ReadsTree (namespaceDeclaration r) := by
  refine readsTree_other <| .skip (moves_accept _) fun _ => .look (stays_check _) fun _ => .look stays_peek fun _ => ?_
  refine .look (stays_check _) fun _ => .bind (.orElse readsName_string.readsTree readsTree_dottedName) fun _ => ?_
  refine .look (stays_atSign _) fun _ => .ite ?_ (.skip moves_statementEnd fun _ => .pure (.of_eq rfl))
  exact .bind (readsTree_block reads) fun _ => .pure (.of_eq rfl)

theorem readsTree_globalBlock : ReadsTree (globalBlock r) := .skip (moves_word _) fun _ => readsTree_block reads

theorem readsTree_declaration : ReadsTree (declaration r) := by
  refine .look stays_peek fun t => ?_
  have list := readsTree_bindingList reads
  have function := readsTree_functionDeclaration reads
  have declared := readsTree_classDeclaration reads
  have enum := readsTree_enumDeclaration reads
  dsimp only
  split
  · exact .ite enum list
  · exact list
  · exact .ite list .failure
  · exact function
  · exact .ite function .failure
  · exact declared
  · exact declared
  · exact .ite declared .failure
  · exact enum
  · exact readsTree_interfaceDeclaration reads
  · exact readsTree_aliasDeclaration reads
  · exact readsTree_namespaceDeclaration reads
  · exact readsTree_namespaceDeclaration reads
  · exact readsTree_globalBlock reads
  · exact .failure

theorem readsTree_ambient : ReadsTree (ambient r) :=
  readsTree_other <| .skip (moves_word _) fun _ => .look stays_peek fun _ => .look (stays_check _) fun _ =>
    .bind (readsTree_declaration reads) fun _ => .pure (.of_eq rfl)

theorem readsTree_condition : ReadsTree (condition r) :=
  .within rfl <| .skip (moves_sign _) fun _ => .bind (readsTree_sequence reads) fun _ => .skip (moves_sign _) fun _ =>
    .pure (.of_eq rfl)

theorem readsTree_ifStatement : ReadsTree (ifStatement r) :=
  readsTree_other <| .skip (moves_word _) fun _ => .bind (readsTree_condition reads) fun _ => .bind reads.statement fun _ =>
    .skip (moves_acceptWord _) fun _ => .optional reads.statement fun _ => .pure (.of_eq (by simp))

theorem readsTree_whileStatement : ReadsTree (whileStatement r) :=
  readsTree_other <| .skip (moves_acceptWord _) fun _ => .skip (moves_acceptWord _) fun _ => .look (stays_check _) fun _ =>
    .bind (readsTree_condition reads) fun _ => .bind reads.statement fun _ => .pure (.of_eq rfl)

theorem readsTree_doStatement : ReadsTree (doStatement r) :=
  readsTree_other <| .skip (moves_word _) fun _ => .bind reads.statement fun _ => .skip (moves_word _) fun _ =>
    .bind (readsTree_condition reads) fun _ => .skip (moves_acceptSign _) fun _ => .pure (.of_eq rfl)

theorem readsTree_loopTarget : ReadsTree (loopTarget r) := by
  refine .peek fun c => .seq (.orElse (.stay (stays_check _) fun _ => .take reads.pattern) (.of (.orElse ?_ reads.unary))) fun _ => ?_
  · exact .look stays_peek fun _ => .look (stays_check _) fun _ => reads.pattern
  · exact .look (stays_atWord _) fun _ => .look (stays_atWord _) fun _ => .look (stays_check _) fun _ =>
      .pure (.of_eq rfl)

theorem readsTree_loopOver : ReadsTree (loopOver r) :=
  .within rfl <| .skip (moves_word _) fun _ => .skip (moves_acceptWord _) fun _ => .skip (moves_sign _) fun _ =>
    .bind (readsTree_loopTarget reads) fun _ => .skip (moves_acceptWord _) fun _ => .skip (moves_acceptWord _) fun _ =>
    .look (stays_check _) fun _ => .bind (readsTree_sequence reads) fun _ => .skip (moves_sign _) fun _ =>
    .bind reads.statement fun _ => .pure (.of_eq rfl)

theorem readsTrees_loopStart : ReadsTrees (loopStart r) := by
  refine .skip (moves_acceptSign _) fun _ => .ite (.pure (.of_eq rfl)) (.look stays_here fun start => ?_)
  refine .bind (o := fun t => [t]) (.orElse ?_ ?_) fun _ => .pure (.of_eq rfl)
  · exact keeps_bindings reads fun _ _ plain => .skip (moves_sign _) fun _ => .close plain (.of_eq rfl)
  · exact .bind (readsTree_sequence reads) fun _ => .skip (moves_sign _) fun _ => .close rfl (.of_eq rfl)

theorem readsTree_loopCount : ReadsTree (loopCount r) :=
  .within rfl <| .skip (moves_word _) fun _ => .skip (moves_sign _) fun _ => .bind (readsTrees_loopStart reads) fun _ =>
    .look (stays_atSign _) fun _ => .bind (readsTrees_listIf (readsTree_sequence reads)) fun _ => .skip (moves_sign _) fun _ =>
    .look (stays_atSign _) fun _ => .bind (readsTrees_listIf (readsTree_sequence reads)) fun _ => .skip (moves_sign _) fun _ =>
    .bind reads.statement fun _ => .pure (.of_eq (by simp))

theorem readsTree_switchCase : ReadsTree (switchCase r) := by
  have rest (value : List Tree) : Keeps value (do
      sign ":"
      let body ← many (do
        if (← atSign "\x7d") || (← atWord "case") || (← atWord "default") then return none
        else return some (← r.statement))
      return value ++ body) id := by
    refine .skip (moves_sign _) fun _ => .bind (readsTrees_many ?_) fun _ => .pure (.of_eq rfl)
    refine .look (stays_atSign _) fun _ => .look (stays_atWord _) fun _ => .look (stays_atWord _) fun _ => ?_
    exact .ite (.pure (.of_eq rfl)) (.bind reads.statement fun _ => .pure (.of_eq rfl))
  refine readsTree_other <| .skip (moves_acceptWord _) fun _ => .ite (.given (rest [])) (.skip (moves_word _) fun _ => ?_)
  exact .bind (readsTree_sequence reads) fun value => .given (.draw (rest [value]) (.of_eq rfl))

theorem readsTree_switchStatement : ReadsTree (switchStatement r) := by
  refine readsTree_other <| .skip (moves_word _) fun _ => .bind (readsTree_condition reads) fun _ => ?_
  refine .bind (.within rfl (.skip (moves_sign _) fun _ => ?_)) fun _ => .pure (.of_eq rfl)
  exact .bind (readsTrees_until (stays_atSign _).moves (readsTree_switchCase reads)) fun _ => .skip (moves_sign _) fun _ =>
    .pure (.of_eq rfl)

theorem readsTree_catchClause : ReadsTree (catchClause r) := by
  have rest (caught : List Tree) : Keeps caught (do return caught ++ [(← block r).withRole .body]) id :=
    .bind (readsTree_block reads) fun _ => .pure (.of_eq (by simp))
  refine .within rfl <| .skip (moves_word _) fun _ => .skip (moves_acceptSign _) fun _ => .ite ?_ (.given (rest []))
  exact .bind reads.pattern fun name => .bind (readsTrees_optionalAscription reads) fun ascribed => .skip (moves_sign _) fun _ =>
    .given (.draw (rest (name.withRole .parameter :: ascribed)) (.of_eq rfl))

theorem readsTree_tryStatement : ReadsTree (tryStatement r) :=
  readsTree_other <| .skip (moves_word _) fun _ => .bind (readsTree_block reads) fun _ => .look (stays_atWord _) fun _ =>
    .bind (readsTrees_listIf (readsTree_catchClause reads)) fun _ => .skip (moves_acceptWord _) fun _ =>
    .optional (readsTree_block reads) fun _ => .pure (.of_eq (by simp))

theorem readsTree_returnStatement : ReadsTree (returnStatement r) :=
  .within rfl <| .skip (moves_word _) fun _ => .look (stays_ahead _) fun _ => .ite
    (.skip moves_statementEnd fun _ => .pure (.of_eq rfl)) (readsTrees_endedValue (readsTree_sequence reads))

theorem readsTree_throwStatement : ReadsTree (throwStatement r) :=
  readsTree_other <| .skip (moves_word _) fun _ => readsTrees_endedValue (readsTree_sequence reads)

theorem readsTree_labelled : ReadsTree (labelled r) :=
  readsTree_other <| .peek fun _ => .stay (stays_check _) fun _ => .take <| .skip (moves_sign _) fun _ =>
    .bind reads.statement fun _ => .pure (.of_eq rfl)

theorem readsTree_expressionStatement : ReadsTree (expressionStatement r) :=
  readsTree_other (readsTrees_endedValue (readsTree_sequence reads))

theorem readsTree_plainStatement : ReadsTree (plainStatement r) := by
  refine .look stays_peek fun t => ?_
  split
  · exact readsTree_block reads
  · exact readsTree_emptyStatement
  · exact readsTree_ifStatement reads
  · exact readsTree_whileStatement reads
  · exact readsTree_whileStatement reads
  · exact readsTree_doStatement reads
  · exact .orElse (readsTree_loopOver reads) (readsTree_loopCount reads)
  · exact readsTree_switchStatement reads
  · exact readsTree_tryStatement reads
  · exact readsTree_returnStatement reads
  · exact readsTree_throwStatement reads
  · exact readsTree_jumpStatement
  · exact readsTree_jumpStatement
  · exact readsTree_jumpStatement
  · exact .ite (readsTree_labelled reads) (readsTree_expressionStatement reads)

end Reading
end Script
end SchemaAtlas
