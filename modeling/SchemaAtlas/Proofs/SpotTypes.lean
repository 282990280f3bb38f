import SchemaAtlas.Proofs.SpotPatterns

namespace SchemaAtlas
namespace Script
namespace Reading

open Grammar

-- Types. Those without expressions in them hold no spots, but rules for names can read
-- anything in brackets.

theorem readsTree_other {label : String} {inner : Reading (List Tree)} (trees : ReadsTrees inner) :
    ReadsTree (other label inner) := .within rfl trees

variable {r : Rules} (reads : ReadTrees r)

include reads

theorem readsTree_typeArguments : ReadsTree (typeArguments r) :=
  readsTree_other <| .skip (moves_sign _) fun _ => readsTrees_listUpTo reads.type

theorem readsTrees_optionalTypeArguments : ReadsTrees (optionalTypeArguments r) :=
  .look (stays_atSign _) fun _ => readsTrees_listIf (readsTree_typeArguments reads)

theorem readsTree_typeParameter : ReadsTree (typeParameter r) :=
  readsTree_other <| .skip (moves_modifiers _ _) fun _ => .bind (readsTree_anyName rfl) fun _ =>
    .skip (moves_acceptWord _) fun _ => .optional reads.type fun _ =>
    .skip (moves_acceptSign _) fun _ => .optional reads.type fun _ => .pure (.of_eq (by simp))

theorem readsTree_typeParameters : ReadsTree (typeParameters r) :=
  readsTree_other <| .skip (moves_sign _) fun _ => readsTrees_listUpTo (readsTree_typeParameter reads)

theorem readsTrees_optionalTypeParameters : ReadsTrees (optionalTypeParameters r) :=
  .look (stays_atSign _) fun _ => readsTrees_listIf (readsTree_typeParameters reads)

theorem readsTree_typePredicate : ReadsTree (typePredicate r) :=
  readsTree_other <| .bind (.orElse readsTree_thisLeaf readsTree_identifier) fun _ => .look stays_peek fun _ =>
    .look (stays_check _) fun _ => .skip (moves_word _) fun _ => .bind reads.type fun _ => .pure (.of_eq rfl)

theorem readsTree_assertion : ReadsTree (assertion r) :=
  readsTree_other <| .skip (moves_word _) fun _ =>
    .bind (.orElse (readsTree_typePredicate reads) (.orElse readsTree_thisLeaf readsTree_identifier)) fun _ => .pure (.of_eq rfl)

theorem readsTree_returnType : ReadsTree (returnType r) :=
  .orElse (readsTree_assertion reads) (.orElse (readsTree_typePredicate reads) reads.type)

theorem readsTrees_optionalReturn : ReadsTrees (optionalReturn r) :=
  .look (stays_atSign _) fun _ => readsTrees_listIf <| readsTree_other <| .skip (moves_sign _) fun _ =>
    .bind (readsTree_returnType reads) fun _ => .pure (.of_eq rfl)

theorem readsTrees_callSignature : ReadsTrees (callSignature r) :=
  .bind (readsTrees_optionalTypeParameters reads) fun _ => .bind (readsTree_formalParameters reads) fun _ =>
    .bind (readsTrees_optionalReturn reads) fun _ => .pure (.of_eq (by simp))

theorem readsTree_functionType : ReadsTree (functionType r) :=
  readsTree_other <| .skip (moves_acceptWord _) fun _ => .skip (moves_acceptWord _) fun _ =>
    .bind (readsTrees_optionalTypeParameters reads) fun _ => .bind (readsTree_formalParameters reads) fun _ =>
    .skip (moves_sign _) fun _ => .bind (readsTree_returnType reads) fun _ => .pure (.of_eq (by simp))

omit reads in
theorem readsTree_typeName : ReadsTree typeName := by
  refine .look stays_here fun start => .peek fun c => .stay (stays_check _) fun _ => .take ?_
  refine .look (stays_atSign _) fun _ => .ite ?_ (.close rfl (.of_eq rfl))
  refine .seq (.close rfl (.of_eq rfl)) fun module => keeps_grow (fun left => ?_) module
  refine .skip (moves_acceptSign _) fun _ => .ite ?_ (.pure (.of_eq rfl))
  refine .peek fun c => .stay (stays_check _) fun _ => .take ?_
  have plain : (if c.token.next.token.text == "." then Kind.propertyIdentifier else .other "type_identifier").isPlain = true := by
    split <;> rfl
  exact .blank (Cursor.tree_leaf_isBlank c.token.start c.token.next plain) <|
    .seq (.close rfl (.of_eq rfl)) fun _ => .pure (.of_eq rfl)

theorem readsTree_namedType : ReadsTree (namedType r) :=
  .look stays_here fun _ => .bind readsTree_typeName fun _ => .look (stays_atSign _) fun _ =>
    .ite (.bind (readsTree_typeArguments reads) fun _ => .close rfl (.of_eq rfl)) (.pure (.of_eq rfl))

theorem readsTree_typeQuery : ReadsTree (typeQuery r) := by
  refine readsTree_other <| .skip (moves_word _) fun _ => .look stays_here fun _ => ?_
  refine .bind (.orElse readsTree_thisLeaf (.orElse readsTree_identifier (readsTree_anyName rfl))) fun base => ?_
  refine .seq (keeps_grow (fun left => .skip (moves_acceptSign _) fun _ => .ite ?_ ?_) base) fun _ => ?_
  · exact grows_member (readsName_propertyName reads.expression)
  · refine .look (stays_atSign _) fun _ => .ite ?_ (.pure (.of_eq rfl))
    exact .skip (moves_sign _) fun _ => .bind (readsTrees_listUpTo reads.type) fun _ =>
      .seq (.close rfl (.of_eq rfl)) fun _ => .pure (.of_eq rfl)
  · exact .bind (readsTrees_optionalTypeArguments reads) fun _ => .pure (.of_eq rfl)

theorem readsTree_importType : ReadsTree (importType r) := by
  refine readsTree_other <| .skip (moves_word _) fun _ => .skip (moves_sign _) fun _ => ?_
  refine .bind (readsTrees_listUpTo reads.type) fun _ => .skip (moves_many ?_) fun _ => ?_
  · exact (moves_acceptSign _).bind fun _ => .ite ((moves_anyName _).bind fun _ => (stays_pure _).moves) (stays_pure _).moves
  · exact .bind (readsTrees_optionalTypeArguments reads) fun _ => .pure (.of_eq (by simp))

theorem readsTree_templateType : ReadsTree (templateType r) := readsTree_template reads.type

theorem readsTree_tupleMember : ReadsTree (tupleMember r) := by
  refine .look stays_here fun _ => .skip (moves_acceptSign _) fun _ => .orElse ?_ ?_
  · exact .bind readsTree_identifier fun _ => .skip (moves_acceptSign _) fun _ =>
      .bind (readsTree_ascription reads) fun _ => .close rfl (.of_eq rfl)
  · exact .bind reads.type fun _ => .skip (moves_acceptSign _) fun _ => .ite (.close rfl (.of_eq rfl)) (.pure (.of_eq rfl))

theorem readsTree_indexMember : ReadsTree (indexMember r) := by
  refine readsTree_other <| .skip (.orElse (moves_acceptSign _) (moves_acceptSign _)) fun _ => .skip (moves_acceptSign _) fun _ => ?_
  refine .skip (moves_acceptWord _) fun _ => .skip (moves_sign _) fun _ => .bind (o := id) (.orElse ?_ ?_) fun inner => ?_
  · exact .bind readsTree_identifier fun _ => .skip (moves_sign _) fun _ => .bind reads.type fun _ => .pure (.of_eq rfl)
  · exact .bind (readsTree_anyName rfl) fun _ => .skip (moves_word _) fun _ => .bind reads.type fun _ =>
      .skip (moves_acceptWord _) fun _ => .optional reads.type fun _ => .pure (.of_eq (by simp))
  · exact .skip (moves_sign _) fun _ => .skip (moves_acceptSign _) fun _ => .skip (moves_acceptSign _) fun _ =>
      .skip (moves_acceptSign _) fun _ => .bind (readsTrees_optionalAscription reads) fun _ => .pure (.of_eq (by simp))

theorem readsTree_namedMember : ReadsTree (namedMember r) := by
  have rest (start : Cursor) : ReadsTree (do
      let name ← propertyName r.expression
      let _ ← acceptSign "?"
      if (← atSign "(") || (← atSign "<") then
        close start (.other "method_signature") (name.withRole .name :: (← callSignature r))
      else close start (.other "property_signature") (name.withRole .name :: (← optionalAscription r))) :=
    .bind (readsTree_propertyName reads.expression) fun _ => .skip (moves_acceptSign _) fun _ =>
      .look (stays_atSign _) fun _ => .look (stays_atSign _) fun _ => .ite
        (.bind (readsTrees_callSignature reads) fun _ => .close rfl (.of_eq (by simp)))
        (.bind (readsTrees_optionalAscription reads) fun _ => .close rfl (.of_eq (by simp)))
  exact .look stays_here fun start => .orElse (.skip (moves_modifiers _ _) fun _ => rest start) (rest start)

theorem readsTree_typeMember : ReadsTree (typeMember r) := by
  refine .look (stays_atSign _) fun _ => .look (stays_atSign _) fun _ => .ite
    (readsTree_other (readsTrees_callSignature reads)) ?_
  refine .look (stays_atWord _) fun _ => .look (stays_ahead _) fun _ => .ite ?_ ?_
  · exact readsTree_other (.skip (moves_word _) fun _ => readsTrees_callSignature reads)
  · exact .orElse (readsTree_indexMember reads) (readsTree_namedMember reads)

theorem readsTree_objectType : ReadsTree (objectType r) := by
  refine readsTree_other <| .skip (moves_sign _) fun _ => .bind (keeps_many (o := id) ?_) fun members => ?_
  · refine .look (stays_atSign _) fun _ => .ite (.pure (.of_eq rfl)) ?_
    refine .skip (moves_accept _) fun _ => .ite (.pure (.of_eq rfl)) ?_
    exact .bind (readsTree_typeMember reads) fun _ => .pure (.of_eq rfl)
  · exact .skip (moves_sign _) fun _ => .pure (.of_eq (by simp [List.flatMap]))

omit reads in
theorem readsTree_signedNumber : ReadsTree signedNumber :=
  .within rfl <| .skip (moves_sign _) fun _ => .bind readsTree_number fun _ => .pure (.of_eq rfl)

theorem readsTree_inferredType : ReadsTree (inferredType r) := by
  refine readsTree_other <| .skip (moves_word _) fun _ => .bind (readsTree_anyName rfl) fun _ => ?_
  refine .bind (keeps_maybe ?_) fun _ => .pure (.of_eq rfl)
  exact .skip (moves_word _) fun _ => .bind reads.type fun _ => .look (stays_atSign _) fun _ =>
    .look (stays_check _) fun _ => .pure (.of_eq rfl)

theorem readsTree_primaryType : ReadsTree (primaryType r) := by
  refine .peek fun c => ?_
  split
  · exact .of readsName_string.readsTree
  · exact .of readsTree_number
  · exact .of (readsTree_templateType reads)
  · refine .ite (.of (readsTree_typeQuery reads)) (.ite (.of (readsTree_importType reads)) (.ite (.of readsTree_thisLeaf) ?_))
    refine .ite (.of (readsTree_inferredType reads)) (.ite (.within rfl (.take ?_)) (.of (readsTree_namedType reads)))
    exact .bind reads.type fun _ => .pure (.of_eq rfl)
  · refine .of (.look (stays_atSign _) fun _ => .ite (readsTree_objectType reads) ?_)
    refine .look (stays_atSign _) fun _ => .ite ?_ (.look (stays_atSign _) fun _ => .ite ?_ readsTree_signedNumber)
    · exact readsTree_other (.skip (moves_sign _) fun _ => readsTrees_listUpTo (readsTree_tupleMember reads))
    · exact readsTree_other (.skip (moves_sign _) fun _ => .bind reads.type fun _ => .skip (moves_sign _) fun _ => .pure (.of_eq rfl))

theorem readsTree_arrayType : ReadsTree (arrayType r) := by
  refine .look stays_here fun _ => .bind (readsTree_primaryType reads) fun base => keeps_grow (fun left => ?_) base
  refine .look (stays_atSign _) fun _ => .look stays_peek fun _ => .ite ?_ (.pure (.of_eq rfl))
  exact .skip (moves_sign _) fun _ => .look (stays_atSign _) fun _ => .optionalElse reads.type fun _ =>
    .skip (moves_sign _) fun _ => .seq (.close rfl (.of_eq (by simp))) fun _ => .pure (.of_eq rfl)

omit reads in
theorem readsTree_joinedType (label joint : String) {inner : Reading Tree} (tree : ReadsTree inner) :
    ReadsTree (joinedType label joint inner) := by
  refine .look stays_here fun _ => .skip (moves_acceptSign _) fun _ => .bind tree fun first => keeps_grow (fun left => ?_) first
  refine .skip (moves_acceptSign _) fun _ => .ite (.bind tree fun _ => ?_) (.pure (.of_eq rfl))
  exact .seq (.close rfl (.of_eq rfl)) fun _ => .pure (.of_eq rfl)

theorem readsTree_unionType : ReadsTree (unionType r) :=
  readsTree_joinedType _ _ (readsTree_joinedType _ _ (readsTree_arrayType reads))

theorem readsTree_conditionalType : ReadsTree (conditionalType r) := by
  refine .look stays_here fun _ => .bind (readsTree_unionType reads) fun _ => .look (stays_atWord _) fun _ =>
    .ite (.orElse ?_ (.pure (.of_eq rfl))) (.pure (.of_eq rfl))
  exact .look stays_peek fun _ => .look (stays_check _) fun _ => .skip (moves_word _) fun _ =>
    .bind (readsTree_unionType reads) fun _ => .skip (moves_sign _) fun _ => .bind reads.type fun _ =>
    .skip (moves_sign _) fun _ => .bind reads.type fun _ => .close rfl (.of_eq rfl)

theorem readsTree_type : ReadsTree (type r) :=
  .look stays_peek fun _ => .ite (.orElse (readsTree_functionType reads) (readsTree_conditionalType reads))
    (readsTree_conditionalType reads)

end Reading
end Script
end SchemaAtlas
