import SchemaAtlas.Proofs.SpotTypes

namespace SchemaAtlas
namespace Script
namespace Reading

open Grammar
open SchemaAtlas.Script.Tree (Drawn)

-- Expressions, from the innermost form outwards.

variable {r : Rules} (reads : ReadTrees r)

include reads

theorem readsTree_sequence : ReadsTree (sequence r) := by
  refine .look stays_here fun _ => .bind reads.expression fun first => keeps_grow (fun left => ?_) first
  refine .skip (moves_acceptSign _) fun _ => .ite (.bind reads.expression fun _ => ?_) (.pure (.of_eq rfl))
  exact .seq (.close rfl (.of_eq rfl)) fun _ => .pure (.of_eq rfl)

theorem readsTree_spread : ReadsTree (spread r) :=
  (readsName_shape rfl (by decide) (.bind reads.expression fun _ => .pure (.of_eq rfl))).readsTree

theorem readsTree_element : ReadsTree (element r) :=
  .look (stays_atSign _) fun _ => .ite (readsTree_spread reads) reads.expression

theorem readsTree_array : ReadsTree (array r) :=
  .within rfl <| .skip (moves_sign _) fun _ => readsTrees_listUpTo (readsTree_element reads)

theorem readsTree_block : ReadsTree (block r) :=
  .within rfl <| .skip (moves_sign _) fun _ => .bind (readsTrees_until (stays_atSign _).moves reads.statement) fun _ =>
    .skip (moves_sign _) fun _ => .pure (.of_eq rfl)

theorem readsTrees_functionRest : ReadsTrees (functionRest r) :=
  .bind (readsTrees_callSignature reads) fun _ => .bind (readsTree_block reads) fun _ => .pure (.of_eq (by simp))

omit reads in
theorem stays_startsSignature : Stays startsSignature :=
  (stays_atSign _).bind fun _ => (stays_atSign _).bind fun _ => stays_check _

theorem readsTree_methodName : ReadsTree (methodName r) := by
  have rest : ReadsTree (do
      let _ ← acceptSign "*"
      let name ← propertyName r.expression
      let _ ← acceptSign "?"
      startsSignature
      return name.withRole .name) :=
    .skip (moves_acceptSign _) fun _ => .bind (readsTree_propertyName reads.expression) fun _ =>
      .skip (moves_acceptSign _) fun _ => .look stays_startsSignature fun _ => .pure (.of_eq rfl)
  exact .orElse (.skip (moves_modifiers _ _) fun _ => rest) rest

theorem readsTree_method : ReadsTree (method r) :=
  .within rfl <| .bind (readsTree_methodName reads) fun _ => .bind (readsTrees_functionRest reads) fun _ => .pure (.of_eq rfl)

theorem readsTree_pair : ReadsTree (pair r) := by
  refine .within rfl <| .bind (readsTree_propertyName reads.expression) fun _ => .skip (moves_sign _) fun _ => ?_
  refine .look (stays_atSign _) fun _ => .look (stays_atSign _) fun _ => .ite ?_ ?_
  · exact .bind (readsTree_missing _) fun _ => .pure (.of_eq rfl)
  · exact .bind reads.expression fun _ => .pure (.of_eq rfl)

theorem readsTree_objectMember : ReadsTree (objectMember r) := by
  refine .look (stays_atSign _) fun _ => .ite (readsTree_spread reads) ?_
  exact .look (stays_ahead _) fun _ => .ite (readsTree_method reads) (.orElse (readsTree_pair reads) (readsTree_anyName rfl))

theorem readsTree_object : ReadsTree (object r) :=
  .within rfl <| .skip (moves_sign _) fun _ => readsTrees_listUpTo (readsTree_objectMember reads)

theorem readsTree_arguments : ReadsTree (arguments r) := by
  refine .within rfl <| .skip (moves_sign _) fun _ => .bind (keeps_many (o := id) ?_) fun _ => ?_
  · refine .look (stays_atSign _) fun _ => .ite (.pure (.of_eq rfl)) ?_
    refine .skip (moves_acceptSign _) fun _ => .ite (.pure (.of_eq rfl)) ?_
    refine .look stays_peek fun _ => .ite (.pure (.of_eq rfl)) (.bind (readsTree_element reads) fun _ => ?_)
    refine .look (stays_atSign _) fun _ => .look (stays_atSign _) fun _ => .look stays_peek fun _ => ?_
    exact .ite (.pure (.of_eq rfl)) (.bind readsTree_stray fun _ => .pure (.of_eq rfl))
  · refine .skip (moves_acceptSign _) fun _ => .ite (.pure (.of_eq (by simp [List.flatMap]))) ?_
    exact .bind (readsTree_missing _) fun _ => .pure (.of_eq (by simp [List.flatMap]))

theorem readsTree_parenthesized : ReadsTree (parenthesized r) := by
  refine .within rfl <| .skip (moves_sign _) fun _ => .peek fun c => .of <| .blanks c.comments_isBlank ?_
  refine .bind (readsTree_sequence reads) fun _ => .bind (readsTrees_optionalAscription reads) fun _ => ?_
  refine .skip (moves_acceptSign _) fun _ => .ite (.pure (.of_eq (by simp))) ?_
  refine .look stays_peek fun _ => .look (stays_check _) fun _ => .bind (readsTree_missing _) fun _ => .pure ?_
  -- Without the parenthesis the type is left out.
  rw [Drawn]
  simp

theorem readsTree_functionExpression : ReadsTree (functionExpression r) := by
  refine .look stays_here fun start => .skip (moves_acceptWord _) fun _ => .skip (moves_word _) fun _ => ?_
  refine .skip (moves_acceptSign _) fun generator => .look (stays_atSign _) fun _ => .look (stays_atSign _) fun _ => ?_
  have plain : (if generator then Kind.generatorFunction else .functionExpression).isPlain = true := by cases generator <;> rfl
  have rest (name : List Tree) : Keeps name (do
      let rest ← functionRest r
      close start (if generator then .generatorFunction else .functionExpression) (name ++ rest)) fun t => [t] :=
    .bind (readsTrees_functionRest reads) fun _ => .close plain (.of_eq (by simp))
  exact .ite (rest []) (.bind (readsTree_anyName rfl) fun name => .draw (.given (rest [name.withRole .name])) (.of_eq rfl))

theorem readsTree_constructed : ReadsTree (constructed r) := by
  refine .look stays_here fun _ => .bind reads.primary fun base => ?_
  refine keeps_grow (fun left => .skip (moves_acceptSign _) fun _ => .ite ?_ ?_) base
  · exact grows_member (readsName_propertyName reads.expression)
  · refine .skip (moves_acceptSign _) fun _ => .ite ?_ (.pure (.of_eq rfl))
    exact .bind (readsTree_sequence reads) fun _ => .skip (moves_sign _) fun _ =>
      .seq (.close rfl (.of_eq rfl)) fun _ => .pure (.of_eq rfl)

theorem readsTree_newExpression : ReadsTree (newExpression r) := by
  refine readsTree_other <| .skip (moves_word _) fun _ => .skip (moves_acceptSign _) fun _ => .ite ?_ ?_
  · exact .bind (readsTree_anyName rfl) fun _ => .pure (.of_eq rfl)
  · refine .bind (readsTree_constructed reads) fun _ => .bind (keeps_maybe ?_) fun _ => ?_
    · exact .bind (readsTree_typeArguments reads) fun _ => .look (stays_atSign _) fun _ =>
        .look (stays_check _) fun _ => .pure (.of_eq rfl)
    · exact .look (stays_atSign _) fun _ => .bind (readsTrees_listIf (readsTree_arguments reads)) fun _ =>
        .pure (.of_eq (by simp))

omit reads in
theorem plain_of_plainWords {text : String} {kind : Kind} (found : plainWords.lookup text = some kind) :
    kind.isPlain = true := by
  have all : ∀ entry ∈ plainWords, entry.2.isPlain = true := by decide
  obtain ⟨before, after, words, _⟩ := List.lookup_eq_some_iff.mp found
  exact all (text, kind) (by simp [words])

theorem readsTree_primary {classExpression : Reading Tree} (classes : ReadsTree classExpression) :
    ReadsTree (primary r classExpression) := by
  refine .peek fun c => .of ?_
  split
  · exact readsName_string.readsTree
  · exact readsTree_number
  · exact readsTree_template (readsTree_sequence reads)
  · exact readsTree_leaf rfl
  · split
    · rename_i found
      exact readsTree_leaf (plain_of_plainWords found)
    · exact .ite (readsTree_functionExpression reads) (.ite (readsTree_functionExpression reads) (.ite classes
        (.ite (readsTree_newExpression reads) readsTree_identifier)))
  · exact .ite (readsTree_parenthesized reads) (.ite (readsTree_array reads) (.ite (readsTree_object reads)
      (.ite readsTree_regex (.ite classes .failure))))
  · exact .failure

omit reads in
theorem many_all {P : α → Prop} {inner : Reading (Option α)} (each : ∀ c item d, inner c = some (some item, d) → P item)
    {c d : Cursor} {items : List α} (read : many inner c = some (items, d)) : ∀ item ∈ items, P item := by
  rw [many, bind_some (cursor_apply c)] at read
  generalize c.rest.length + 1 = fuel at read
  induction fuel generalizing c items with
  | zero =>
    cases read
    exact List.forall_mem_nil _
  | succ fuel ih =>
    obtain ⟨item, later, taken, rest⟩ := bind_inv read
    cases item with
    | none =>
      cases rest
      exact List.forall_mem_nil _
    | some item =>
      obtain ⟨others, last, further, rest⟩ := bind_inv rest
      cases rest
      exact List.forall_mem_cons.mpr ⟨each _ _ _ taken, ih further⟩

theorem grows_memberName (start : Cursor) (left : Tree) : Grows left (do
    return some (← close start .member (left.withRole .object :: (← memberName r)))) := by
  intro c lo apart larger d read
  obtain ⟨children, last, taken, rest⟩ := bind_inv read
  cases rest
  obtain ⟨strays, later, before, taken⟩ := bind_inv taken
  have dots := readsTrees_while (stays_atSign ".").moves readsTree_stray
  have around := apart.append (dots _ _ (.nil (le_refl _)) _ _ before)
  have plain : ∀ t ∈ strays, t.role = .plain := by
    refine many_all (fun c t d read => ?_) before
    obtain ⟨dotted, later, looked, read⟩ := bind_inv read
    cases dotted
    · cases read
    · cases read
      exact Cursor.tree_role _ _ _ _
  rw [bind_some (peek_apply later)] at taken
  suffices named : ∃ name : Tree, name.Named later.location d.location ∧ children = strays ++ [name.withRole .property] by
    obtain ⟨name, named, rfl⟩ := named
    exact member_apart plain around named
  cases shape : later.token.shape
  all_goals
    rw [shape] at taken
    obtain ⟨name, _, named, rest⟩ := bind_inv taken
  case name =>
    cases rest
    exact ⟨name, namesFrom_leaf rfl (by simp [shape]) _ _ named, rfl⟩
  case privateName =>
    cases rest
    exact ⟨name, readsName_propertyName reads.expression _ _ _ named, rfl⟩
  all_goals cases named

-- What stands in the lists of a call: `within` gives no role, and the kind it was asked for.
omit reads in
theorem within_made {kind : Kind} {inner : Reading (List Tree)} (other : kind.isName = false)
    (read : within kind inner c = some (t, d)) : t.kind = kind ∧ t.role = .plain := by
  rw [within, bind_some (here_apply c)] at read
  obtain ⟨children, later, taken, rest⟩ := bind_inv read
  cases rest
  exact ⟨(Cursor.tree_parts _ _ kind children other).1, Cursor.tree_role _ _ kind children⟩

omit reads in
theorem template_made {substitution : Reading Tree} (read : template substitution c = some (t, d)) : t.kind = .templateString := by
  rw [template, bind_some (peek_apply c)] at read
  obtain ⟨_, _, checked, read⟩ := bind_inv read
  obtain ⟨_, rfl⟩ := check_inv checked
  rw [bind_some (take_token _)] at read
  obtain ⟨pieces, later, taken, read⟩ := bind_inv read
  cases read
  exact (Cursor.tree_parts _ _ .templateString pieces rfl).1

theorem keeps_call {generics : List Tree} (plain : ∀ t ∈ generics, t.role = .plain) (start : Cursor) (left : Tree) :
    Keeps (left :: generics) (do
      let arguments ← arguments r
      return some (← close start .call ([left.withRole .function] ++ generics ++ [arguments.withRole .arguments])))
      fun larger => [larger.getD left] := by
  intro c lo apart larger d read
  obtain ⟨list, later, taken, rest⟩ := bind_inv read
  cases rest
  obtain ⟨kind, _⟩ := within_made rfl taken
  refine call_apart plain ⟨by simp [kind], by rw [kind]; rfl⟩ ?_
  exact apart.append (readsTree_arguments reads _ _ (.nil (le_refl _)) _ _ taken)

theorem keeps_tagged (start : Cursor) (left : Tree) (generics : List Tree) : Keeps (left :: generics) (do
    let text ← template (sequence r)
    return some (← close start .call [left.withRole .function, text.withRole .arguments]))
    fun larger => [larger.getD left] := by
  intro c lo apart larger d read
  obtain ⟨text, later, taken, rest⟩ := bind_inv read
  cases rest
  have kind := template_made taken
  have plain : ∀ t ∈ ([] : List Tree), t.role = .plain := nofun
  refine call_apart plain ⟨by simp [kind], by rw [kind]; rfl⟩ ?_
  have both := apart.append (readsTree_template (readsTree_sequence reads) _ _ (.nil (le_refl _)) _ _ taken)
  exact both.drawn (by simp [Drawn])

theorem keeps_generics {generics : Tree} (plain : generics.role = .plain) (start : Cursor) (left : Tree) :
    Keeps [left, generics] (do
      if ← atSign "(" then do
        let arguments ← arguments r
        return some (← close start .call ([left.withRole .function] ++ [generics] ++ [arguments.withRole .arguments]))
      else if (← peek).shape == .backquote then do
        let text ← template (sequence r)
        return some (← close start .call [left.withRole .function, text.withRole .arguments])
      else do
        check (endsInstance (← peek))
        return some (← close start (.other "instantiation_expression") [left.withRole .function, generics]))
      fun larger => [larger.getD left] := by
  refine .look (stays_atSign _) fun _ => .ite (keeps_call reads (List.forall_mem_singleton.mpr plain) start left) ?_
  refine .look stays_peek fun _ => .ite (keeps_tagged reads start left [generics]) ?_
  exact .look stays_peek fun _ => .look (stays_check _) fun _ =>
    .seq (.close rfl (.of_eq rfl)) fun _ => .pure (.of_eq rfl)

theorem grows_chainStep (start : Cursor) (left : Tree) : Grows left (chainStep r start left) := by
  have index : Grows left (do
      sign "["
      let index ← sequence r
      sign "]"
      return some (← close start (.other "subscript_expression") [left.withRole .object, index])) :=
    .skip (moves_sign _) fun _ => .bind (readsTree_sequence reads) fun _ => .skip (moves_sign _) fun _ =>
      .seq (.close rfl (.of_eq rfl)) fun _ => .pure (.of_eq rfl)
  have none_ : ∀ t ∈ ([] : List Tree), t.role = .plain := nofun
  have call : Grows left _ := keeps_call reads none_ start left
  have member : Grows left _ := grows_memberName reads start left
  have generic : Grows left (do
      let generics ← typeArguments r
      if ← atSign "(" then do
        let arguments ← arguments r
        return some (← close start .call ([left.withRole .function] ++ [generics] ++ [arguments.withRole .arguments]))
      else if (← peek).shape == .backquote then do
        let text ← template (sequence r)
        return some (← close start .call [left.withRole .function, text.withRole .arguments])
      else do
        check (endsInstance (← peek))
        return some (← close start (.other "instantiation_expression") [left.withRole .function, generics])) := by
    intro c lo apart larger d read
    obtain ⟨generics, later, taken, rest⟩ := bind_inv read
    have further := keeps_generics reads (within_made rfl taken).2 start left
    exact further later lo (apart.append (readsTree_typeArguments reads _ _ (.nil (le_refl _)) _ _ taken)) larger d rest
  have none_ : Grows left (return none) := .pure (.of_eq rfl)
  refine .peek fun c => .ite ?_ (.ite ?_ (.ite ?_ (.ite ?_ (.ite ?_ (.ite ?_ (.ite ?_ (.ite ?_ ?_)))))))
  · exact .of (keeps_tagged reads start left [])
  · exact .of none_
  · exact .take member
  · exact .take (.look (stays_atSign _) fun _ => .ite call (.look (stays_atSign _) fun _ => .ite index
      (.look (stays_atSign _) fun _ => .ite generic member)))
  · exact .of index
  · exact .of call
  · exact .take (.seq (.close rfl (.of_eq rfl)) fun _ => .pure (.of_eq rfl))
  · exact .of (.orElse generic none_)
  · exact .of none_

theorem readsTree_chain {classExpression : Reading Tree} (classes : ReadsTree classExpression) :
    ReadsTree (chain r classExpression) :=
  .look stays_here fun start => .bind (readsTree_primary reads classes) fun base =>
    keeps_grow (grows_chainStep reads start) base

theorem readsTree_updated {classExpression : Reading Tree} (classes : ReadsTree classExpression) :
    ReadsTree (updated r classExpression) :=
  .look stays_here fun _ => .bind (readsTree_chain reads classes) fun _ => .peek fun _ =>
    .ite (.take (.close rfl (.of_eq rfl))) (.of (.pure (.of_eq rfl)))

theorem readsTree_typeAssertion : ReadsTree (typeAssertion r) :=
  readsTree_other <| .bind (readsTree_typeArguments reads) fun _ => .bind reads.unary fun _ => .pure (.of_eq rfl)

theorem readsTree_unary {classExpression : Reading Tree} (classes : ReadsTree classExpression) :
    ReadsTree (unary r classExpression) := by
  refine .peek fun c => ?_
  have under {kind : Kind} (plain : kind.isPlain = true) : From [] (within kind do
      take c.token
      return [(← r.unary).withRole .argument]) (fun t => [t]) c :=
    .within plain (.take (.bind reads.unary fun _ => .pure (.of_eq rfl)))
  have updated : From [] (updated r classExpression) (fun t => [t]) c := .of (readsTree_updated reads classes)
  exact .ite (under (by simp [Kind.isPlain])) (.ite (under rfl) (.ite (under (by simp [Kind.isPlain]))
    (.ite (.of (readsTree_typeAssertion reads)) (.ite (.orElse (under rfl) updated) updated))))

omit reads in
theorem location_le_operator (c : Cursor) (operator : String) :
    c.location ≤ (c.token.start.advance operator.length).location :=
  le_trans c.location_le_start (Cursor.location_le_advance _ _)

omit reads in
theorem readsTree_joined {inner : Reading Tree} (tree : ReadsTree inner) (levels : List (List String)) :
    ReadsTree (joined inner levels) := by
  induction levels with
  | nil => exact tree
  | cons level tighter ih =>
    refine .look stays_here fun start => .bind ih fun first => keeps_grow (fun left => .peek fun c => ?_) first
    split
    · refine .ite (.set (location_le_operator c _) (.bind ih fun _ => ?_)) (.of (.pure (.of_eq rfl)))
      exact .seq (.close rfl (.of_eq rfl)) fun _ => .pure (.of_eq rfl)
    · exact .of (.pure (.of_eq rfl))

theorem grows_typedStep (start : Cursor) (left : Tree) : Grows left (typedStep r start left) := by
  have none_ : Grows left (return none) := .pure (.of_eq rfl)
  refine .peek fun c => .ite (.of none_) (.ite (.take ?_) (.ite (.take ?_) (.of none_)))
  · refine .skip (moves_acceptWord _) fun _ => .ite (.seq (.close rfl (.of_eq rfl)) fun _ => .pure (.of_eq rfl)) ?_
    exact .bind reads.type fun _ => .seq (.close rfl (.of_eq rfl)) fun _ => .pure (.of_eq rfl)
  · exact .bind reads.type fun _ => .seq (.close rfl (.of_eq rfl)) fun _ => .pure (.of_eq rfl)

theorem readsTree_binary : ReadsTree (binary r) := by
  refine .look stays_here fun start => .bind (readsTree_joined reads.unary _) fun first => keeps_grow (fun left => ?_) first
  refine .seq (grows_typedStep reads start left) fun typed => ?_
  cases typed with
  | some typed => exact .pure (.of_eq rfl)
  | none =>
    refine .peek fun c => ?_
    split
    · refine .set (location_le_operator c _) (.bind (readsTree_joined reads.unary _) fun _ => ?_)
      exact .seq (.close rfl (.of_eq rfl)) fun _ => .pure (.of_eq rfl)
    · exact .of (.pure (.of_eq rfl))

theorem readsTree_conditional : ReadsTree (conditional r) :=
  .look stays_here fun _ => .bind (readsTree_binary reads) fun _ => .skip (moves_acceptSign _) fun _ => .ite
    (.bind reads.expression fun _ => .skip (moves_sign _) fun _ => .bind reads.expression fun _ => .close rfl (.of_eq rfl))
    (.pure (.of_eq rfl))

theorem readsTree_arrowBody : ReadsTree (arrowBody r) :=
  .look (stays_atSign _) fun _ => .ite (readsTree_block reads) reads.expression

omit reads in
theorem moves_arrow : Moves arrow := stays_peek.moves.bind fun _ => (stays_check _).moves.bind fun _ => moves_sign _

theorem readsTree_arrowFunction : ReadsTree (arrowFunction r) := by
  have single : ReadsTrees (do
      let name ← identifier
      arrow
      return [name.withRole .parameter]) :=
    .bind readsTree_identifier fun _ => .skip moves_arrow fun _ => .pure (.of_eq rfl)
  have full : ReadsTrees (do
      let signature ← callSignature r
      arrow
      return signature) := .bind (readsTrees_callSignature reads) fun _ => .skip moves_arrow fun _ => .pure (.of_eq rfl)
  have asynchronous {head : Reading (List Tree)} (trees : ReadsTrees head) : ReadsTrees (do
      word "async"
      check !(← peek).newline
      head) := .skip (moves_word _) fun _ => .look stays_peek fun _ => .look (stays_check _) fun _ => trees
  have head := Keeps.orElse single (.orElse full (.orElse (asynchronous single) (asynchronous full)))
  exact .within rfl (.bind head fun _ => .bind (readsTree_arrowBody reads) fun _ => .pure (.of_eq (by simp)))

theorem readsTree_yieldExpression : ReadsTree (yieldExpression r) :=
  readsTree_other <| .skip (moves_word _) fun _ => .skip (moves_acceptSign _) fun _ => .look stays_peek fun _ =>
    readsTrees_listIf reads.expression

theorem readsTree_assignedPattern : ReadsTree (assignedPattern r) :=
  .look stays_peek fun _ => .look (stays_check _) fun _ => .bind reads.pattern fun _ =>
    .look (stays_atSign _) fun _ => .look (stays_check _) fun _ => .pure (.of_eq rfl)

theorem readsTree_assignment : ReadsTree (assignment r) := by
  refine .look stays_here fun _ => .bind (.orElse (readsTree_assignedPattern reads) (readsTree_conditional reads)) fun _ => ?_
  refine .peek fun c => ?_
  split
  · exact .set (location_le_operator c _) (.bind reads.expression fun _ => .close rfl (.of_eq rfl))
  · exact .of (.pure (.of_eq rfl))

theorem readsTree_expression : ReadsTree (expression r) := by
  have assigned := readsTree_assignment reads
  refine .look stays_peek fun _ => .ite (.orElse (readsTree_yieldExpression reads) assigned) (.ite ?_ assigned)
  exact .orElse (readsTree_arrowFunction reads) assigned

end Reading
end Script
end SchemaAtlas
