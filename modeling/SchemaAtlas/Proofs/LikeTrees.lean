import SchemaAtlas.Builder.Lowering.Scalar
import SchemaAtlas.Proofs.BlockScopes
import SchemaAtlas.Proofs.PairedLists

namespace SchemaAtlas

namespace Script

def Kind.isWord (kind : Kind) : Bool :=
  kind ∈ [identifier, propertyIdentifier, shorthandProperty, shorthandPattern, stringFragment, escapeSequence, number,
    regexPattern]

namespace Tree

variable {t u child : Tree} {places : Tree → Tree → Prop}

def isSpare (t : Tree) : Bool := t.kind == .comment && t.role == .plain && t.children.isEmpty

def wrapped? (t : Tree) : Option Tree := if t.kind.isWrapper then t.children.find? (·.kind.isPart) else none

-- The children of a tree without the comments among them, but for one that a wrapper gives
-- way to.
def kept (t : Tree) : List Tree := (t.wrapped?.filter isSpare).toList ++ t.children.filter fun c => !c.isSpare

def behind? (statement : Tree) : Option Tree :=
  if statement.kind == .exportStatement then statement.child? .declaration else some statement

def heads (declaration : Tree) : List (Option String) :=
  match declaration.kind with
  | .lexicalDeclaration | .variableDeclaration => declaration.parts.map fun part => (part.child? .name).map text
  | _ => []

def showsArgument (name : String) : Bool := name == "default" || name == "prefault"

def called? (call : Tree) : Option Tree := (call.child? .function).bind fun function => function.unwrap.child? .property

def argument? (call : Tree) : Option Tree := (call.child? .arguments).bind fun list => list.parts.head?

def spelling (t : Tree) : List (List (Option String)) :=
  match t.kind with
  | .identifier | .propertyIdentifier | .shorthandProperty | .shorthandPattern | .stringFragment | .escapeSequence
  | .number | .regexPattern => [[some t.text]]
  | .templateString => if t.parts.any (·.kind == .templateSubstitution) then [] else [[some t.text]]
  | .member => [[(t.child? .property).map text]]
  | .functionDeclaration | .generatorDeclaration | .classDeclaration | .abstractClassDeclaration | .enumDeclaration =>
    [[(t.child? .name).map text]]
  | .importSpecifier => [[(t.child? .name).map text, (t.child? .alias).map text]]
  | .call => if t.called?.any fun property => showsArgument property.text then [[t.argument?.map text]] else []
  | .program => t.parts.map fun statement => (statement.behind?.map heads).getD []
  | _ => []

-- Trees of one shape, but for comments, with the same words in the same places of it. What
-- is said of where two pieces stand in their texts is left open.
inductive Like (places : Tree → Tree → Prop) : Tree → Tree → Prop where
  | node {t u : Tree} : u.kind = t.kind → u.role = t.role → u.spelling = t.spelling → places t u →
      List.Forall₂ (Like places) t.kept u.kept → Like places t u

theorem mem_children_of_kept (listed : child ∈ t.kept) : child ∈ t.children := by
  rcases List.mem_append.mp listed with first | other
  · obtain ⟨found, _⟩ := Option.filter_eq_some_iff.mp (Option.mem_toList.mp first)
    unfold wrapped? at found
    split at found
    · exact List.mem_of_find?_eq_some found
    · cases found
  · exact List.mem_of_mem_filter other

theorem find?_kept {p : Tree → Bool} (other : ∀ c : Tree, c.isSpare = true → p c = false) :
    t.kept.find? p = t.children.find? p := by
  have first : (t.wrapped?.filter isSpare).toList.find? p = none := by
    refine List.find?_eq_none.mpr fun c listed held => ?_
    obtain ⟨_, spare⟩ := Option.filter_eq_some_iff.mp (Option.mem_toList.mp listed)
    exact Bool.false_ne_true ((other c spare).symm.trans held)
  rw [kept, List.find?_append, first, Option.none_or, List.find?_filter]
  congr 1
  funext c
  cases spare : c.isSpare with
  | false => simp
  | true => simp [other c spare]

theorem filter_kept {p : Tree → Bool} (other : ∀ c : Tree, c.isSpare = true → p c = false) :
    t.kept.filter p = t.children.filter p := by
  have first : (t.wrapped?.filter isSpare).toList.filter p = [] := by
    refine List.filter_eq_nil_iff.mpr fun c listed held => ?_
    obtain ⟨_, spare⟩ := Option.filter_eq_some_iff.mp (Option.mem_toList.mp listed)
    exact Bool.false_ne_true ((other c spare).symm.trans held)
  rw [kept, List.filter_append, first, List.nil_append, List.filter_filter]
  refine List.filter_congr fun c _ => ?_
  cases spare : c.isSpare with
  | false => simp
  | true => simp [other c spare]

theorem kind_of_isSpare (spare : t.isSpare = true) : t.kind = .comment := by
  simp only [isSpare, Bool.and_eq_true, beq_iff_eq] at spare
  exact spare.1.1

theorem child?_kept {role : Role} (other : role ≠ .plain) : t.child? role = t.kept.find? (·.role == role) := by
  refine (find?_kept fun c spare => ?_).symm
  simp only [isSpare, Bool.and_eq_true, beq_iff_eq] at spare
  rw [spare.1.2]
  exact beq_eq_false_iff_ne.mpr (Ne.symm other)

theorem parts_kept (t : Tree) : t.parts = t.kept.filter fun c => c.kind != .comment && c.kind.isPart := by
  refine (filter_kept fun c spare => ?_).symm
  rw [kind_of_isSpare spare]
  rfl

theorem wrapped?_kept (wrapper : t.kind.isWrapper = true) :
    t.kept.find? (·.kind.isPart) = t.children.find? (·.kind.isPart) := by
  rw [kept, wrapped?, if_pos wrapper, List.find?_append, List.find?_filter]
  cases found : t.children.find? (·.kind.isPart) with
  | none =>
    rw [List.find?_eq_none] at found
    have none : t.children.find? (fun c => decide ((!c.isSpare) = true ∧ c.kind.isPart = true)) = none :=
      List.find?_eq_none.mpr fun c listed held => found c listed (of_decide_eq_true held).2
    simpa using none
  | some first =>
    cases spare : first.isSpare with
    | true => simp [Option.filter, spare, kind_of_isSpare spare, Kind.isPart]
    | false =>
      have part := List.find?_some found
      obtain ⟨front, back, same, before⟩ := (List.find?_eq_some_iff_append.mp found).2
      have later : t.children.find? (fun c => decide ((!c.isSpare) = true ∧ c.kind.isPart = true)) = some first := by
        refine List.find?_eq_some_iff_append.mpr ⟨by simp [spare, part], front, back, same, fun c listed => ?_⟩
        have other := before c listed
        simp only [Bool.not_eq_true'] at other
        simp [other]
      simpa [Option.filter, spare] using later

theorem unwrap_step (t : Tree) :
    t.unwrap = if t.kind.isWrapper then ((t.children.find? (·.kind.isPart)).map unwrap).getD t else t := by
  rw [unwrap]
  split
  · split <;> simp [*]
  · rfl

theorem declares_any (name : String) (t : Tree) : t.declares name = true ↔
    (t.kind.declaresVariables ∧ (t.parts.any fun part =>
      part.kind == .declarator && (part.child? .name).any (·.binds name)) = true) ∨
    (t.kind.declaresItself ∧ (t.child? .name).any (·.text == name) = true) ∨
    (t.kind = .exportStatement ∧ (t.child? .declaration).any (·.declares name) = true) := by
  rw [declares_step]
  simp [← binds_iff, Option.any_eq_true]

theorem children_induction {P : Tree → Prop} (step : ∀ t : Tree, (∀ c ∈ t.children, P c) → P t) (t : Tree) : P t :=
  step t fun c _ => children_induction step c
termination_by sizeOf t
decreasing_by exact sizeOf_child_lt ‹_›

namespace Like

theorem refl (placed : ∀ t, places t t) (t : Tree) : t.Like places t := by
  induction t using children_induction with
  | step t ih => exact .node rfl rfl rfl (placed t) (List.forall₂_same.mpr fun c listed => ih c (mem_children_of_kept listed))

variable (like : t.Like places u)

include like

theorem kind : u.kind = t.kind := by
  cases like
  assumption

theorem role : u.role = t.role := by
  cases like
  assumption

theorem spelling : u.spelling = t.spelling := by
  cases like
  assumption

theorem placed : places t u := by
  cases like
  assumption

theorem each : List.Forall₂ (fun c d => c ∈ t.children ∧ c.Like places d) t.kept u.kept := by
  cases like with
  | node _ _ _ _ each => exact (List.forall₂_and_left _ _).mpr ⟨fun c listed => mem_children_of_kept listed, each⟩

theorem symm : u.Like (fun t u => places u t) t := by
  induction t using children_induction generalizing u with
  | step t ih =>
    refine .node like.kind.symm like.role.symm like.spelling.symm like.placed ?_
    exact (like.each.imp fun c d here => ih c here.1 here.2).flip

theorem child?_rel (role : Role) (other : role ≠ .plain) :
    Option.Rel (fun c d => c ∈ t.children ∧ c.Like places d) (t.child? role) (u.child? role) := by
  rw [child?_kept other, child?_kept other]
  exact forall₂_find? (fun c d here => by rw [here.2.role]) like.each

theorem parts : List.Forall₂ (fun c d => c ∈ t.children ∧ c.Like places d) t.parts u.parts := by
  rw [parts_kept, parts_kept]
  exact forall₂_filter (fun c d here => by rw [here.2.kind]) like.each

theorem wrapped (wrapper : t.kind.isWrapper = true) : Option.Rel (fun c d => c ∈ t.children ∧ c.Like places d)
    (t.children.find? (·.kind.isPart)) (u.children.find? (·.kind.isPart)) := by
  rw [← wrapped?_kept wrapper, ← wrapped?_kept (like.kind.symm ▸ wrapper)]
  exact forall₂_find? (fun c d here => by rw [here.2.kind]) like.each

theorem text (word : t.kind.isWord = true) : u.text = t.text := by
  have same := like.spelling
  simp only [Kind.isWord, List.mem_cons, List.not_mem_nil, or_false, decide_eq_true_eq] at word
  rcases word with kind | kind | kind | kind | kind | kind | kind | kind
  all_goals simpa [Tree.spelling, kind, like.kind] using same

theorem property (member : t.kind = .member) : (u.child? .property).map Tree.text = (t.child? .property).map Tree.text := by
  have same := like.spelling
  simpa [Tree.spelling, like.kind, member] using same

theorem declared (itself : t.kind.declaresItself) : (u.child? .name).map Tree.text = (t.child? .name).map Tree.text := by
  have same := like.spelling
  simp only [Kind.declaresItself, List.mem_cons, List.not_mem_nil, or_false] at itself
  rcases itself with kind | kind | kind | kind | kind
  all_goals simpa [Tree.spelling, kind, like.kind] using same

theorem specifier (isSpecifier : t.kind = .importSpecifier) :
    (u.child? .name).map Tree.text = (t.child? .name).map Tree.text ∧
      (u.child? .alias).map Tree.text = (t.child? .alias).map Tree.text := by
  have same := like.spelling
  simpa [Tree.spelling, like.kind, isSpecifier] using same

theorem template (isTemplate : t.kind = .templateString)
    (plain : (t.parts.any fun c => c.kind == .templateSubstitution) = false) : u.text = t.text := by
  have same := like.spelling
  have parts : u.parts.any (fun c => c.kind == .templateSubstitution) = t.parts.any fun c => c.kind == .templateSubstitution :=
    forall₂_any (fun c d here => by rw [here.2.kind]) like.parts
  simpa [Tree.spelling, like.kind, isTemplate, parts, plain] using same

theorem child?_any {p : Tree → Bool} {role : Role} (other : role ≠ .plain)
    (same : ∀ c ∈ t.children, ∀ d, c.Like places d → p d = p c) : (u.child? role).any p = (t.child? role).any p :=
  rel_any (fun c d here => same c here.1 d here.2) (like.child?_rel role other)

theorem parts_any {p : Tree → Bool} (same : ∀ c ∈ t.children, ∀ d, c.Like places d → p d = p c) :
    u.parts.any p = t.parts.any p :=
  forall₂_any (fun c d here => same c here.1 d here.2) like.parts

theorem unwrap : t.unwrap.Like places u.unwrap := by
  induction t using children_induction generalizing u with
  | step t ih =>
    rw [unwrap_step t, unwrap_step u, like.kind]
    split
    · rename_i wrapper
      have rel := like.wrapped wrapper
      generalize t.children.find? (·.kind.isPart) = one at rel
      generalize u.children.find? (·.kind.isPart) = two at rel
      cases rel with
      | none => exact like
      | some here => exact ih _ here.1 here.2
    · exact like

theorem stringValue : u.stringValue = t.stringValue := by
  refine congrArg String.join (forall₂_map_eq (fun c d here => ?_) like.parts)
  rw [here.2.kind]
  split
  · rename_i kind
    rw [here.2.text (by rw [kind]; rfl)]
  · rename_i kind
    rw [here.2.text (by rw [kind]; rfl)]
  · rfl

theorem key? : u.key? = t.key? := by
  unfold Tree.key?
  rw [like.kind]
  split
  · rename_i kind
    rw [like.text (by rw [kind]; rfl)]
  · rename_i kind
    rw [like.text (by rw [kind]; rfl)]
  · rename_i kind
    rw [like.text (by rw [kind]; rfl)]
  · rw [like.stringValue]
  · rfl

theorem binds (name : String) : u.binds name = t.binds name := by
  induction t using children_induction generalizing u with
  | step t ih =>
    have below (c : Tree) (listed : c ∈ t.children) (d : Tree) (here : c.Like places d) : d.binds name = c.binds name :=
      ih c listed here
    have own : t.kind.isBound → u.text = t.text := fun bound => like.text (by
      rcases List.mem_pair.mp bound with kind | kind <;> rw [kind] <;> rfl)
    rw [Bool.eq_iff_iff, binds_step, binds_step, exists_spreads_iff, exists_spreads_iff, like.kind, like.parts_any below,
      like.child?_any (by decide) below, like.child?_any (by decide) below, like.child?_any (by decide) below,
      like.child?_any (by decide) below]
    exact or_congr_left (and_congr_right fun bound => by rw [own bound])

theorem declares (name : String) : u.declares name = t.declares name := by
  induction t using children_induction generalizing u with
  | step t ih =>
    have names (c : Tree) (_ : c ∈ t.children) (d : Tree) (here : c.Like places d) :
        (d.kind == .declarator && (d.child? .name).any (·.binds name)) =
          (c.kind == .declarator && (c.child? .name).any (·.binds name)) := by
      rw [here.kind, here.child?_any (by decide) fun _ _ _ pattern => pattern.binds name]
    have itself : t.kind.declaresItself → (u.child? .name).any (·.text == name) = (t.child? .name).any (·.text == name) := by
      intro kind
      simpa [Option.any_map] using congrArg (Option.any (· == name)) (like.declared kind)
    rw [Bool.eq_iff_iff, declares_any, declares_any, like.kind, like.parts_any names,
      like.child?_any (by decide) fun c listed d here => ih c listed here]
    exact or_congr_right (or_congr_left (and_congr_right fun kind => by rw [itself kind]))

theorem rebinds (name : String) : u.rebinds name = t.rebinds name := by
  have binds (c : Tree) (_ : c ∈ t.children) (d : Tree) (here : c.Like places d) : d.binds name = c.binds name :=
    here.binds name
  have declares (c : Tree) (_ : c ∈ t.children) (d : Tree) (here : c.Like places d) : d.declares name = c.declares name :=
    here.declares name
  rw [Bool.eq_iff_iff, rebinds_iff, rebinds_iff, introduces_iff, introduces_iff, like.kind, like.parts_any declares,
    like.child?_any (by decide) binds, like.child?_any (by decide) binds, like.child?_any (by decide) binds,
    like.child?_any (by decide) declares]

end Like

end Tree

section Values

variable {t u : Tree} {places : Tree → Tree → Prop}

theorem mapM_like {f : Tree → Option α} (like : t.Like places u) (same : ∀ c d : Tree, c.Like places d → f d = f c) :
    u.parts.mapM f = t.parts.mapM f := by
  simpa [List.mapM_map] using congrArg (List.mapM id) (forall₂_map_eq (fun c d here => same c d here.2) like.parts)

variable {value? : Tree → Option Json} (same : ∀ t u : Tree, t.Like places u → value? u = value? t)

include same

theorem pairValue?_like (like : t.Like places u) : pairValue? value? u = pairValue? value? t := by
  unfold pairValue?
  rw [like.kind]
  have keys := like.child?_rel .key (by decide)
  have values := like.child?_rel .value (by decide)
  generalize t.child? .key = key at keys
  generalize u.child? .key = key' at keys
  generalize t.child? .value = value at values
  generalize u.child? .value = value' at values
  cases keys with
  | none => rfl
  | some here =>
    cases values with
    | none => simp
    | some given => simp [here.2.key?, same _ _ given.2]

theorem valueOver_like (like : t.Like places u) : valueOver value? u = valueOver value? t := by
  unfold valueOver
  rw [like.kind]
  split
  · rw [like.stringValue]
  · rename_i isTemplate
    rw [like.parts_any fun c _ d here => by rw [here.kind]]
    split
    · rfl
    · rename_i plain
      rw [like.template isTemplate (by simpa using plain)]
  · rename_i number
    rw [like.text (by rw [number]; rfl)]
  · rfl
  · rfl
  · rfl
  · rw [rel_bind_eq (fun c d here => by rw [same c d here.2]) (like.child?_rel _ (by decide))]
  · rw [mapM_like like same]
  · rw [mapM_like like fun c d here => pairValue?_like same here]
  · rfl

omit same

theorem valueWithin_like (levels : Nat) (like : t.Like places u) : valueWithin levels u = valueWithin levels t := by
  induction levels generalizing t u with
  | zero => rfl
  | succ levels ih => rw [valueWithin, valueWithin, valueOver_like (fun _ _ => ih) like.unwrap]

theorem Tree.Like.literal? (like : t.Like places u) : u.literal? = t.literal? := valueWithin_like _ like

end Values

theorem Tree.Like.behind?_rel {t u : Tree} {places : Tree → Tree → Prop} (like : t.Like places u) :
    Option.Rel (Like places) t.behind? u.behind? := by
  unfold behind?
  rw [like.kind]
  split
  · have rel := like.child?_rel .declaration (by decide)
    generalize t.child? .declaration = one at rel
    generalize u.child? .declaration = two at rel
    cases rel with
    | none => exact .none
    | some here => exact .some here.2
  · exact .some like

end Script

namespace Builder

open Script

variable {t u : Tree} {places : Tree → Tree → Prop}

theorem Numbering.add_like (n : Numbering) (like : t.Like places u) : n.add u = n.add t := by
  unfold Numbering.add
  rw [like.kind, like.key?]
  have values := like.child?_rel .value (by decide)
  generalize t.child? .value = value at values
  generalize u.child? .value = value' at values
  cases values with
  | none => rfl
  | some here => simp [here.2.literal?]

theorem enumValues?_like (like : t.Like places u) : enumValues? u = enumValues? t := by
  have steps : u.parts.map (fun member n => Numbering.add n member) = t.parts.map fun member n => Numbering.add n member :=
    forall₂_map_eq (fun c d here => funext fun n => n.add_like here.2) like.parts
  have whole := congrArg (List.foldlM (fun n step => step n) ({} : Numbering)) steps
  rw [List.foldlM_map, List.foldlM_map] at whole
  exact congrArg (Option.map Numbering.values) whole

theorem declaredValues_like (name : String) (like : t.Like places u)
    (written : (u.behind?.map Tree.heads).getD [] = (t.behind?.map Tree.heads).getD []) :
    declaredValues name u = declaredValues name t := by
  have rel := like.behind?_rel
  unfold Tree.behind? at rel written
  unfold declaredValues
  dsimp only
  generalize (if t.kind == .exportStatement then t.child? .declaration else some t) = one at rel written
  generalize (if u.kind == .exportStatement then u.child? .declaration else some u) = two at rel written
  cases rel with
  | none => rfl
  | @some declaration other here =>
    dsimp only
    have variables_ (kind : declaration.kind.declaresVariables) :
        ((other.parts.find? fun d => (d.child? .name).any (·.text == name)).map fun declarator => do
          let members ← (← (← declarator.child? .value).literal?).asObject?
          return Entries.values members) =
        ((declaration.parts.find? fun d => (d.child? .name).any (·.text == name)).map fun declarator => do
          let members ← (← (← declarator.child? .value).literal?).asObject?
          return Entries.values members) := by
      have heads : other.parts.map (fun part => (part.child? .name).map Tree.text) =
          declaration.parts.map fun part => (part.child? .name).map Tree.text := by
        rcases List.mem_pair.mp kind with kind | kind <;> simpa [Tree.heads, here.kind, kind] using written
      refine rel_map_eq (fun c d beside => ?_) (forall₂_find? (fun c d beside => ?_) (forall₂_and_map_eq here.parts heads))
      · exact rel_bind_eq (fun _ _ value => by rw [value.2.literal?]) (beside.1.2.child?_rel _ (by decide))
      · simpa [Option.any_map] using congrArg (Option.any (· == name)) beside.2
    rw [here.kind]
    split
    · rename_i kind
      have named : (other.child? .name).any (·.text == name) = (declaration.child? .name).any (·.text == name) := by
        simpa [Option.any_map] using congrArg (Option.any (· == name)) (here.declared (by simp [kind, Kind.declaresItself]))
      rw [named, rel_bind_eq (fun _ _ body => enumValues?_like body.2) (here.child?_rel _ (by decide))]
    · rename_i kind
      exact variables_ (by simp [kind, Kind.declaresVariables])
    · rename_i kind
      exact variables_ (by simp [kind, Kind.declaresVariables])
    · rfl

theorem namedValues?_like (program : t.kind = .program) (like : t.Like places u) (name : String) :
    namedValues? u name = namedValues? t name := by
  have written := like.spelling
  simp only [Tree.spelling, like.kind, program] at written
  have each := forall₂_and_map_eq like.parts written
  have values : u.parts.map (declaredValues name) = t.parts.map (declaredValues name) :=
    forall₂_map_eq (fun c d here => declaredValues_like name here.1.2 here.2) each
  have whole := congrArg (List.findSome? id) values
  rw [List.findSome?_map, List.findSome?_map] at whole
  exact congrArg Option.join whole

theorem addSpecifier_like (fromBuilder : Bool) (b : Bindings) (like : t.Like places u) :
    b.addSpecifier fromBuilder u = b.addSpecifier fromBuilder t := by
  unfold Bindings.addSpecifier
  rw [like.kind]
  split
  · rfl
  · rename_i isSpecifier
    obtain ⟨names, aliases⟩ := like.specifier (by simpa using isSpecifier)
    generalize t.child? .alias = called at aliases
    generalize u.child? .alias = called' at aliases
    generalize t.child? .name = named at names
    generalize u.child? .name = named' at names
    cases named <;> cases named' <;> cases called <;> cases called' <;> simp_all

theorem addPart_like (fromBuilder : Bool) (b : Bindings) (like : t.Like places u) :
    Bindings.addPart fromBuilder b u = Bindings.addPart fromBuilder b t := by
  unfold Bindings.addPart
  rw [like.kind]
  split
  · rename_i identifier
    rw [like.text (by rw [identifier]; rfl)]
  · have rel := forall₂_find? (p := fun c : Tree => c.kind == .identifier) (q := fun c => c.kind == .identifier)
      (fun c d here => by rw [here.2.kind]) like.parts
    generalize isName : t.parts.find? _ = one at rel
    generalize u.parts.find? _ = two at rel
    cases rel with
    | none => rfl
    | some here =>
      have identifier := List.find?_some isName
      dsimp only
      rw [here.2.text (by rw [eq_of_beq identifier]; rfl)]
  · exact forall₂_foldl_eq (fun c d here b => addSpecifier_like fromBuilder b here.2) like.parts b
  · rfl

theorem addImport_like (settings : ParseSettings) (b : Bindings) (like : t.Like places u) :
    b.addImport settings u = b.addImport settings t := by
  unfold Bindings.addImport
  have sources := like.child?_rel .source (by decide)
  generalize t.child? .source = source at sources
  generalize u.child? .source = source' at sources
  cases sources with
  | none => rfl
  | some here =>
    have clauses := forall₂_filter (p := fun c : Tree => c.kind == .importClause) (q := fun c => c.kind == .importClause)
      (fun c d here => by rw [here.2.kind]) like.parts
    have pieces : List.Forall₂ (Tree.Like places) _ _ :=
      forall₂_flatMap (fun c d here => here.2.parts.imp fun _ _ piece => piece.2) clauses
    dsimp only
    rw [here.2.stringValue]
    refine forall₂_foldl_eq ?_ pieces b
    exact fun c d here b => addPart_like _ b here

theorem importsBuilder_like (settings : ParseSettings) (like : t.Like places u) :
    Bindings.importsBuilder settings u = Bindings.importsBuilder settings t :=
  rel_any (fun c d here => by rw [here.2.stringValue]) (like.child?_rel .source (by decide))

theorem collect_like (settings : ParseSettings) (like : t.Like places u) :
    Bindings.collect settings u = Bindings.collect settings t := by
  have imports := forall₂_filter (p := fun c : Tree => c.kind == .importStatement)
    (q := fun c => c.kind == .importStatement) (fun c d here => by rw [here.2.kind]) like.parts
  unfold Bindings.collect
  dsimp only
  rw [forall₂_foldl_eq (fun c d here b => addImport_like settings b here.2) imports,
    forall₂_any (fun c d here => importsBuilder_like settings here.2) imports]

end Builder
end SchemaAtlas
