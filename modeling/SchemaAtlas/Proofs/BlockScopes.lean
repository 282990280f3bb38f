import Mathlib.Logic.Relation
import SchemaAtlas.Proofs.ScriptScopes
import SchemaAtlas.Script.Grammar.Modules

namespace SchemaAtlas
namespace Script

-- Which scopes bind a name anew, said of the tree alone.

namespace Kind

def isBound (kind : Kind) : Prop := kind ∈ [identifier, shorthandPattern]

def listsPatterns (kind : Kind) : Prop :=
  kind ∈ [formalParameters, objectPattern, arrayPattern, restPattern, lexicalDeclaration, variableDeclaration]

def takesParameters (kind : Kind) : Prop :=
  kind ∈ [arrowFunction, functionDeclaration, functionExpression, generatorFunction, generatorDeclaration, method]

def declaresVariables (kind : Kind) : Prop := kind ∈ [lexicalDeclaration, variableDeclaration]

def declaresItself (kind : Kind) : Prop :=
  kind ∈ [functionDeclaration, generatorDeclaration, classDeclaration, abstractClassDeclaration, enumDeclaration]

def isBlock (kind : Kind) : Prop := kind ∈ [statementBlock, program, classBody, switchBody]

end Kind

namespace Tree

variable {t inner scope : Tree} {name : String}

-- One step down a pattern, to a piece of it that may bind names. A default, a key or a
-- type is no such piece.
inductive Spreads : Tree → Tree → Prop where
  | parameter {t inner : Tree} : t.kind = .requiredParameter ∨ t.kind = .optionalParameter →
      t.child? .pattern = some inner → Spreads t inner
  | value {t inner : Tree} : t.kind = .pairPattern → t.child? .value = some inner → Spreads t inner
  | left {t inner : Tree} : t.kind = .assignmentPattern ∨ t.kind = .objectAssignmentPattern →
      t.child? .left = some inner → Spreads t inner
  | declarator {t inner : Tree} : t.kind = .declarator → t.child? .name = some inner → Spreads t inner
  | part {t inner : Tree} : t.kind.listsPatterns → inner ∈ t.parts → Spreads t inner

def Binds (name : String) (t : Tree) : Prop :=
  ∃ leaf, Relation.ReflTransGen Spreads t leaf ∧ leaf.kind.isBound ∧ leaf.text = name

inductive Declares (name : String) : Tree → Prop where
  | declarator {t part pattern : Tree} : t.kind.declaresVariables → part ∈ t.parts → part.kind = .declarator →
      part.child? .name = some pattern → pattern.Binds name → Declares name t
  | itself {t named : Tree} : t.kind.declaresItself → t.child? .name = some named → named.text = name →
      Declares name t
  | exported {t inner : Tree} : t.kind = .exportStatement → t.child? .declaration = some inner → Declares name inner →
      Declares name t

-- A scope that binds the name: through its parameters, in its header, or by a statement
-- that stands directly in it.
inductive Introduces (name : String) (scope : Tree) : Prop where
  | parameters {pattern : Tree} (role : Role) : scope.kind.takesParameters → role = .parameters ∨ role = .parameter →
      scope.child? role = some pattern → pattern.Binds name → Introduces name scope
  | caught {pattern : Tree} : scope.kind = .catchClause → scope.child? .parameter = some pattern → pattern.Binds name →
      Introduces name scope
  | counter {start : Tree} : scope.kind = .forStatement → scope.child? .initializer = some start → start.Declares name →
      Introduces name scope
  | element {target : Tree} : scope.kind = .forInStatement → scope.child? .left = some target → target.Binds name →
      Introduces name scope
  | statement {statement : Tree} : scope.kind.isBlock → statement ∈ scope.parts → statement.Declares name →
      Introduces name scope

def DeclaresInClause (name : String) (scope : Tree) : Prop :=
  scope.kind = .switchBody ∧ ∃ clause ∈ scope.parts, clause.kind = .other "switch_case" ∧
    ∃ statement ∈ clause.parts, statement.Declares name

theorem Spreads.sizeOf_lt (spreads : Spreads t inner) : sizeOf inner < sizeOf t := by
  cases spreads with
  | parameter _ found => exact sizeOf_role_lt found
  | value _ found => exact sizeOf_role_lt found
  | left _ found => exact sizeOf_role_lt found
  | declarator _ found => exact sizeOf_role_lt found
  | part _ listed => exact sizeOf_child_lt (mem_children_of_parts listed)

theorem exists_spreads_iff {p : Tree → Bool} : (∃ inner, Spreads t inner ∧ p inner = true) ↔
    ((t.kind = .requiredParameter ∨ t.kind = .optionalParameter) ∧ (t.child? .pattern).any p = true) ∨
    (t.kind = .pairPattern ∧ (t.child? .value).any p = true) ∨
    ((t.kind = .assignmentPattern ∨ t.kind = .objectAssignmentPattern) ∧ (t.child? .left).any p = true) ∨
    (t.kind = .declarator ∧ (t.child? .name).any p = true) ∨
    (t.kind.listsPatterns ∧ t.parts.any p = true) := by
  simp only [Option.any_eq_true, List.any_eq_true]
  constructor
  · rintro ⟨inner, spreads, binds⟩
    cases spreads with
    | parameter kind found => exact .inl ⟨kind, inner, found, binds⟩
    | value kind found => exact .inr (.inl ⟨kind, inner, found, binds⟩)
    | left kind found => exact .inr (.inr (.inl ⟨kind, inner, found, binds⟩))
    | declarator kind found => exact .inr (.inr (.inr (.inl ⟨kind, inner, found, binds⟩)))
    | part kind listed => exact .inr (.inr (.inr (.inr ⟨kind, inner, listed, binds⟩)))
  · rintro (⟨kind, inner, found, binds⟩ | ⟨kind, inner, found, binds⟩ | ⟨kind, inner, found, binds⟩ |
      ⟨kind, inner, found, binds⟩ | ⟨kind, inner, listed, binds⟩)
    · exact ⟨inner, .parameter kind found, binds⟩
    · exact ⟨inner, .value kind found, binds⟩
    · exact ⟨inner, .left kind found, binds⟩
    · exact ⟨inner, .declarator kind found, binds⟩
    · exact ⟨inner, .part kind listed, binds⟩

theorem binds_step : t.binds name = true ↔
    t.kind.isBound ∧ t.text = name ∨ ∃ inner, Spreads t inner ∧ inner.binds name = true := by
  rw [exists_spreads_iff, binds]
  simp only [Kind.isBound, Kind.listsPatterns]
  split
  case h_15 => simp_all
  all_goals
    simp only [*, List.mem_cons, reduceCtorEq, List.not_mem_nil, or_false, false_or, or_true, false_and, true_and]
  all_goals first
    | done
    | split <;> simp [*]
    | simp

theorem binds_iff : t.binds name = true ↔ t.Binds name := by
  constructor
  · intro binds
    induction size : sizeOf t using Nat.strongRecOn generalizing t with
    | ind _ ih =>
      rcases binds_step.mp binds with ⟨kind, text⟩ | ⟨inner, spreads, below⟩
      · exact ⟨t, .refl, kind, text⟩
      · obtain ⟨leaf, path, bound⟩ := ih _ (size ▸ spreads.sizeOf_lt) below rfl
        exact ⟨leaf, .head spreads path, bound⟩
  · rintro ⟨leaf, path, bound⟩
    induction path using Relation.ReflTransGen.head_induction_on with
    | refl => exact binds_step.mpr (.inl bound)
    | head spreads _ ih => exact binds_step.mpr (.inr ⟨_, spreads, ih⟩)

theorem declares_step : t.declares name = true ↔
    (t.kind.declaresVariables ∧ ∃ part ∈ t.parts, part.kind = .declarator ∧ ∃ pattern, part.child? .name = some pattern ∧
      pattern.Binds name) ∨
    (t.kind.declaresItself ∧ ∃ named, t.child? .name = some named ∧ named.text = name) ∨
    (t.kind = .exportStatement ∧ ∃ inner, t.child? .declaration = some inner ∧ inner.declares name = true) := by
  rw [declares]
  simp only [Kind.declaresVariables, Kind.declaresItself, ← binds_iff]
  split
  case h_8 => split <;> simp [*]
  case h_9 => simp_all
  all_goals simp [*, Option.any_eq_true]

theorem declares_iff : t.declares name = true ↔ t.Declares name := by
  constructor
  · intro declares
    induction size : sizeOf t using Nat.strongRecOn generalizing t with
    | ind _ ih =>
      rcases declares_step.mp declares with ⟨kind, part, listed, variable_, pattern, found, binds⟩ | ⟨kind, named, found, text⟩ |
        ⟨kind, inner, found, below⟩
      · exact .declarator kind listed variable_ found binds
      · exact .itself kind found text
      · exact .exported kind found (ih _ (size ▸ sizeOf_role_lt found) below rfl)
  · intro declares
    induction declares with
    | declarator kind listed variable_ found binds =>
      exact declares_step.mpr (.inl ⟨kind, _, listed, variable_, _, found, binds⟩)
    | itself kind found text => exact declares_step.mpr (.inr (.inl ⟨kind, _, found, text⟩))
    | exported kind found _ ih => exact declares_step.mpr (.inr (.inr ⟨kind, _, found, ih⟩))

theorem introduces_iff : scope.Introduces name ↔
    (scope.kind.takesParameters ∧ ((scope.child? .parameters).any (·.binds name) = true ∨
      (scope.child? .parameter).any (·.binds name) = true)) ∨
    (scope.kind = .catchClause ∧ (scope.child? .parameter).any (·.binds name) = true) ∨
    (scope.kind = .forStatement ∧ (scope.child? .initializer).any (·.declares name) = true) ∨
    (scope.kind = .forInStatement ∧ (scope.child? .left).any (·.binds name) = true) ∨
    (scope.kind.isBlock ∧ scope.parts.any (·.declares name) = true) := by
  simp only [Option.any_eq_true, List.any_eq_true, binds_iff, declares_iff]
  constructor
  · rintro (⟨role, kind, rfl | rfl, found, binds⟩ | ⟨kind, found, binds⟩ | ⟨kind, found, declares⟩ |
      ⟨kind, found, binds⟩ | ⟨kind, listed, declares⟩)
    · exact .inl ⟨kind, .inl ⟨_, found, binds⟩⟩
    · exact .inl ⟨kind, .inr ⟨_, found, binds⟩⟩
    · exact .inr (.inl ⟨kind, _, found, binds⟩)
    · exact .inr (.inr (.inl ⟨kind, _, found, declares⟩))
    · exact .inr (.inr (.inr (.inl ⟨kind, _, found, binds⟩)))
    · exact .inr (.inr (.inr (.inr ⟨kind, _, listed, declares⟩)))
  · rintro (⟨kind, ⟨pattern, found, binds⟩ | ⟨pattern, found, binds⟩⟩ | ⟨kind, pattern, found, binds⟩ |
      ⟨kind, start, found, declares⟩ | ⟨kind, target, found, binds⟩ | ⟨kind, statement, listed, declares⟩)
    · exact .parameters .parameters kind (.inl rfl) found binds
    · exact .parameters .parameter kind (.inr rfl) found binds
    · exact .caught kind found binds
    · exact .counter kind found declares
    · exact .element kind found binds
    · exact .statement kind listed declares

theorem rebinds_iff : scope.rebinds name = true ↔ scope.Introduces name := by
  rw [introduces_iff, rebinds]
  simp only [Kind.takesParameters, Kind.isBlock]
  split
  case h_14 => simp_all
  all_goals simp [*]

theorem not_introduces_of_clauses (body : scope.kind = .switchBody)
    (clauses : ∀ clause ∈ scope.parts, clause.kind = .other "switch_case") : ¬ scope.Introduces name := by
  intro introduces
  cases introduces with
  | parameters _ kind _ _ _ => simp [body, Kind.takesParameters] at kind
  | caught kind _ _ => cases body.symm.trans kind
  | counter kind _ _ => cases body.symm.trans kind
  | element kind _ _ => cases body.symm.trans kind
  | statement _ listed declares =>
    -- The statements stand one step further down, in the clauses.
    have other := clauses _ listed
    cases declares with
    | declarator kind _ _ _ _ => simp [other, Kind.declaresVariables] at kind
    | itself kind _ _ => simp [other, Kind.declaresItself] at kind
    | exported kind _ _ => cases other.symm.trans kind

instance : Decidable (scope.Declares name) := decidable_of_iff _ declares_iff

instance : Decidable (scope.DeclaresInClause name) := inferInstanceAs (Decidable (_ ∧ ∃ clause ∈ scope.parts, _))

end Tree

namespace Site

variable {s use scope : Site} {t : Tree} {name : String}

def Encloses (scope use : Site) : Prop := ∃ child ∈ scope.tree.children, use ∈ (scope.down child).preorder

theorem above_of_mem_preorder (inside : use ∈ s.preorder) : ∀ t ∈ s.above, t ∈ use.above := by
  induction s using down_induction with
  | step s ih =>
    rw [preorder_eq] at inside
    rcases List.mem_cons.mp inside with rfl | deeper
    · exact fun t listed => listed
    · obtain ⟨child, listed, inside⟩ := List.mem_flatMap.mp deeper
      exact fun t above => ih child listed inside t (List.mem_cons_of_mem _ above)

theorem Encloses.mem_above (encloses : scope.Encloses use) : scope.tree ∈ use.above := by
  obtain ⟨child, _, inside⟩ := encloses
  exact above_of_mem_preorder inside _ List.mem_cons_self

theorem mem_above_iff (inside : use ∈ s.preorder) :
    t ∈ use.above ↔ t ∈ s.above ∨ ∃ scope ∈ s.preorder, scope.Encloses use ∧ scope.tree = t := by
  constructor
  · intro above
    induction s using down_induction with
    | step s ih =>
      have here := inside
      rw [preorder_eq] at here
      rcases List.mem_cons.mp here with rfl | deeper
      · exact .inl above
      · obtain ⟨child, listed, within⟩ := List.mem_flatMap.mp deeper
        rcases ih child listed within with higher | ⟨scope, between, encloses, same⟩
        · rcases List.mem_cons.mp higher with rfl | beyond
          · exact .inr ⟨s, mem_preorder_self s, ⟨child, listed, within⟩, rfl⟩
          · exact .inl beyond
        · exact .inr ⟨scope, (preorder_down_sublist listed).subset between, encloses, same⟩
  · rintro (above | ⟨scope, _, encloses, rfl⟩)
    · exact above_of_mem_preorder inside t above
    · exact encloses.mem_above

-- Shadowing follows the scopes around a site: a name is shadowed where a scope that encloses
-- the site binds it, in whatever way scopes do, and nowhere else.
theorem isShadowed_iff_introduces (inside : use ∈ (root program).preorder) (name : String) :
    use.isShadowed name = true ↔
      ∃ scope ∈ (root program).preorder, scope.Encloses use ∧ scope.tree.Introduces name := by
  have around : ∀ t, t ∈ use.above ↔ ∃ scope ∈ (root program).preorder, scope.Encloses use ∧ scope.tree = t :=
    fun t => (mem_above_iff inside).trans (or_iff_right List.not_mem_nil)
  rw [isShadowed, List.any_eq_true]
  constructor
  · rintro ⟨t, above, rebinds⟩
    obtain ⟨scope, listed, encloses, rfl⟩ := (around t).mp above
    exact ⟨scope, listed, encloses, Tree.rebinds_iff.mp rebinds⟩
  · rintro ⟨scope, listed, encloses, introduces⟩
    exact ⟨scope.tree, (around _).mpr ⟨scope, listed, encloses, rfl⟩, Tree.rebinds_iff.mpr introduces⟩

def destructuringScript : String := "let f=([{a:z=1}])=>z.int()"

theorem isShadowed_iff_introduces_destructured : ∃ use ∈ (root (parse destructuringScript)).preorder,
    use.text = "z" ∧ use.location = { line := 1, column := 20 } ∧ use.isShadowed "z" = true ∧
    ∃ scope ∈ (root (parse destructuringScript)).preorder, scope.Encloses use ∧ scope.tree.Introduces "z" := by
  have shadowed : ∃ use ∈ (root (parse destructuringScript)).preorder,
      use.text = "z" ∧ use.location = { line := 1, column := 20 } ∧ use.isShadowed "z" = true := by decide +kernel
  obtain ⟨use, inside, text, place, shadowed⟩ := shadowed
  exact ⟨use, inside, text, place, shadowed, (isShadowed_iff_introduces inside "z").mp shadowed⟩

-- A declaration in a clause shadows nothing, not even in the clause itself.
def clauseScript : String := "switch(x){case 1:let z=f();z.int()}"

theorem isShadowed_unseen_in_clause : ∃ use ∈ (root (parse clauseScript)).preorder,
    use.kind = .identifier ∧ use.text = "z" ∧ use.location = { line := 1, column := 28 } ∧
    use.isShadowed "z" = false ∧
    ∃ scope ∈ (root (parse clauseScript)).preorder, scope.Encloses use ∧ scope.tree.DeclaresInClause "z" := by
  have unseen : ∃ use ∈ (root (parse clauseScript)).preorder,
      (use.kind = .identifier ∧ use.text = "z" ∧ use.location = { line := 1, column := 28 }) ∧
      use.isShadowed "z" = false ∧ ∃ t ∈ use.above, t.DeclaresInClause "z" := by decide +kernel
  obtain ⟨use, inside, ⟨identifier, text, place⟩, unseen, t, above, declares⟩ := unseen
  rcases (mem_above_iff inside).mp above with beyond | ⟨scope, listed, encloses, rfl⟩
  · cases beyond
  · exact ⟨use, inside, identifier, text, place, unseen, scope, listed, encloses, declares⟩

end Site
end Script
end SchemaAtlas
