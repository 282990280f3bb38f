import SchemaAtlas.Proofs.DeclarationFates
import SchemaAtlas.Proofs.UnplacedTrees

namespace SchemaAtlas

-- Scripts that differ in the initializer of one name and in the places of everything.

namespace Script
namespace Tree

variable {t : Tree} {name : String}

def emptied (t : Tree) (children : List Tree) (plain : t.kind.isName = false) : Tree :=
  { t with location := .start, offset := 0, text := "", children := children, named := by simp [plain] }

@[simp] theorem emptied_parts {children : List Tree} {plain : t.kind.isName = false} : (t.emptied children plain).parts =
    children.filter fun c => c.kind != .comment && c.kind.isPart := rfl

@[simp] theorem emptied_child? {children : List Tree} {plain : t.kind.isName = false} (role : Role) :
    (t.emptied children plain).child? role = children.find? (·.role == role) := rfl

def blank : Tree := { (default : Tree) with role := .value }

def beforeValue (t : Tree) : Tree := if t.role = .value then blank else t.unplaced

def declaresAs (name : String) (t : Tree) : Bool :=
  t.kind == .declarator && (t.child? .name).any fun named => named.kind == .identifier && named.text == name

theorem isName_of_declaresAs (declares : t.declaresAs name = true) : t.kind.isName = false := by
  rw [eq_of_beq (Bool.and_eq_true_iff.mp declares).1]
  rfl

theorem isName_of_declaresVariables {kind : Kind} (declares : kind.declaresVariables) : kind.isName = false := by
  rcases List.mem_pair.mp declares with rfl | rfl <;> rfl

instance (kind : Kind) : Decidable kind.declaresVariables := inferInstanceAs (Decidable (_ ∈ _))

-- What a script says without the initializer of one name, from the declarator up to the
-- script. The text of a piece that the initializer is a part of is left out as well.

def declaratorOutline (name : String) (t : Tree) : Tree :=
  if declares : t.declaresAs name = true then t.emptied (t.children.map beforeValue) (isName_of_declaresAs declares)
  else t.unplaced

def declarationOutline (name : String) (t : Tree) : Tree :=
  if declares : t.kind.declaresVariables then
    t.emptied (t.children.map (declaratorOutline name)) (isName_of_declaresVariables declares)
  else t.unplaced

def exportOutline (name : String) (t : Tree) : Tree :=
  if t.role = .declaration then t.declarationOutline name else t.unplaced

def statementOutline (name : String) (t : Tree) : Tree :=
  if exports : t.kind = .exportStatement then t.emptied (t.children.map (exportOutline name)) (by rw [exports]; rfl)
  else t.declarationOutline name

def outline (name : String) (t : Tree) : Tree :=
  if program : t.kind = .program then t.emptied (t.children.map (statementOutline name)) (by rw [program]; rfl)
  else t.unplaced

theorem beforeValue_role (t : Tree) : t.beforeValue.role = t.role := by
  unfold beforeValue
  split
  · rename_i value
    rw [value]
    rfl
  · exact unplaced_role t

@[simp] theorem declaratorOutline_kind (name : String) (t : Tree) : (t.declaratorOutline name).kind = t.kind := by
  unfold declaratorOutline
  split <;> simp [emptied]

@[simp] theorem declarationOutline_kind (name : String) (t : Tree) : (t.declarationOutline name).kind = t.kind := by
  unfold declarationOutline
  split <;> simp [emptied]

@[simp] theorem declarationOutline_role (name : String) (t : Tree) : (t.declarationOutline name).role = t.role := by
  unfold declarationOutline
  split <;> simp [emptied]

@[simp] theorem exportOutline_role (name : String) (t : Tree) : (t.exportOutline name).role = t.role := by
  unfold exportOutline
  split <;> simp

@[simp] theorem statementOutline_kind (name : String) (t : Tree) : (t.statementOutline name).kind = t.kind := by
  unfold statementOutline
  split <;> simp [emptied]

theorem parts_of_map {f : Tree → Tree} (same : ∀ t, (f t).kind = t.kind) (children : List Tree) :
    ((children.map f).filter fun c => c.kind != .comment && c.kind.isPart) =
      (children.filter fun c => c.kind != .comment && c.kind.isPart).map f := by
  simp [List.filter_map, Function.comp_def, same]

theorem find?_role_map {f : Tree → Tree} (same : ∀ t, (f t).role = t.role) (children : List Tree) (role : Role) :
    (children.map f).find? (·.role == role) = (children.find? (·.role == role)).map f := by
  rw [List.find?_map]
  simp only [Function.comp_def, same]

theorem declarationOutline_parts (declares : t.kind.declaresVariables) :
    (t.declarationOutline name).parts = t.parts.map (declaratorOutline name) := by
  rw [declarationOutline, dif_pos declares, emptied_parts, parts_of_map (declaratorOutline_kind name)]
  rfl

theorem statementOutline_child? (exports : t.kind = .exportStatement) (role : Role) :
    (t.statementOutline name).child? role = (t.child? role).map (exportOutline name) := by
  rw [statementOutline, dif_pos exports, emptied_child?, find?_role_map (exportOutline_role name)]
  rfl

theorem statementOutline_declaration (exports : t.kind = .exportStatement) :
    (t.statementOutline name).child? .declaration = (t.child? .declaration).map (declarationOutline name) := by
  rw [statementOutline_child? exports]
  cases found : t.child? .declaration with
  | none => rfl
  | some inner =>
    have role : inner.role = .declaration := by simpa using List.find?_some found
    exact congrArg some (if_pos role)

theorem statementOutline_other (other : t.kind ≠ .exportStatement) :
    t.statementOutline name = t.declarationOutline name := dif_neg other

theorem statementOutline_behind (name : String) (t : Tree) :
    (if (t.statementOutline name).kind == .exportStatement then (t.statementOutline name).child? .declaration
      else some (t.statementOutline name)) =
    (if t.kind == .exportStatement then t.child? .declaration else some t).map (declarationOutline name) := by
  rw [statementOutline_kind]
  split
  · rename_i exports
    exact statementOutline_declaration (eq_of_beq exports)
  · rename_i plain
    exact congrArg some (statementOutline_other (by simpa using plain))

theorem declaratorOutline_child? (role : Role) (other : role ≠ .value) :
    (t.declaratorOutline name).child? role = (t.child? role).map unplaced := by
  unfold declaratorOutline
  split
  · rw [emptied_child?, find?_role_map beforeValue_role]
    change (t.child? role).map beforeValue = _
    cases found : t.child? role with
    | none => rfl
    | some inner =>
      have named : inner.role = role := by simpa using List.find?_some found
      exact congrArg some (if_neg (named ▸ other))
  · exact unplaced_child? t role

theorem declaratorOutline_other (other : t.declaresAs name = false) : t.declaratorOutline name = t.unplaced := by
  unfold declaratorOutline
  rw [dif_neg (by rw [other]; exact Bool.false_ne_true)]

theorem declarationOutline_declares (name other : String) (t : Tree) :
    (t.declarationOutline name).declares other = t.declares other := by
  by_cases declares : t.kind.declaresVariables
  · have parts : (t.declarationOutline name).parts = _ := declarationOutline_parts declares
    have kind := declarationOutline_kind name t
    have step (u : Tree) (same : u.kind.declaresVariables) : u.declares other =
        u.parts.any fun part => part.kind == .declarator && (part.child? .name).any (·.binds other) := by
      unfold Tree.declares
      rcases List.mem_pair.mp same with kind | kind <;> rw [kind]
    rw [step _ declares, step _ (kind.symm ▸ declares), parts, List.any_map]
    refine List.any_congr rfl fun part => ?_
    simp [declaratorOutline_child?, Option.any_map, unplaced_binds]
  · rw [declarationOutline, dif_neg declares, unplaced_declares]

theorem statementOutline_declares (name other : String) (t : Tree) :
    (t.statementOutline name).declares other = t.declares other := by
  by_cases exports : t.kind = .exportStatement
  · have kind := (statementOutline_kind name t).trans exports
    rw [Bool.eq_iff_iff, declares_step, declares_step, statementOutline_declaration exports]
    simp [exports, Kind.declaresVariables, Kind.declaresItself, declarationOutline_declares]
  · rw [statementOutline_other exports, declarationOutline_declares]

theorem outline_parts (program : t.kind = .program) : (t.outline name).parts = t.parts.map (statementOutline name) := by
  rw [outline, dif_pos program, emptied_parts, parts_of_map (statementOutline_kind name)]
  rfl

theorem outline_kind (name : String) (t : Tree) : (t.outline name).kind = t.kind := by
  unfold outline
  split <;> simp [emptied]

theorem outline_rebinds (program : t.kind = .program) (name other : String) :
    (t.outline name).rebinds other = t.rebinds other := by
  unfold Tree.rebinds
  rw [outline_kind, program]
  dsimp only
  rw [outline_parts program, List.any_map]
  exact List.any_congr rfl fun part => statementOutline_declares name other part

theorem statementOutline_import (isImport : t.kind = .importStatement) : t.statementOutline name = t.unplaced := by
  rw [statementOutline_other (by rw [isImport]; nofun), declarationOutline, dif_neg (by rw [isImport]; decide)]

end Tree
end Script

namespace Builder

open Script

variable {name : String} {t : Tree}

theorem addImport_unplaced (settings : ParseSettings) (b : Bindings) (statement : Tree) :
    b.addImport settings statement.unplaced = b.addImport settings statement :=
  addImport_like settings b statement.like_unplaced

theorem importsBuilder_unplaced (settings : ParseSettings) (statement : Tree) :
    Bindings.importsBuilder settings statement.unplaced = Bindings.importsBuilder settings statement :=
  importsBuilder_like settings statement.like_unplaced

theorem collect_outline (settings : ParseSettings) (name : String) (program : t.kind = .program) :
    Bindings.collect settings (t.outline name) = Bindings.collect settings t := by
  have imports : (t.outline name).parts.filter (·.kind == .importStatement) =
      (t.parts.filter (·.kind == .importStatement)).map Tree.unplaced := by
    rw [Tree.outline_parts program, List.filter_map]
    simp only [Function.comp_def, Tree.statementOutline_kind]
    refine List.map_congr_left fun statement listed => Tree.statementOutline_import ?_
    simpa using (List.mem_filter.mp listed).2
  unfold Bindings.collect
  rw [imports]
  simp only [List.foldl_map, addImport_unplaced, List.any_map, Function.comp_def, importsBuilder_unplaced]

theorem declarationOutline_values {other : String} (apart : other ≠ name) {declaration : Tree}
    (declares : declaration.kind.declaresVariables) :
    ((declaration.declarationOutline name).parts.find? fun d => (d.child? .name).any (·.text == other)) =
      (declaration.parts.find? fun d => (d.child? .name).any (·.text == other)).map Tree.unplaced := by
  rw [Tree.declarationOutline_parts declares, List.find?_map]
  have same : ((fun d => (d.child? .name).any (·.text == other)) ∘ Tree.declaratorOutline name) =
      fun d => (d.child? .name).any (·.text == other) := by
    funext d
    simp [Tree.declaratorOutline_child?, Option.any_map]
  rw [same]
  cases found : declaration.parts.find? fun d => (d.child? .name).any (·.text == other) with
  | none => rfl
  | some d =>
    refine congrArg some (Tree.declaratorOutline_other ?_)
    have named := List.find?_some found
    cases stands : d.child? .name with
    | none => simp [Tree.declaresAs, stands]
    | some bound =>
      have text : bound.text = other := by simpa [stands] using named
      simp [Tree.declaresAs, stands, text, apart]

theorem statementOutline_values {other : String} (apart : other ≠ name) (statement : Tree) :
    declaredValues other (statement.statementOutline name) = declaredValues other statement := by
  unfold declaredValues
  dsimp only
  rw [statement.statementOutline_behind name]
  cases (if statement.kind == .exportStatement then statement.child? .declaration else some statement) with
  | none => rfl
  | some declaration =>
    rw [Option.map_some]
    dsimp only
    rw [Tree.declarationOutline_kind]
    by_cases declares : declaration.kind.declaresVariables
    · rw [declarationOutline_values apart declares]
      rcases List.mem_pair.mp declares with kind | kind
      all_goals
        rw [kind]
        dsimp only
        cases declaration.parts.find? fun d => (d.child? .name).any (·.text == other) with
        | none => rfl
        | some d => cases found : d.child? .value <;> simp [found, Tree.unplaced_literal?]
    · have plain : declaration.declarationOutline name = declaration.unplaced := dif_neg declares
      rw [plain]
      split
      · simp only [Tree.unplaced_child?, Option.any_map, Tree.unplaced_text, Option.bind_map, Function.comp_def, enumValues?_unplaced]
      · rename_i kind
        exact absurd (by rw [kind]; decide) declares
      · rename_i kind
        exact absurd (by rw [kind]; decide) declares
      · rfl

theorem outline_values {other : String} (apart : other ≠ name) (program : t.kind = .program) :
    namedValues? (t.outline name) other = namedValues? t other := by
  rw [namedValues?, namedValues?, Tree.outline_parts program, List.findSome?_map]
  exact congrArg (fun f => (t.parts.findSome? f).join) (funext (statementOutline_values apart))

end Builder
end SchemaAtlas
