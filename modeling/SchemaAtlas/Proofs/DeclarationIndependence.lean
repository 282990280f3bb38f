import SchemaAtlas.Proofs.AlikeLowering
import SchemaAtlas.Proofs.RaisedCeiling
import SchemaAtlas.Proofs.ScriptOutlines

namespace SchemaAtlas

-- Two scripts that differ in the initializer of one name give the same schema under every
-- other name that both of them contribute.

namespace Script

theorem parse_kind (text : String) : (parse text).kind = .program := by
  unfold parse
  dsimp only
  split <;> rfl

namespace Tree

variable {t : Tree} {name : String}

def initializer? (declarator : Tree) : Option (String × Tree) := do
  let name ← declarator.child? .name
  let value ← declarator.child? .value
  if name.kind == .identifier then some (name.text, value) else none

def initializers (declaration : Tree) : List (String × Tree) :=
  if declaration.kind.declaresVariables then
    (declaration.parts.filter (·.kind == .declarator)).filterMap initializer?
  else []

def initializersBehind (statement : Tree) : List (String × Tree) :=
  ((if statement.kind == .exportStatement then statement.child? .declaration else some statement).map initializers).getD []

def besides (name : String) (entry : String × Tree) : Option (String × Tree) :=
  if entry.1 = name then none else some (entry.1, entry.2.unplaced)

theorem initializer?_unplaced (declarator : Tree) :
    declarator.unplaced.initializer?.bind (besides name) = declarator.initializer?.bind (besides name) := by
  unfold initializer?
  rw [unplaced_child?, unplaced_child?]
  cases declarator.child? .name with
  | none => rfl
  | some named =>
    cases declarator.child? .value with
    | none => rfl
    | some value => by_cases identifier : named.kind = .identifier <;> simp [identifier, besides]

theorem initializer?_of_declaresAs
    (declares : (t.child? .name).any (fun named => named.kind == .identifier && named.text == name) = true) :
    t.initializer?.bind (besides name) = none := by
  unfold initializer?
  cases found : t.child? .name with
  | none => rfl
  | some named =>
    rw [found, Option.any_some, Bool.and_eq_true, beq_iff_eq, beq_iff_eq] at declares
    cases t.child? .value with
    | none => rfl
    | some value => simp [declares, besides]

theorem initializer?_outline (name : String) (declarator : Tree) :
    (declarator.declaratorOutline name).initializer?.bind (besides name) = declarator.initializer?.bind (besides name) := by
  cases declares : declarator.declaresAs name with
  | false => rw [declaratorOutline_other declares, initializer?_unplaced]
  | true =>
    have named := (Bool.and_eq_true_iff.mp declares).2
    rw [initializer?_of_declaresAs named, initializer?_of_declaresAs]
    simpa [declaratorOutline_child?, Option.any_map] using named

theorem initializers_outline (name : String) (declaration : Tree) :
    (declaration.declarationOutline name).initializers.filterMap (besides name) =
      declaration.initializers.filterMap (besides name) := by
  unfold initializers
  rw [declarationOutline_kind]
  split
  · rename_i declares
    rw [declarationOutline_parts declares, List.filterMap_filterMap, List.filterMap_filterMap, List.filter_map,
      List.filterMap_map]
    simp only [Function.comp_def, declaratorOutline_kind, initializer?_outline]
  · rfl

theorem initializersBehind_outline (name : String) (statement : Tree) :
    (statement.statementOutline name).initializersBehind.filterMap (besides name) =
      statement.initializersBehind.filterMap (besides name) := by
  unfold initializersBehind
  rw [statementOutline_behind]
  cases (if statement.kind == .exportStatement then statement.child? .declaration else some statement) with
  | none => rfl
  | some declaration => exact initializers_outline name declaration

theorem initialized_outline (program : t.kind = .program) (name : String) :
    ((t.outline name).parts.flatMap initializersBehind).filterMap (besides name) =
      (t.parts.flatMap initializersBehind).filterMap (besides name) := by
  rw [outline_parts program, List.flatMap_map, List.filterMap_flatMap, List.filterMap_flatMap]
  simp only [initializersBehind_outline]

end Tree
end Script

namespace Builder

open Script

variable {settings : ParseSettings} {root one two : Tree} {name : String} {d e : Declaration}

def Declaration.entry (d : Declaration) : String × Tree := (d.name, d.value.tree)

theorem ofDeclarator?_entry (exported : Bool) (s : Site) :
    (Declaration.ofDeclarator? exported s).map Declaration.entry = s.tree.initializer? := by
  unfold Declaration.ofDeclarator? Tree.initializer? Site.child?
  cases s.tree.child? .name with
  | none => rfl
  | some named =>
    cases s.tree.child? .value with
    | none => rfl
    | some value =>
      by_cases identifier : named.kind = .identifier <;>
        simp [identifier, Site.kind, Site.text, Site.down, Declaration.entry]

theorem declarators_entries (exported : Bool) (s : Site) :
    ((Declaration.declarators s).filterMap (Declaration.ofDeclarator? exported)).map Declaration.entry =
      s.tree.initializers := by
  have given : (s.parts.filter (·.kind == .declarator)).filterMap
      (fun part => (Declaration.ofDeclarator? exported part).map Declaration.entry) =
      (s.tree.parts.filter (·.kind == .declarator)).filterMap Tree.initializer? := by
    simp only [ofDeclarator?_entry, Site.parts, List.filter_map, List.filterMap_map, Function.comp_def]
    rfl
  rw [List.map_filterMap]
  by_cases declares : s.tree.kind.declaresVariables
  · rw [Tree.initializers, if_pos declares, ← given]
    rcases List.mem_pair.mp declares with kind | kind <;> simp only [Declaration.declarators, Site.kind, kind]
  · rw [Tree.initializers, if_neg declares]
    unfold Declaration.declarators
    split
    · exact absurd (.inl (by assumption)) (mt List.mem_pair.mpr declares)
    · exact absurd (.inr (by assumption)) (mt List.mem_pair.mpr declares)
    · rfl

theorem initialized_entries (root : Tree) :
    (Declaration.initialized root).map Declaration.entry = root.parts.flatMap Tree.initializersBehind := by
  unfold Declaration.initialized
  rw [List.map_flatMap, Site.parts, List.flatMap_map]
  refine List.flatMap_congr fun statement _ => ?_
  unfold Declaration.ofStatement? Tree.initializersBehind
  by_cases exports : statement.kind = .exportStatement
  · simp only [Site.down, Site.kind, exports, Site.child?]
    cases statement.child? .declaration with
    | none => rfl
    | some declaration => exact declarators_entries true _
  · have other : (statement.kind == Kind.exportStatement) = false := by simpa using exports
    rw [other]
    split
    · rename_i found
      split at found
      · exact absurd (by assumption) exports
      · cases found
        exact declarators_entries false _
    · rename_i found
      split at found
      · exact absurd (by assumption) exports
      · cases found

theorem find?_of_unique {seen : List String} {all : List Declaration} (kept : d ∈ (Declaration.unique seen all).1) :
    all.find? (·.name == d.name) = some d := by
  induction all generalizing seen with
  | nil => cases kept
  | cons first rest ih =>
    have later (inner : d ∈ (Declaration.unique (first.name :: seen) rest).1) :
        (first :: rest).find? (·.name == d.name) = some d := by
      have fresh := (unique_names _ _).2 d inner
      rw [List.find?_cons_of_neg (by simpa using fun same : first.name = d.name => fresh (same ▸ List.mem_cons_self))]
      exact ih inner
    unfold Declaration.unique at kept
    dsimp only at kept
    split at kept
    · exact later kept
    · rcases List.mem_cons.mp kept with rfl | inner
      · simp
      · exact later inner

theorem find?_declared (declared : d ∈ (Survey.ofTree settings root).declarations) :
    (Declaration.initialized root).find? (·.name == d.name) = some d := by
  have first := find?_of_unique declared
  have accepted := (List.mem_filter.mp (List.mem_of_find?_eq_some first)).2
  unfold Declaration.find at first
  rw [List.find?_filter] at first
  refine Eq.trans (congrArg (List.find? · _) (funext fun other => ?_)) first
  by_cases same : other.name = d.name
  · simpa [same] using accepted
  · simp [same]

theorem find?_besides {other : String} (apart : other ≠ name) (all : List Declaration) :
    ((all.map Declaration.entry).filterMap (Tree.besides name)).find? (·.1 == other) =
      (all.find? (·.name == other)).map fun d => (d.name, d.value.tree.unplaced) := by
  induction all with
  | nil => rfl
  | cons first rest ih =>
    by_cases own : first.name = name
    · have skipped : ¬ (first.name == other) = true := by simpa [own] using apart.symm
      rw [List.find?_cons_of_neg (p := fun d : Declaration => d.name == other) skipped, ← ih, List.map_cons,
        List.filterMap_cons_none (by simp [Tree.besides, Declaration.entry, own])]
    · rw [List.map_cons, List.filterMap_cons_some (b := (first.name, first.value.tree.unplaced))
        (by simp [Tree.besides, Declaration.entry, own]), List.find?_cons, List.find?_cons, ih]
      dsimp only
      split <;> rfl

section Beside

variable (program : one.kind = .program) (same : one.outline name = two.outline name)

include program same

theorem program_of_outline : two.kind = .program := by rw [← Tree.outline_kind name, ← same, Tree.outline_kind, program]

theorem initialized_besides :
    ((Declaration.initialized one).map Declaration.entry).filterMap (Tree.besides name) =
      ((Declaration.initialized two).map Declaration.entry).filterMap (Tree.besides name) := by
  rw [initialized_entries, initialized_entries, ← Tree.initialized_outline program,
    ← Tree.initialized_outline (program_of_outline program same), same]

theorem unplaced_declared (first : d ∈ (Survey.ofTree settings one).declarations)
    (second : e ∈ (Survey.ofTree settings two).declarations) (names : e.name = d.name) (apart : d.name ≠ name) :
    d.value.tree.unplaced = e.value.tree.unplaced := by
  have found := find?_besides apart (Declaration.initialized one)
  rw [initialized_besides program same, find?_besides apart, find?_declared first, ← names, find?_declared second] at found
  exact (Prod.mk.inj (Option.some.inj found)).2.symm

end Beside

theorem initialized_isShadowed (listed : d ∈ Declaration.initialized root) (other : String) :
    d.value.isShadowed other = root.rebinds other := by
  obtain ⟨statement, part, exposes⟩ := initialized_exposes listed
  obtain ⟨tree, _, rfl⟩ := List.mem_map.mp part
  rw [exposes.reaches.isShadowed]
  simp [Site.isShadowed, Site.down, Site.root]

theorem declared_initialized (declared : d ∈ (Survey.ofTree settings root).declarations) : d ∈ Declaration.initialized root :=
  List.mem_of_mem_filter (mem_of_mem_unique declared)

-- Two scripts are compared under the imports that they have in common, and every name but
-- one has the same values in both.
def besideName (b : Bindings) (name : String) : Comparison :=
  { places := fun _ _ => True, bindings := b, known := fun other => other ≠ name, stops := fun _ => True }

theorem besideName_sound (b : Bindings) (name : String) : (besideName b name).Sound :=
  ⟨.inr fun _ => trivial, fun _ _ => trivial⟩

section Schemas

-- `name` is not listed as an enumeration by any other initializer.
variable (program : one.kind = .program) (same : one.outline name = two.outline name)
  (unlisted : ∀ d ∈ Declaration.initialized one, d.name ≠ name →
    ∀ inner ∈ d.value.preorder, ¬ (Bindings.collect settings one).Enumerates inner name)

include program same

theorem collect_same : Bindings.collect settings two = Bindings.collect settings one := by
  rw [← collect_outline settings name program, same, collect_outline settings name (program_of_outline program same)]

theorem context_beside : (besideName (.collect settings one) name).Beside
    ((Survey.ofTree settings one).context settings) ((Survey.ofTree settings two).context settings) := by
  refine ⟨rfl, collect_same program same, rfl, Nat.le_refl _, fun other apart => ?_⟩
  change namedValues? two other = namedValues? one other
  rw [← outline_values apart program, same, outline_values apart (program_of_outline program same)]

include unlisted

theorem value_alike (first : d ∈ (Survey.ofTree settings one).declarations)
    (second : e ∈ (Survey.ofTree settings two).declarations) (names : e.name = d.name) (apart : d.name ≠ name) :
    d.value.Alike (besideName (.collect settings one) name).likeness e.value := by
  refine ⟨.of_unplaced (unplaced_declared program same first second names apart), fun other => ?_, ?_⟩
  · rw [initialized_isShadowed (declared_initialized first), initialized_isShadowed (declared_initialized second),
      ← Tree.outline_rebinds program name, same, Tree.outline_rebinds (program_of_outline program same)]
  · refine fun inner within => ⟨trivial, fun other enumerates own => ?_⟩
    exact unlisted d (declared_initialized first) apart inner within (own ▸ enumerates)

theorem lowered_same (first : d ∈ (Survey.ofTree settings one).declarations)
    (second : e ∈ (Survey.ofTree settings two).declarations) (names : e.name = d.name) (apart : d.name ≠ name)
    (lowers : lowerExpression ((Survey.ofTree settings one).context settings) d.value = .ok node)
    (beside : lowerExpression ((Survey.ofTree settings two).context settings) e.value = .ok twin) : twin = node := by
  have sizes : d.value.tree.preorder.length = e.value.tree.preorder.length := by
    rw [← Tree.length_preorder_unplaced, unplaced_declared program same first second names apart,
      Tree.length_preorder_unplaced]
  have kept := (lowerWithin_alike (besideName_sound _ name) (Nat.le_of_eq sizes)
    (value_alike program same unlisted first second names apart) _ _ (context_beside program same)).ok lowers
  exact Except.ok.inj (beside.symm.trans kept)

theorem emitted_same {entry other : Declaration × SchemaNode}
    (first : entry ∈ (Survey.ofTree settings one).emitted settings)
    (second : other ∈ (Survey.ofTree settings two).emitted settings)
    (names : other.1.name = entry.1.name) (apart : entry.1.name ≠ name) : other.2 = entry.2 := by
  obtain ⟨node, lowers, final⟩ := emitted_lowered first
  obtain ⟨twin, beside, last⟩ := emitted_lowered second
  rw [← final, ← last, lowered_same program same unlisted (emitted_fate first).1 (emitted_fate second).1 names apart lowers
    beside]

theorem schemas_same {entry other : String × SchemaNode}
    (first : entry ∈ ((Survey.ofTree settings one).outcome settings).document.schemas)
    (second : other ∈ ((Survey.ofTree settings two).outcome settings).document.schemas)
    (names : other.1 = entry.1) (apart : entry.1 ≠ name) : other.2.unannotated = entry.2.unannotated := by
  obtain ⟨given, emitted, named, plain⟩ := emitted_of_entry first
  obtain ⟨twin, contributed, called, beside⟩ := emitted_of_entry second
  rw [← plain, ← beside, emitted_same program same unlisted emitted contributed ((called.trans names).trans named.symm)
    (named ▸ apart)]

end Schemas

-- Two scripts with one outline but for the initializer of a name, whatever reads them. What
-- either of them makes of that name changes no other schema, unless its values are listed by one.
theorem declarations_apart (settings : ParseSettings) (name : String) :
    (∀ one two : Tree, one.kind = .program → one.outline name = two.outline name →
      (∀ d ∈ Declaration.initialized one, d.name ≠ name →
        ∀ inner ∈ d.value.preorder, ¬ (Bindings.collect settings one).Enumerates inner name) →
      ∀ entry ∈ ((Survey.ofTree settings one).outcome settings).document.schemas,
        ∀ other ∈ ((Survey.ofTree settings two).outcome settings).document.schemas,
          other.1 = entry.1 → entry.1 ≠ name → other.2.unannotated = entry.2.unannotated) ∧
    ∀ one two : String, (Script.parse one).outline name = (Script.parse two).outline name →
      (∀ d ∈ Declaration.initialized (Script.parse one), d.name ≠ name →
        ∀ inner ∈ d.value.preorder, ¬ (Bindings.collect settings (Script.parse one)).Enumerates inner name) →
      ∀ entry ∈ (parse settings one).document.schemas, ∀ other ∈ (parse settings two).document.schemas,
        other.1 = entry.1 → entry.1 ≠ name → other.2.unannotated = entry.2.unannotated :=
  ⟨fun _ _ program same unlisted _ first _ second names apart => schemas_same program same unlisted first second names apart,
    fun one _ same unlisted _ first _ second names apart => schemas_same (parse_kind one) same unlisted first second names apart⟩

def readScript : String := "let A=z.int(),B=z.object({a:A})"

def refusedScript : String := "let A=z.no(),B=z.object({a:A})"

theorem declarations_apart_refused : "A" ∉ (parse {} refusedScript).document.schemas.map Prod.fst ∧
    ∃ entry ∈ (parse {} readScript).document.schemas, ∃ other ∈ (parse {} refusedScript).document.schemas,
      entry.1 = "B" ∧ other.1 = "B" ∧ other.2.unannotated = entry.2.unannotated := by
  have same : (Script.parse readScript).outline "A" = (Script.parse refusedScript).outline "A" := by decide +kernel
  have unlisted : ∀ d ∈ Declaration.initialized (Script.parse readScript), d.name ≠ "A" →
      ∀ inner ∈ d.value.preorder, ¬ (Bindings.collect {} (Script.parse readScript)).Enumerates inner "A" := by
    decide +kernel
  have first : "B" ∈ (parse {} readScript).document.schemas.map Prod.fst := by decide +kernel
  have second : "B" ∈ (parse {} refusedScript).document.schemas.map Prod.fst := by decide +kernel
  obtain ⟨entry, listed, named⟩ := List.mem_map.mp first
  obtain ⟨other, contributed, called⟩ := List.mem_map.mp second
  refine ⟨by decide +kernel, entry, listed, other, contributed, named, called, ?_⟩
  exact (declarations_apart {} "A").1 _ _ (parse_kind readScript) same unlisted entry listed other contributed
    (called.trans named.symm) (by rw [named]; decide)

end Builder
end SchemaAtlas
