import SchemaAtlas.Proofs.ScriptDocument
import SchemaAtlas.Proofs.ScriptScopes

namespace SchemaAtlas
namespace Builder

open Script

variable {settings : ParseSettings} {r : Survey} {d : Declaration} {report : Diagnostic}

def Declaration.firsts (b : Bindings) (root : Tree) : List Declaration :=
  (find b root).eraseDupsBy fun d earlier => d.name == earlier.name

theorem unique_eq (seen : List String) (all : List Declaration) : (Declaration.unique seen all).1 =
    (all.filter fun d => !seen.contains d.name).eraseDupsBy fun d earlier => d.name == earlier.name := by
  induction all generalizing seen with
  | nil => rfl
  | cons first rest ih =>
    unfold Declaration.unique
    dsimp only
    by_cases old : first.name ∈ seen
    · have same : ∀ d : Declaration, (first.name :: seen).contains d.name = seen.contains d.name := by
        intro d
        rw [Bool.eq_iff_iff, List.contains_iff_mem, List.contains_iff_mem, List.mem_cons]
        exact ⟨fun listed => listed.elim (fun same => same ▸ old) id, .inr⟩
      have seen_ : seen.contains first.name = true := List.contains_iff_mem.mpr old
      rw [if_pos seen_, List.filter_cons_of_neg (by simp [old]), ih]
      simp only [same]
    · have fresh : ¬ seen.contains first.name = true := by simpa using old
      have later : (rest.filter fun d => !(first.name :: seen).contains d.name) =
          rest.filter fun d => decide ((d.name == first.name) = false) && !seen.contains d.name := by
        refine List.filter_congr fun d _ => ?_
        by_cases same : d.name = first.name <;> simp [same]
      rw [if_neg fresh, List.filter_cons_of_pos (by simp [old]), List.eraseDupsBy_cons, List.filter_filter, ← later, ← ih]

theorem declarations_ofTree (settings : ParseSettings) (root : Tree) :
    (Survey.ofTree settings root).declarations = Declaration.firsts (.collect settings root) root := by
  change (Declaration.unique [] _).1 = _
  rw [unique_eq]
  simp [Declaration.firsts]

theorem mem_of_mem_unique {all : List Declaration} (kept : d ∈ (Declaration.unique seen all).1) : d ∈ all := by
  induction all generalizing seen with
  | nil => cases kept
  | cons first rest ih =>
    unfold Declaration.unique at kept
    dsimp only at kept
    split at kept
    · exact List.mem_cons_of_mem _ (ih kept)
    · rcases List.mem_cons.mp kept with rfl | later
      · exact List.mem_cons_self
      · exact List.mem_cons_of_mem _ (ih later)

theorem ofStatement?_exposes {statement declaration : Site}
    (found : Declaration.ofStatement? statement = some (declaration, exported)) : statement.Exposes declaration := by
  unfold Declaration.ofStatement? at found
  split at found
  · rename_i export_
    obtain ⟨inner, stands, same⟩ := Option.map_eq_some_iff.mp found
    cases same
    exact Site.exposes_child? (by rw [export_]; rfl) stands
  · cases found
    exact .refl _

theorem declarators_exposes {declaration declarator : Site} (listed : declarator ∈ Declaration.declarators declaration) :
    declarator.kind = .declarator ∧ declaration.Exposes declarator := by
  unfold Declaration.declarators at listed
  split at listed
  case h_3 => cases listed
  all_goals
    rename_i kind
    obtain ⟨part, named⟩ := List.mem_filter.mp listed
    exact ⟨beq_iff_eq.mp named, Site.exposes_part (by rw [kind]; rfl) part⟩

theorem initialized_exposes (listed : d ∈ Declaration.initialized root) :
    ∃ statement ∈ (Site.root root).parts, statement.Exposes d.value := by
  obtain ⟨statement, part, listed⟩ := List.mem_flatMap.mp listed
  refine ⟨statement, part, ?_⟩
  split at listed
  · rename_i found
    obtain ⟨declarator, inside, given⟩ := List.mem_filterMap.mp listed
    obtain ⟨kind, exposes⟩ := declarators_exposes inside
    obtain ⟨name, _, given⟩ := Option.bind_eq_some_iff.mp given
    obtain ⟨value, stands, given⟩ := Option.bind_eq_some_iff.mp given
    split at given
    · cases given
      have last : declarator.Exposes value := Site.exposes_child? (by rw [kind]; rfl) stands
      exact (ofStatement?_exposes found).trans (exposes.trans last)
    · cases given
  · cases listed

theorem declarations_inside (declared : d ∈ (Survey.ofTree settings root).declarations) :
    d.value ∈ (Site.root root).preorder := by
  obtain ⟨statement, part, exposes⟩ := initialized_exposes (List.mem_of_mem_filter (mem_of_mem_unique declared))
  exact Site.mem_preorder_trans exposes.inside (Site.parts_mem_preorder part)

-- What the diagnostics are about. A repeated declaration is no reason to reject one.

theorem duplicates_code {all : List Declaration} (listed : report ∈ (Declaration.unique seen all).2) :
    report.code = .duplicateDeclaration := by
  induction all generalizing seen with
  | nil => cases listed
  | cons first rest ih =>
    unfold Declaration.unique at listed
    dsimp only at listed
    split at listed
    · rcases List.mem_cons.mp listed with rfl | later
      · rfl
      · exact ih later
    · exact ih listed

def Finding (report : Diagnostic) : Prop :=
  report.isError = true ∧ report.code ∈ [.legacySyntax, .nonAnalyzableSchema]

def ChainFinding (report : Diagnostic) : Prop := Finding report ∧ report.declaration = none

theorem finding_unreadable (what : String) (site : Site) : ChainFinding (unreadable what site) :=
  ⟨⟨rfl, List.mem_cons_of_mem _ List.mem_cons_self⟩, rfl⟩

theorem computedKey_sound {key : Option Site} (listed : report ∈ (match key with
    | some key => if key.kind == Kind.computedName then [unreadable "computed property key" key] else []
    | none => [])) : ChainFinding report := by
  split at listed
  · split at listed
    · obtain rfl := List.mem_singleton.mp listed
      exact finding_unreadable _ _
    · cases listed
  · cases listed

theorem memberFindings_sound (listed : report ∈ memberFindings site) : ChainFinding report := by
  unfold memberFindings at listed
  dsimp only at listed
  split at listed
  · exact computedKey_sound listed
  · exact computedKey_sound listed
  · obtain rfl := List.mem_singleton.mp listed
    exact finding_unreadable _ _
  · cases listed

theorem shapeFindings_sound (listed : report ∈ shapeFindings call) : ChainFinding report := by
  unfold shapeFindings at listed
  split at listed
  · dsimp only at listed
    split at listed
    · obtain ⟨member, _, inside⟩ := List.mem_flatMap.mp listed
      exact memberFindings_sound inside
    · cases listed
  · cases listed

theorem legacyFindings_sound (listed : report ∈ legacyFindings kind call) : ChainFinding report := by
  unfold legacyFindings at listed
  split at listed
  · obtain rfl := List.mem_singleton.mp listed
    exact ⟨⟨rfl, List.mem_cons_self⟩, rfl⟩
  · cases listed

theorem callFindings_sound {calls : List Call} (listed : report ∈ callFindings kind calls) : ChainFinding report := by
  induction calls generalizing kind with
  | nil => cases listed
  | cons call rest ih =>
    unfold callFindings at listed
    simp only [List.mem_append, or_assoc] at listed
    rcases listed with legacy | shape | later
    · exact legacyFindings_sound legacy
    · exact shapeFindings_sound shape
    · exact ih later

theorem chainFindings_sound (listed : report ∈ chainFindings chain start) : ChainFinding report := by
  rcases List.mem_append.mp listed with base | calls
  · split at base
    · exact shapeFindings_sound base
    · cases base
  · exact callFindings_sound calls

theorem siteFindings_sound {b : Bindings} {declarations : List Declaration}
    (listed : report ∈ siteFindings b kinds declarations site) : Finding report := by
  unfold siteFindings at listed
  split at listed
  · split at listed
    · cases listed
    · split at listed
      · cases listed
      · dsimp only at listed
        split at listed
        · obtain ⟨found, inside, rfl⟩ := List.mem_map.mp listed
          have sound := (chainFindings_sound inside).1
          exact sound
        · exact (chainFindings_sound listed).1
  · cases listed

theorem findings_sound {b : Bindings} {declarations : List Declaration}
    (listed : report ∈ findings b root declarations) : Finding report := by
  obtain ⟨site, _, inside⟩ := List.mem_flatMap.mp (List.mem_mergeSort.mp listed)
  exact siteFindings_sound inside

-- A survey in which no name is declared twice and every report has its own reason.
structure Survey.Sound (r : Survey) : Prop where
  once : (r.declarations.map Declaration.name).Nodup
  repeated : ∀ report ∈ r.duplicates, report.code = .duplicateDeclaration
  found : ∀ report ∈ r.found, Finding report

theorem ofTree_sound (settings : ParseSettings) (root : Tree) : (Survey.ofTree settings root).Sound :=
  ⟨(unique_names [] _).1, fun _ listed => duplicates_code listed, fun _ listed => findings_sound listed⟩

theorem Survey.Sound.same (sound : r.Sound) (declared : d ∈ r.declarations) (other : e ∈ r.declarations)
    (names : d.name = e.name) : d = e :=
  List.inj_on_of_nodup_map sound.once declared other names

def Survey.failures (settings : ParseSettings) (r : Survey) : List Diagnostic :=
  (r.declarations.map (r.fate settings)).filterMap Fate.diagnostic?

theorem fate_diagnostic? (given : (r.fate settings d).diagnostic? = some report) :
    ∃ refusal : Refusal, refusal.toDiagnostic d.name = report := by
  rcases fate_cases settings r d with ⟨refusal, fate⟩ | ⟨_, fate⟩ | ⟨_, lowered, _, fate⟩
  all_goals
    rw [fate] at given
    cases given
  exact ⟨refusal, rfl⟩

theorem mem_failures : report ∈ r.failures settings ↔
    ∃ d ∈ r.declarations, (r.fate settings d).diagnostic? = some report := by
  simp [Survey.failures, List.mem_filterMap]

theorem failures_declarations (settings : ParseSettings) (r : Survey) :
    ((r.failures settings).map Diagnostic.declaration).Sublist (r.declarations.map fun d => some d.name) := by
  unfold Survey.failures
  induction r.declarations with
  | nil => exact List.Sublist.slnil
  | cons first rest ih =>
    rw [List.map_cons, List.filterMap_cons, List.map_cons]
    split
    · exact ih.cons _
    · rename_i report given
      obtain ⟨refusal, rfl⟩ := fate_diagnostic? given
      exact ih.cons_cons _

-- How an outcome accounts for the declarations: each has one schema component or errors
-- of its own, never both; there are no other components, and they stand in the order of
-- the declarations; the diagnostics are those of the lint and then the failures, at most
-- one for each declaration.
structure Outcome.Accounts (o : Outcome) (declared : List Declaration) (linted : List Diagnostic) : Prop where
  settled : ∀ d ∈ declared, Xor ((o.document.schemas.map Prod.fst).count d.name = 1)
    (∃ report ∈ o.diagnostics, report.isError = true ∧ report.declaration = some d.name ∧
      report.code ∈ [.legacySyntax, .nonAnalyzableSchema, .parseFailure])
  ordered : (o.document.components.map Component.name).Sublist (declared.map Declaration.name)
  schemas : ∀ component ∈ o.document.components, component.kind = .schemas
  reported : ∃ failures, o.diagnostics = linted ++ failures ∧ (failures.map Diagnostic.declaration).Nodup ∧
    ∀ failure ∈ failures, failure.code = .parseFailure ∧ ∃ d ∈ declared, failure.declaration = some d.name

theorem outcome_components (settings : ParseSettings) (r : Survey) : ∃ annotate : String → SchemaNode → SchemaNode,
    (r.outcome settings).document.components =
      (r.emitted settings).map fun entry => .schema entry.1.name (annotate entry.1.name entry.2) := by
  obtain ⟨document, same, components⟩ : ∃ document : Document, (r.outcome settings).document = document.analyze ∧
      document.components = (r.emitted settings).map fun entry => .schema entry.1.name entry.2 := ⟨_, rfl, rfl⟩
  refine ⟨Document.annotated document.dependencyGraphOf, ?_⟩
  rw [same]
  change document.components.map _ = _
  rw [components, List.map_map]
  rfl

theorem outcome_schemas (settings : ParseSettings) (r : Survey) :
    (r.outcome settings).document.schemas.map Prod.fst = (r.emitted settings).map fun entry => entry.1.name := by
  obtain ⟨document, same, schemas⟩ := outcome_parts settings r
  rw [same, Document.keys_schemas_analyze, schemas, List.map_map]
  rfl

theorem emitted_iff (sound : r.Sound) (declared : d ∈ r.declarations) :
    d.name ∈ (r.emitted settings).map (fun entry => entry.1.name) ↔ ((r.fate settings d).schema?).isSome = true := by
  rw [List.mem_map]
  constructor
  · rintro ⟨entry, listed, same⟩
    obtain ⟨inside, given⟩ := emitted_fate listed
    rw [sound.same declared inside same.symm, given]
    rfl
  · intro given
    obtain ⟨entry, given⟩ := Option.isSome_iff_exists.mp given
    obtain ⟨same, _⟩ := fate_schema? given
    exact ⟨entry, List.mem_filterMap.mpr ⟨_, List.mem_map_of_mem declared, given⟩, by rw [same]⟩

theorem count_emitted (sound : r.Sound) (declared : d ∈ r.declarations) :
    ((r.outcome settings).document.schemas.map Prod.fst).count d.name = 1 ↔
      ((r.fate settings d).schema?).isSome = true := by
  rw [outcome_schemas, ← emitted_iff sound declared]
  constructor
  · intro one
    apply List.count_pos_iff.mp
    omega
  · exact List.count_eq_one_of_mem (emitted_names settings sound.once)

theorem errors_iff (sound : r.Sound) (declared : d ∈ r.declarations) :
    (∃ report ∈ (r.outcome settings).diagnostics, report.isError = true ∧ report.declaration = some d.name ∧
      report.code ∈ [.legacySyntax, .nonAnalyzableSchema, .parseFailure]) ↔
    r.rejects d.name = true ∨ ((r.fate settings d).diagnostic?).isSome = true := by
  constructor
  · rintro ⟨report, listed, error, own, code⟩
    change report ∈ r.duplicates ++ r.found ++ r.failures settings at listed
    simp only [List.mem_append, or_assoc] at listed
    rcases listed with duplicate | found | failed
    · rw [sound.repeated report duplicate] at code
      simp at code
    · refine .inl (List.any_eq_true.mpr ⟨report, found, ?_⟩)
      simp [error, own]
    · obtain ⟨other, inside, given⟩ := mem_failures.mp failed
      obtain ⟨refusal, rfl⟩ := fate_diagnostic? given
      have same : other.name = d.name := Option.some.inj own
      rw [sound.same declared inside same.symm, given]
      exact .inr rfl
  · rintro (rejected | failed)
    · obtain ⟨report, found, marks⟩ := List.any_eq_true.mp rejected
      simp only [Bool.and_eq_true, beq_iff_eq] at marks
      obtain ⟨_, code⟩ := sound.found report found
      refine ⟨report, ?_, marks.1, marks.2, ?_⟩
      · exact List.mem_append_left _ (List.mem_append_right _ found)
      · rw [List.mem_cons, List.mem_singleton] at code
        rcases code with code | code <;> simp [code]
    · obtain ⟨report, given⟩ := Option.isSome_iff_exists.mp failed
      have listed := mem_failures.mpr ⟨d, declared, given⟩
      obtain ⟨refusal, rfl⟩ := fate_diagnostic? given
      exact ⟨_, List.mem_append_right _ listed, rfl, rfl, by simp [Refusal.toDiagnostic, Diagnostic.of]⟩

theorem outcome_accounts (sound : r.Sound) :
    (r.outcome settings).Accounts r.declarations (r.duplicates ++ r.found) := by
  obtain ⟨annotate, components⟩ := outcome_components settings r
  refine ⟨?_, ?_, ?_, r.failures settings, rfl, ?_, ?_⟩
  · intro d declared
    rw [count_emitted sound declared, errors_iff sound declared]
    rcases fate_cases settings r d with ⟨refusal, fate⟩ | ⟨rejected, fate⟩ | ⟨free, lowered, _, fate⟩
    · simp [Xor, fate, Fate.schema?, Fate.diagnostic?]
    · simp [Xor, fate, rejected, Fate.schema?]
    · simp [Xor, fate, free, Fate.schema?, Fate.diagnostic?]
  · have names := (emitted_sublist settings r).map Declaration.name
    rw [components, List.map_map]
    rwa [List.map_map] at names
  · intro component listed
    rw [components] at listed
    obtain ⟨entry, _, rfl⟩ := List.mem_map.mp listed
    rfl
  · refine (failures_declarations settings r).nodup ?_
    have once := sound.once.map (Option.some_injective _)
    rwa [List.map_map] at once
  · intro failure listed
    obtain ⟨d, declared, given⟩ := mem_failures.mp listed
    obtain ⟨refusal, rfl⟩ := fate_diagnostic? given
    exact ⟨rfl, d, declared, rfl⟩

-- No declaration of a script is lost, whatever tree the script has.
theorem declarations_accounted (settings : ParseSettings) :
    (∀ root : Tree, ((Survey.ofTree settings root).outcome settings).Accounts
      (Declaration.firsts (.collect settings root) root)
      ((Survey.ofTree settings root).duplicates ++ (Survey.ofTree settings root).found)) ∧
    ∀ source, (parse settings source).Accounts
      (Declaration.firsts (.collect settings (Script.parse source)) (Script.parse source)) (lint settings source) := by
  have whole (root : Tree) : ((Survey.ofTree settings root).outcome settings).Accounts
      (Declaration.firsts (.collect settings root) root)
      ((Survey.ofTree settings root).duplicates ++ (Survey.ofTree settings root).found) := by
    rw [← declarations_ofTree]
    exact outcome_accounts (ofTree_sound settings root)
  exact ⟨whole, fun source => whole (Script.parse source)⟩

end Builder
end SchemaAtlas
