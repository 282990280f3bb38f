import SchemaAtlas.Proofs.Build
import SchemaAtlas.Proofs.DeclarationFates
import SchemaAtlas.Proofs.RaisedBuild
import SchemaAtlas.Proofs.AlikeLowering
import SchemaAtlas.Proofs.Reanalysis

namespace SchemaAtlas

def ParseSettings.under (settings : ParseSettings) (ceiling : Nat) : ParseSettings := { settings with maxDepth := ceiling }

namespace Builder

open Script

variable {settings : ParseSettings} {r : Survey} {lower higher : Nat}

theorem ofTree_under (settings : ParseSettings) (ceiling : Nat) (root : Tree) :
    Survey.ofTree (settings.under ceiling) root = Survey.ofTree settings root := rfl

theorem fate_raised (raised : lower ≤ higher) (r : Survey) (d : Declaration) :
    r.fate (settings.under higher) d = r.fate (settings.under lower) d ∨
      ∃ refusal : Refusal, refusal.BeyondCeiling ∧ r.fate (settings.under lower) d = .refused (refusal.toDiagnostic d.name) := by
  have lowered := lowerExpression_raised raised (r.context settings) d.value
  unfold Survey.fate
  split
  · exact .inl rfl
  · split
    · exact .inl rfl
    · change KeptUnless _ (lowerExpression { bindings := r.bindings, root := r.root, maxDepth := lower } d.value)
        (lowerExpression { bindings := r.bindings, root := r.root, maxDepth := higher } d.value) at lowered
      dsimp only [ParseSettings.under]
      generalize lowerExpression { bindings := r.bindings, root := r.root, maxDepth := lower } d.value = low at lowered
      generalize lowerExpression { bindings := r.bindings, root := r.root, maxDepth := higher } d.value = high at lowered
      cases lowered with
      | kept same => exact .inl rfl
      | stopped stop => exact .inr ⟨_, stop, rfl⟩

theorem emitted_raised (raised : lower ≤ higher) (listed : entry ∈ r.emitted (settings.under lower)) :
    entry ∈ r.emitted (settings.under higher) := by
  obtain ⟨declared, given⟩ := emitted_fate listed
  refine List.mem_filterMap.mpr ⟨_, List.mem_map_of_mem declared, ?_⟩
  rcases fate_raised raised r entry.1 with same | ⟨refusal, _, refused⟩
  · rwa [same]
  · rw [refused] at given
    cases given

theorem outcome_unannotated (settings : ParseSettings) (r : Survey) :
    ((r.outcome settings).document.schemas.map fun entry => (entry.1, entry.2.unannotated)) =
      (r.emitted settings).map fun entry => (entry.1.name, entry.2.unannotated) := by
  obtain ⟨document, same, schemas⟩ := outcome_parts settings r
  rw [same, Document.schemas_analyze, List.map_map, schemas, List.map_map]
  simp only [Function.comp_def, Document.unannotated_annotated]

theorem emitted_of_entry (listed : entry ∈ (r.outcome settings).document.schemas) :
    ∃ given ∈ r.emitted settings, given.1.name = entry.1 ∧ given.2.unannotated = entry.2.unannotated := by
  have plain := List.mem_map_of_mem (f := fun entry => (entry.1, entry.2.unannotated)) listed
  rw [outcome_unannotated] at plain
  obtain ⟨given, emitted, same⟩ := List.mem_map.mp plain
  exact ⟨given, emitted, Prod.mk.inj same⟩

-- Every schema that one outcome contributes is one that the other contributes as well, up
-- to the marks of its own analysis.
def Outcome.KeptIn (o wider : Outcome) : Prop :=
  ∀ entry ∈ o.document.schemas, ∃ node, Entries.get? wider.document.schemas entry.1 = some node ∧
    node.unannotated = entry.2.unannotated

theorem outcome_raised (raised : lower ≤ higher) (sound : r.Sound) :
    (r.outcome (settings.under lower)).KeptIn (r.outcome (settings.under higher)) := by
  intro entry listed
  have given : (entry.1, entry.2.unannotated) ∈
      (r.outcome (settings.under higher)).document.schemas.map fun entry => (entry.1, entry.2.unannotated) := by
    have inside := List.mem_map_of_mem (f := fun entry => (entry.1, entry.2.unannotated)) listed
    rw [outcome_unannotated] at inside ⊢
    obtain ⟨emitted, contributed, same⟩ := List.mem_map.mp inside
    exact List.mem_map.mpr ⟨emitted, emitted_raised raised contributed, same⟩
  obtain ⟨⟨name, node⟩, stands, same⟩ := List.mem_map.mp given
  obtain ⟨rfl, unmarked⟩ := Prod.mk.inj same
  refine ⟨node, Entries.get?_of_mem ?_ stands, unmarked⟩
  unfold Entries.Distinct Entries.keys
  rw [outcome_schemas]
  exact emitted_names _ sound.once

end Builder

open Builder in
-- A higher ceiling takes nothing back: a build that was not stopped ends as it did, in its
-- failures too, and a script keeps every schema that it contributed.
theorem raised_ceiling (raised : lower ≤ higher) :
    (∀ source : Json, (∀ limit path, OpenApi.build lower source ≠ .error (.recursionLimit limit path)) →
      OpenApi.build higher source = OpenApi.build lower source) ∧
    ∀ settings : ParseSettings,
      (∀ root : Script.Tree, ((Survey.ofTree (settings.under lower) root).outcome (settings.under lower)).KeptIn
        ((Survey.ofTree (settings.under higher) root).outcome (settings.under higher))) ∧
      ∀ source, (parse (settings.under lower) source).KeptIn (parse (settings.under higher) source) := by
  refine ⟨fun source through => ?_, fun settings => ?_⟩
  · refine (OpenApi.build_raised raised source).eq_of_not_stopped ?_
    rintro _ ⟨limit, path, rfl⟩
    exact through limit path
  · have whole (root : Script.Tree) :
        ((Survey.ofTree (settings.under lower) root).outcome (settings.under lower)).KeptIn
          ((Survey.ofTree (settings.under higher) root).outcome (settings.under higher)) := by
      rw [ofTree_under, ofTree_under]
      exact outcome_raised raised (ofTree_sound settings root)
    exact ⟨whole, fun source => whole (Script.parse source)⟩

theorem raised_ceiling_array : 2 ≤ 4 ∧
    (∃ d, OpenApi.build 2 OpenApi.petDescription = .ok d ∧ OpenApi.build 4 OpenApi.petDescription = .ok d) ∧
    ∃ entry ∈ (Builder.parse { maxDepth := 2 } "let A=z.int().array()").document.schemas, ∃ node,
      Entries.get? (Builder.parse { maxDepth := 4 } "let A=z.int().array()").document.schemas entry.1 = some node ∧
      node.unannotated = entry.2.unannotated := by
  have raised : 2 ≤ 4 := by decide
  obtain ⟨builds, scripts⟩ := raised_ceiling raised
  have read : (OpenApi.build 2 OpenApi.petDescription).isOk = true := by decide +kernel
  have contributed : (Builder.parse { maxDepth := 2 } "let A=z.int().array()").document.schemas ≠ [] := by
    have some : (Builder.parse { maxDepth := 2 } "let A=z.int().array()").document.schemas.isEmpty = false := by
      decide +kernel
    simpa using some
  refine ⟨raised, ?_, ?_⟩
  · cases built : OpenApi.build 2 OpenApi.petDescription with
    | error failure => simp [built, Except.isOk, Except.toBool] at read
    | ok d => exact ⟨d, rfl, (builds _ (by simp [built])).trans built⟩
  · obtain ⟨entry, listed⟩ := List.exists_mem_of_ne_nil _ contributed
    exact ⟨entry, listed, (scripts {}).2 _ entry listed⟩

end SchemaAtlas
