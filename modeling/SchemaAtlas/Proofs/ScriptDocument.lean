import SchemaAtlas.Builder.Parse
import SchemaAtlas.Proofs.Lowering
import SchemaAtlas.Proofs.Regions

namespace SchemaAtlas

namespace SchemaNode

variable {n : SchemaNode}

theorem finalizeTree_eq (n : SchemaNode) (depth : Nat) : n.finalizeTree depth =
    { n with parts := n.parts.map (finalizeTree · (depth + 1)) }.finalize depth := by
  rw [finalizeTree, Parts.mapEach_eq_map]

theorem reworked_finalizeTree (n : SchemaNode) (depth : Nat) :
    Reworked (fun new old => new.required = old.required) (n.finalizeTree depth) n := by
  induction n using children_induction generalizing depth with
  | step n ih =>
    rw [finalizeTree_eq]
    exact .node rfl rfl rfl rfl fun child inside => ih child inside (depth + 1)

end SchemaNode

namespace Builder

open Script

variable {settings : ParseSettings}

theorem unique_names (seen : List String) (all : List Declaration) :
    ((Declaration.unique seen all).1.map Declaration.name).Nodup ∧
      ∀ d ∈ (Declaration.unique seen all).1, d.name ∉ seen := by
  induction all generalizing seen with
  | nil => exact ⟨List.nodup_nil, fun _ listed => absurd listed List.not_mem_nil⟩
  | cons first rest ih =>
    obtain ⟨once, fresh⟩ := ih (first.name :: seen)
    have later : ∀ d ∈ (Declaration.unique (first.name :: seen) rest).1, d.name ≠ first.name ∧ d.name ∉ seen :=
      fun d kept => not_or.mp (mt List.mem_cons.mpr (fresh d kept))
    unfold Declaration.unique
    dsimp only
    split
    · exact ⟨once, fun d kept => (later d kept).2⟩
    · rename_i new
      refine ⟨?_, ?_⟩
      · rw [List.map_cons, List.nodup_cons]
        refine ⟨fun listed => ?_, once⟩
        obtain ⟨d, kept, same⟩ := List.mem_map.mp listed
        exact (later d kept).1 same
      · rw [List.forall_mem_cons]
        exact ⟨by simpa using new, fun d kept => (later d kept).2⟩

variable {r : Survey} {d : Declaration} {node : SchemaNode}

def Survey.context (settings : ParseSettings) (r : Survey) : Context :=
  { bindings := r.bindings, root := r.root, maxDepth := settings.maxDepth }

theorem fate_cases (settings : ParseSettings) (r : Survey) (d : Declaration) :
    (∃ refusal : Refusal, r.fate settings d = .refused (refusal.toDiagnostic d.name)) ∨
    (r.rejects d.name = true ∧ r.fate settings d = .rejected) ∨
    (r.rejects d.name = false ∧ ∃ lowered, lowerExpression (r.context settings) d.value = .ok lowered ∧
      r.fate settings d = .emitted d (lowered.finalizeTree 0)) := by
  unfold Survey.fate
  split
  · exact .inl ⟨_, rfl⟩
  · split
    · rename_i rejected
      exact .inr (.inl ⟨rejected, rfl⟩)
    · rename_i free
      split
      · rename_i lowered
        exact .inr (.inr ⟨by simpa using free, _, lowered, rfl⟩)
      · exact .inl ⟨_, rfl⟩

theorem fate_schema? (given : (r.fate settings d).schema? = some (other, node)) :
    other = d ∧ ∃ lowered, lowerExpression (r.context settings) d.value = .ok lowered ∧ lowered.finalizeTree 0 = node := by
  rcases fate_cases settings r d with ⟨_, fate⟩ | ⟨_, fate⟩ | ⟨_, lowered, value, fate⟩
  all_goals
    rw [fate] at given
    cases given
  exact ⟨rfl, lowered, value, rfl⟩

def Survey.emitted (settings : ParseSettings) (r : Survey) : List (Declaration × SchemaNode) :=
  (r.declarations.map (r.fate settings)).filterMap Fate.schema?

theorem emitted_fate (listed : entry ∈ r.emitted settings) :
    entry.1 ∈ r.declarations ∧ (r.fate settings entry.1).schema? = some entry := by
  obtain ⟨fate, mapped, given⟩ := List.mem_filterMap.mp listed
  obtain ⟨d, declared, rfl⟩ := List.mem_map.mp mapped
  obtain ⟨rfl, _⟩ := fate_schema? given
  exact ⟨declared, given⟩

theorem emitted_lowered (listed : entry ∈ r.emitted settings) :
    ∃ lowered, lowerExpression (r.context settings) entry.1.value = .ok lowered ∧ lowered.finalizeTree 0 = entry.2 :=
  (fate_schema? (emitted_fate listed).2).2

theorem emitted_tidy (listed : entry ∈ r.emitted settings) :
    ∃ lowered : SchemaNode, lowered.Tidy ∧ lowered.finalizeTree 0 = entry.2 := by
  obtain ⟨lowered, value, final⟩ := emitted_lowered listed
  exact ⟨lowered, lowerExpression_tidy value, final⟩

theorem emitted_sublist (settings : ParseSettings) (r : Survey) :
    ((r.emitted settings).map Prod.fst).Sublist r.declarations := by
  unfold Survey.emitted
  induction r.declarations with
  | nil => exact List.Sublist.slnil
  | cons first rest ih =>
    rw [List.map_cons, List.filterMap_cons]
    split
    · exact ih.cons _
    · rename_i entry given
      obtain ⟨rfl, _⟩ := fate_schema? given
      rw [List.map_cons]
      exact ih.cons_cons _

theorem emitted_names (settings : ParseSettings) (once : (r.declarations.map Declaration.name).Nodup) :
    ((r.emitted settings).map fun entry => entry.1.name).Nodup := by
  have names := ((emitted_sublist settings r).map Declaration.name).nodup once
  rwa [List.map_map] at names

theorem outcome_parts (settings : ParseSettings) (r : Survey) : ∃ document : Document,
    (r.outcome settings).document = document.analyze ∧
      document.schemas = (r.emitted settings).map fun entry => (entry.1.name, entry.2) := by
  refine ⟨_, rfl, ?_⟩
  unfold Document.schemas
  rw [List.filterMap_map]
  exact congrFun List.filterMap_eq_map' _

theorem outcome_entry (listed : entry ∈ (r.outcome settings).document.schemas) :
    ∃ given ∈ r.emitted settings, entry.1 = given.1.name ∧ SchemaNode.Remarked entry.2 given.2 := by
  obtain ⟨document, same, schemas⟩ := outcome_parts settings r
  rw [same, Document.schemas_analyze, schemas, List.map_map] at listed
  obtain ⟨given, inside, rfl⟩ := List.mem_map.mp listed
  exact ⟨given, inside, rfl, Document.remarked_annotated _ _ _⟩

theorem outcome_lowered (listed : entry ∈ (r.outcome settings).document.schemas) :
    ∃ d ∈ r.declarations, d.name = entry.1 ∧ ∃ lowered, lowerExpression (r.context settings) d.value = .ok lowered ∧
      SchemaNode.Reworked (fun new old => new.required = old.required) entry.2 lowered := by
  obtain ⟨given, inside, named, remarked⟩ := outcome_entry listed
  obtain ⟨lowered, value, final⟩ := emitted_lowered inside
  rw [← final] at remarked
  refine ⟨given.1, (emitted_fate inside).1, named.symm, lowered, value, ?_⟩
  refine SchemaNode.Reworked.trans remarked (SchemaNode.reworked_finalizeTree lowered 0) ?_
  intro new middle old marks kept
  have same : new.unmarked.required = middle.unmarked.required := by rw [marks]
  exact same.trans kept

theorem distinct_of_emitted {document : Document} (once : (r.declarations.map Declaration.name).Nodup)
    (schemas : document.schemas = (r.emitted settings).map fun entry => (entry.1.name, entry.2)) :
    Entries.Distinct document.schemas := by
  rw [schemas]
  simpa [Entries.Distinct, Entries.keys, Function.comp_def] using emitted_names settings once

theorem outcome_accepted (once : (r.declarations.map Declaration.name).Nodup) :
    (r.outcome settings).document.Accepted := by
  obtain ⟨document, same, schemas⟩ := outcome_parts settings r
  have distinct := distinct_of_emitted once schemas
  have sound : ∀ entry ∈ document.schemas, entry.2.WellFormed := by
    intro entry listed
    rw [schemas] at listed
    obtain ⟨old, inside, rfl⟩ := List.mem_map.mp listed
    obtain ⟨lowered, tidy, same⟩ := emitted_tidy inside
    rw [← same]
    exact (SchemaNode.reworked_finalizeTree _ 0).wellFormed tidy.wellFormed
  rw [same]
  refine (Document.analyze_wellFormed distinct sound).accepted ?_
  unfold Entries.Distinct Entries.keys
  rw [Document.keys_schemas_analyze]
  exact distinct

-- The document of a script, whatever tree the script has.
theorem script_accepted (settings : ParseSettings) :
    (∀ root : Tree, ((Survey.ofTree settings root).outcome settings).document.Accepted) ∧
      ∀ source, (parse settings source).document.Accepted := by
  have whole (root : Tree) : ((Survey.ofTree settings root).outcome settings).document.Accepted :=
    outcome_accepted (unique_names [] _).1
  exact ⟨whole, fun source => whole (Script.parse source)⟩

end Builder
end SchemaAtlas
