import Mathlib.Data.List.Perm.Basic
import SchemaAtlas.Proofs.Deferral
import SchemaAtlas.Proofs.Dependents

namespace SchemaAtlas

namespace Entries

variable {entries entries' : Entries α}

theorem Distinct.perm (distinct : entries.Distinct) (permuted : entries'.Perm entries) : entries'.Distinct :=
  (permuted.map Prod.fst).nodup_iff.mpr distinct

theorem get?_perm (distinct : entries.Distinct) (permuted : entries'.Perm entries) (key : String) :
    entries'.get? key = entries.get? key := by
  ext value
  constructor
  · intro found
    exact get?_of_mem distinct (permuted.mem_iff.mp (mem_of_get? found))
  · intro found
    exact get?_of_mem (distinct.perm permuted) (permuted.mem_iff.mpr (mem_of_get? found))

theorem contains_perm (permuted : entries'.Perm entries) : entries'.contains = entries.contains := by
  funext key
  rw [Bool.eq_iff_iff, contains_iff, contains_iff]
  exact (permuted.map Prod.fst).mem_iff

end Entries

namespace DependencyGraph

variable {g g' : DependencyGraph}

structure Reordered (g' g : DependencyGraph) : Prop where
  names : g'.names.Perm g.names
  dependencies : g'.dependencies = g.dependencies

theorem reordered_ofMap {map map' : Entries (List String)} (distinct : map.Distinct) (permuted : map'.Perm map) :
    Reordered (ofMap map') (ofMap map) := by
  refine ⟨?_, ?_⟩
  · rw [names_ofMap, names_ofMap]
    exact permuted.map Prod.fst
  · funext name
    rw [dependencies_ofMap, dependencies_ofMap, Entries.get?_perm distinct permuted, Entries.contains_perm permuted]

theorem Reordered.cycleMembers (reordered : Reordered g' g) (root : String) :
    g'.cycleMembers root = g.cycleMembers root := by
  have count : g'.nodeCount = g.nodeCount := by
    simpa [nodeCount, DependencyGraph.names, Entries.keys] using reordered.names.length_eq
  unfold DependencyGraph.cycleMembers
  rw [reordered.dependencies, count]

-- The dependents stand in the order of the names, so they are the same but for that order.
theorem Reordered.dependents (reordered : Reordered g' g) (distinct : g.names.Nodup) (name : String) :
    (g'.dependents name).Perm (g.dependents name) := by
  have distinct' : g'.names.Nodup := reordered.names.nodup_iff.mpr distinct
  apply (List.perm_ext_iff_of_nodup ((dependents_sublist distinct' name).nodup distinct')
    ((dependents_sublist distinct name).nodup distinct)).mpr
  intro source
  rw [mem_dependents distinct', mem_dependents distinct, Edge, Edge, reordered.dependencies, reordered.names.mem_iff]

end DependencyGraph

def SchemaNode.withDependents (dependents : List String) (n : SchemaNode) : SchemaNode :=
  { n with metadata := { n.metadata with dependencies := { n.metadata.dependencies with referencedBy := dependents } } }

namespace Document

variable {d d' : Document}

theorem schemas_perm (permuted : d'.components.Perm d.components) : d'.schemas.Perm d.schemas :=
  permuted.filterMap _

theorem dependencyMap_perm (distinct : Entries.Distinct d.schemas) (permuted : d'.schemas.Perm d.schemas) :
    d'.dependencyMap.Perm d.dependencyMap := by
  have known : d'.knownDependencies = d.knownDependencies := by
    funext n
    refine List.filter_congr fun name _ => ?_
    rw [Bool.eq_iff_iff, List.contains_iff_mem, List.contains_iff_mem]
    exact (permuted.map Prod.fst).mem_iff
  rw [dependencyMap_eq (distinct.perm permuted), dependencyMap_eq distinct, known]
  exact permuted.map _

theorem annotated_reordered {g g' : DependencyGraph} (reordered : g'.Reordered g) (name : String) (n : SchemaNode) :
    annotated g' name n = (annotated g name n).withDependents (g'.dependents name) := by
  rw [annotated_eq, annotated_eq, reordered.cycleMembers]
  rfl

-- In whatever order the components stand, the analysis finds the same: each schema with its
-- dependencies in one order, each tree with its marks, the same names on cycles. Only the
-- lists of names that are kept in declaration order follow the order of the components.
theorem analyze_reordered (distinct : Entries.Distinct d.schemas) (permuted : d'.components.Perm d.components) :
    d'.analyze.schemaNames.Perm d.analyze.schemaNames ∧
    (∀ name, d'.analyze.dependencyGraph.nodes.get? name = d.analyze.dependencyGraph.nodes.get? name) ∧
    (∀ name root, d.analyze.schema? name = some root → ∃ dependents,
      dependents.Perm root.metadata.dependencies.referencedBy ∧
      d'.analyze.schema? name = some (root.withDependents dependents)) ∧
    d'.analyze.dependencyGraph.circularReferences.Perm d.analyze.dependencyGraph.circularReferences := by
  have schemas := schemas_perm permuted
  have map := dependencyMap_perm distinct schemas
  have reordered : d'.dependencyGraphOf.Reordered d.dependencyGraphOf :=
    DependencyGraph.reordered_ofMap d.dependencyMap_distinct map
  have once : d.dependencyGraphOf.names.Nodup := by
    rw [names_dependencyGraphOf distinct]
    exact distinct
  refine ⟨map.map Prod.fst, Entries.get?_perm d.dependencyMap_distinct map, ?_, ?_⟩
  · intro name root found
    rw [schema?_eq, schemas_analyze] at found
    obtain ⟨entry, listed, same⟩ := List.mem_map.mp (Entries.mem_of_get? found)
    obtain ⟨rfl, rfl⟩ := Prod.mk.inj same
    refine ⟨d'.dependencyGraphOf.dependents entry.1, ?_, ?_⟩
    · rw [annotated_eq]
      exact reordered.dependents once entry.1
    · have distinct' : Entries.Distinct d'.analyze.schemas := by
        unfold Entries.Distinct Entries.keys
        rw [keys_schemas_analyze]
        exact distinct.perm schemas
      rw [schema?_eq, ← annotated_reordered reordered]
      apply Entries.get?_of_mem distinct'
      rw [schemas_analyze]
      exact List.mem_map.mpr ⟨entry, schemas.mem_iff.mpr listed, rfl⟩
  · change ((d'.schemas.map Prod.fst).filter _).Perm ((d.schemas.map Prod.fst).filter _)
    simp only [reordered.cycleMembers]
    exact (schemas.map Prod.fst).filter _

def crossingBackwards : Document := { crossing with components := crossing.components.reverse }

theorem analyze_reordered_crossing : Entries.Distinct crossing.schemas ∧
    crossingBackwards.components.Perm crossing.components ∧
    crossing.analyze.dependencyGraph.topologicalOrder = ["S", "T", "R", "Q", "P"] ∧
    crossingBackwards.analyze.dependencyGraph.topologicalOrder = ["T", "P", "R", "Q", "S"] ∧
    crossingBackwards.analyze.dependencyGraph.nodes.get? "R" = some ["S", "P", "T"] ∧
    ∃ root dependents, crossing.analyze.schema? "Q" = some root ∧
      root.metadata.dependencies.referencedBy = ["P", "S"] ∧ dependents.Perm ["P", "S"] ∧
      crossingBackwards.analyze.schema? "Q" = some (root.withDependents dependents) := by
  have distinct : Entries.Distinct crossing.schemas := by unfold Entries.Distinct; decide
  have permuted : crossingBackwards.components.Perm crossing.components := List.reverse_perm _
  obtain ⟨_, nodes, trees, _⟩ := analyze_reordered distinct permuted
  have listed : (crossing.analyze.schema? "Q").map (·.metadata.dependencies.referencedBy) = some ["P", "S"] := by
    decide +kernel
  obtain ⟨root, found, referenced⟩ := Option.map_eq_some_iff.mp listed
  obtain ⟨dependents, same, tree⟩ := trees "Q" root found
  refine ⟨distinct, permuted, by decide +kernel, by decide +kernel, ?_, root, dependents, found, referenced, ?_, tree⟩
  · rw [nodes]
    decide +kernel
  · rwa [referenced] at same

end Document
end SchemaAtlas
