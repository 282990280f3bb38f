import SchemaAtlas.Proofs.Analysis
import SchemaAtlas.Proofs.Pointer

namespace SchemaAtlas
namespace DependencyGraph

section
variable {positions : List Nat} {position other : Nat}

theorem mem_insertAscending : other ∈ insertAscending position positions ↔ other = position ∨ other ∈ positions := by
  induction positions with
  | nil => simp [insertAscending]
  | cons first rest ih =>
    unfold insertAscending
    split
    · exact List.mem_cons
    · split
      · rename_i same
        simp [same]
      · rw [List.mem_cons, ih, List.mem_cons]
        exact or_left_comm

theorem insertAscending_pairwise (ordered : positions.Pairwise (· < ·)) :
    (insertAscending position positions).Pairwise (· < ·) := by
  induction positions with
  | nil => exact List.pairwise_singleton _ _
  | cons first rest ih =>
    obtain ⟨least, below⟩ := List.pairwise_cons.mp ordered
    unfold insertAscending
    split
    · rename_i less
      refine List.pairwise_cons.mpr ⟨?_, ordered⟩
      intro later inside
      rcases List.mem_cons.mp inside with rfl | inside
      · exact less
      · exact Nat.lt_trans less (least later inside)
    · split
      · exact ordered
      · rename_i notLess differs
        refine List.pairwise_cons.mpr ⟨?_, ih below⟩
        intro later inside
        rcases mem_insertAscending.mp inside with rfl | inside
        · omega
        · exact least later inside

theorem mem_ascending : position ∈ ascending positions ↔ position ∈ positions := by
  induction positions with
  | nil => rfl
  | cons first rest ih =>
    change position ∈ insertAscending first (ascending rest) ↔ _
    rw [mem_insertAscending, ih, List.mem_cons]

theorem ascending_pairwise (positions : List Nat) : (ascending positions).Pairwise (· < ·) := by
  induction positions with
  | nil => exact List.Pairwise.nil
  | cons first rest ih => exact insertAscending_pairwise ih

end

variable {g : DependencyGraph} {positions : List Nat}

theorem idxOf?_iff (distinct : g.names.Nodup) : g.names.idxOf? name = some position ↔ g.names[position]? = some name := by
  rw [List.idxOf?_eq_some_iff, List.getElem?_eq_some_iff]
  constructor
  · rintro ⟨bound, same, _⟩
    exact ⟨bound, same⟩
  · rintro ⟨bound, same⟩
    refine ⟨bound, same, fun earlier less again => ?_⟩
    have equal := (distinct.getElem_inj_iff).mp (again.trans same.symm)
    omega

theorem mem_edges (distinct : g.names.Nodup) : (source, target) ∈ g.edges ↔
    ∃ first second, g.names[source]? = some first ∧ g.names[target]? = some second ∧ g.Edge first second := by
  have entry_of : ∀ entry : String × List String, entry ∈ g.entries → g.dependencies entry.1 = entry.2 := by
    intro entry inside
    rw [dependencies, Entries.get?_of_mem distinct inside, Option.getD_some]
  unfold edges
  simp only [List.mem_flatMap, List.mem_filterMap, Option.map_eq_some_iff, Prod.mk.injEq, idxOf?_iff distinct]
  constructor
  · rintro ⟨⟨entry, position⟩, listed, second, inside, _, found, rfl, rfl⟩
    have stands := List.mem_zipIdx_iff_getElem?.mp listed
    refine ⟨entry.1, second, ?_, found, ?_⟩
    · rw [names, Entries.keys, List.getElem?_map, stands]
      rfl
    · rw [Edge, entry_of entry (List.mem_of_getElem? stands)]
      exact inside
  · rintro ⟨first, second, named, found, edge⟩
    rw [names, Entries.keys, List.getElem?_map, Option.map_eq_some_iff] at named
    obtain ⟨entry, stands, rfl⟩ := named
    rw [Edge, entry_of entry (List.mem_of_getElem? stands)] at edge
    exact ⟨(entry, source), List.mem_zipIdx_iff_getElem?.mpr stands, second, edge, target, found, rfl, rfl⟩

theorem mem_dependents (distinct : g.names.Nodup) :
    source ∈ g.dependents name ↔ g.Edge source name ∧ name ∈ g.names := by
  unfold dependents
  cases found : g.names.idxOf? name with
  | none =>
    have unknown := List.idxOf?_eq_none_iff.mp found
    simp [unknown]
  | some target =>
    have stands := (idxOf?_iff distinct).mp found
    simp only [List.mem_filterMap, mem_ascending, List.mem_map, List.mem_reverse, List.mem_filter, beq_iff_eq]
    constructor
    · rintro ⟨_, ⟨⟨position, _⟩, ⟨listed, rfl⟩, rfl⟩, named⟩
      obtain ⟨first, second, from_, to_, edge⟩ := (mem_edges distinct).mp listed
      cases Option.some.inj (from_.symm.trans named)
      cases Option.some.inj (to_.symm.trans stands)
      exact ⟨edge, List.mem_of_getElem? stands⟩
    · rintro ⟨edge, _⟩
      have known : source ∈ g.names := by
        by_contra unknown
        rw [Edge, dependencies_unknown g unknown] at edge
        cases edge
      obtain ⟨position, named⟩ := List.mem_iff_getElem?.mp known
      exact ⟨position, ⟨(position, target), ⟨(mem_edges distinct).mpr ⟨source, name, named, stands, edge⟩, rfl⟩, rfl⟩,
        named⟩

theorem picked_sublist (distinct : g.names.Nodup) (ordered : positions.Pairwise (· < ·)) :
    (positions.filterMap fun position => g.names[position]?).Sublist g.names := by
  have picked : (positions.filterMap fun position => g.names[position]?).Pairwise (Before g.names) := by
    refine ordered.filterMap _ fun i j less a first b second => ?_
    obtain ⟨i_lt, rfl⟩ := List.getElem?_eq_some_iff.mp first
    obtain ⟨j_lt, rfl⟩ := List.getElem?_eq_some_iff.mp second
    refine ⟨List.getElem_mem j_lt, ?_⟩
    rwa [distinct.idxOf_getElem, distinct.idxOf_getElem]
  refine List.sublist_of_subperm_of_pairwise (picked.nodup.subperm ?_) picked (pairwise_before distinct)
  intro name listed
  obtain ⟨_, _, named⟩ := List.mem_filterMap.mp listed
  exact List.mem_of_getElem? named

theorem dependents_sublist (distinct : g.names.Nodup) (name : String) : (g.dependents name).Sublist g.names := by
  unfold dependents
  split
  · exact List.nil_sublist _
  · exact picked_sublist distinct (ascending_pairwise _)

end DependencyGraph

namespace SchemaNode

variable {n : SchemaNode}

theorem refersTo_iff_inside : n.RefersTo name ↔
    ∃ inner, Inside inner n ∧ ∃ text ∈ inner.reference, ComponentRef.ofText? text = some (.schema name) := by
  induction n using children_induction with
  | step n ih =>
    rw [refersTo_iff]
    constructor
    · rintro (⟨text, own, named⟩ | ⟨child, below, refers⟩)
      · exact ⟨n, .here, text, own, schemaNameOf?_iff.mp named⟩
      · obtain ⟨inner, inside, found⟩ := (ih child below).mp refers
        exact ⟨inner, .down below inside, found⟩
    · rintro ⟨inner, inside, text, own, named⟩
      cases inside with
      | here => exact .inl ⟨text, own, schemaNameOf?_iff.mpr named⟩
      | down below inside => exact .inr ⟨_, below, (ih _ below).mpr ⟨inner, inside, text, own, named⟩⟩

end SchemaNode

namespace Document

variable {d : Document}

-- The names of the schemas in their order; to each its dependencies, which are the schemas
-- of the document that its tree refers to; and on each root the schemas that depend on it.
theorem analyze_summary (distinct : Entries.Distinct d.schemas) :
    d.analyze.schemas.map Prod.fst = d.schemas.map Prod.fst ∧
    d.analyze.schemaNames = d.schemas.map Prod.fst ∧
    d.analyze.dependencyGraph.nodes.keys = d.schemas.map Prod.fst ∧
    (∀ source node, (source, node) ∈ d.schemas → ∃ dependencies,
      d.analyze.dependencyGraph.nodes.get? source = some dependencies ∧ dependencies.Nodup ∧
      ∀ target, target ∈ dependencies ↔ target ∈ d.schemas.map Prod.fst ∧
        ∃ inner, SchemaNode.Inside inner node ∧
          ∃ text ∈ inner.reference, ComponentRef.ofText? text = some (.schema target)) ∧
    (∀ target root, (target, root) ∈ d.analyze.schemas →
      root.metadata.dependencies.referencedBy.Sublist d.analyze.schemaNames ∧
      root.metadata.dependencies.referencedBy.Nodup ∧
      ∀ source, source ∈ root.metadata.dependencies.referencedBy ↔
        ∃ dependencies, d.analyze.dependencyGraph.nodes.get? source = some dependencies ∧ target ∈ dependencies) := by
  have keys := keys_dependencyMap distinct
  have names := names_dependencyGraphOf distinct
  have once : d.dependencyGraphOf.names.Nodup := names.symm ▸ distinct
  have recorded : ∀ source node, (source, node) ∈ d.schemas →
      d.dependencyMap.get? source = some (d.knownDependencies node) := by
    intro source node listed
    rw [dependencyMap_eq distinct, Entries.get?_mapValues, Entries.get?_of_mem distinct listed, Option.map_some]
  refine ⟨keys_schemas_analyze d, keys, keys, ?_, ?_⟩
  · intro source node listed
    refine ⟨_, recorded source node listed, ?_, ?_⟩
    · rw [knownDependencies_eq]
      exact eraseDups_nodup _
    · intro target
      rw [mem_knownDependencies, SchemaNode.refersTo_iff_inside]
      exact and_comm
  · intro target root listed
    rw [schemas_analyze] at listed
    obtain ⟨entry, inside, same⟩ := List.mem_map.mp listed
    obtain ⟨rfl, rfl⟩ := Prod.mk.inj same
    have lists := DependencyGraph.dependents_sublist once entry.1
    rw [annotated_eq]
    refine ⟨?_, lists.nodup once, ?_⟩
    · rw [names, ← keys] at lists
      exact lists
    · intro source
      change source ∈ d.dependencyGraphOf.dependents entry.1 ↔ _
      rw [DependencyGraph.mem_dependents once, names]
      constructor
      · rintro ⟨edge, _⟩
        have known := DependencyGraph.edge_declared edge
        rw [names] at known
        obtain ⟨⟨_, node⟩, below, rfl⟩ := List.mem_map.mp known
        refine ⟨_, recorded _ node below, ?_⟩
        exact mem_knownDependencies.mpr ((edge_dependencyGraphOf distinct below).mp edge)
      · rintro ⟨dependencies, found, member⟩
        have known : source ∈ d.schemas.map Prod.fst := keys ▸ List.mem_map_of_mem (Entries.mem_of_get? found)
        obtain ⟨⟨_, node⟩, below, rfl⟩ := List.mem_map.mp known
        cases Option.some.inj (found.symm.trans (recorded _ node below))
        have depends := mem_knownDependencies.mp member
        exact ⟨(edge_dependencyGraphOf distinct below).mpr depends, depends.2⟩

-- One name in two spellings, a reference to itself, one into another document, one that
-- nothing answers to, and one to a component that is no schema.
def spelled : Document := {
  sourceFormatVersion := "3.0.0"
  components := [
    .schema "x" { parts := { anyOf := some [
      .ofReference "#/components/schemas/a~0b", .ofReference "#/components/schemas/x",
      .ofReference "#/components/schemas/a~b", .ofReference "#/x-ext/h/components/schemas/y",
      .ofReference "#/components/schemas/gone"] } },
    .schema "a~b" { parts := { prefixItems := some [.ofReference "#/components/schemas/x"] } },
    .schema "y" { parts := { items := some (.ofReference "#/components/schemas/a~b"), oneOf := some [
      .ofReference "#/components/parameters/x", .ofReference "#/components/schemas/a~b"] } }] }

theorem analyze_summary_spelled : Entries.Distinct spelled.schemas ∧
    spelled.analyze.schemaNames = ["x", "a~b", "y"] ∧
    spelled.analyze.dependencyGraph.nodes = [("x", ["a~b", "x"]), ("a~b", ["x"]), ("y", ["a~b"])] ∧
    spelled.analyze.schemas.map (fun entry => (entry.1, entry.2.metadata.dependencies.referencedBy)) =
      [("x", ["x", "a~b"]), ("a~b", ["x", "y"]), ("y", [])] ∧
    ∀ target root, (target, root) ∈ spelled.analyze.schemas →
      ∀ source, source ∈ root.metadata.dependencies.referencedBy ↔ ∃ dependencies,
        spelled.analyze.dependencyGraph.nodes.get? source = some dependencies ∧ target ∈ dependencies := by
  have distinct : Entries.Distinct spelled.schemas := by unfold Entries.Distinct; decide
  obtain ⟨_, names, _, _, dependents⟩ := analyze_summary distinct
  exact ⟨distinct, names, by decide +kernel, by decide +kernel, fun target root listed => (dependents target root listed).2.2⟩

end Document
end SchemaAtlas
