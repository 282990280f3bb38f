import SchemaAtlas.Graph.Analysis
import SchemaAtlas.Proofs.Boundary
import SchemaAtlas.Proofs.CycleDetector
import SchemaAtlas.Proofs.EmissionOrder
import SchemaAtlas.Proofs.FirstAppearances

namespace SchemaAtlas

theorem Parts.isBare_map (f : α → β) (p : Parts α) : (p.map f).isBare = p.isBare := by
  simp [isBare, map]

-- Metadata without what the analysis of a document writes.
def Metadata.unmarked (m : Metadata) : Metadata :=
  { m with dependencies := { m.dependencies with referencedBy := [] }, circularReferences := [] }

namespace SchemaNode

variable {n new : SchemaNode} {R : Metadata → Metadata → Prop}

theorem mem_schemaDependencies : name ∈ n.schemaDependencies ↔ n.RefersTo name := by
  simp [schemaDependencies, subtreeReferences, mem_firstAppearances, RefersTo]

-- A pass over a tree that writes metadata only: `new` is `n` with other metadata, at the
-- node and below it, and `R` tells how the metadata changes.
inductive Reworked (R : Metadata → Metadata → Prop) : SchemaNode → SchemaNode → Prop where
  | node {new n : SchemaNode} {f : SchemaNode → SchemaNode} : new.keywords = n.keywords → new.reference = n.reference →
      R new.metadata n.metadata → new.parts = n.parts.map f → (∀ child ∈ n.children, Reworked R (f child) child) →
      Reworked R new n

abbrev Remarked : SchemaNode → SchemaNode → Prop := Reworked fun new old => new.unmarked = old.unmarked

theorem children_map {f : SchemaNode → SchemaNode} (parts : new.parts = n.parts.map f) :
    new.children = n.children.map f := by
  rw [children, parts, Parts.toList_map]
  rfl

theorem Reworked.metadata (reworked : Reworked R new n) : R new.metadata n.metadata := by
  cases reworked with
  | node _ _ own _ _ => exact own

theorem Reworked.reference (reworked : Reworked R new n) : new.reference = n.reference := by
  cases reworked with
  | node _ same _ _ _ => exact same

theorem Reworked.visitedReferences (reworked : Reworked R new n) : new.visitedReferences = n.visitedReferences := by
  induction reworked with
  | @node new n f _ reference _ parts _ ih =>
    rw [visitedReferences_eq, visitedReferences_eq n, reference, children_map parts, List.map_map]
    congr 2
    exact List.map_congr_left fun child inside => ih child inside

theorem Reworked.refersTo (reworked : Reworked R new n) : new.RefersTo name ↔ n.RefersTo name := by
  unfold RefersTo
  rw [reworked.visitedReferences]

theorem Reworked.wellFormed (reworked : Reworked R new n) (sound : n.WellFormed) : new.WellFormed := by
  induction reworked with
  | @node new n f keywords reference _ parts _ ih =>
    obtain ⟨own, below⟩ := wellFormed_iff.mp sound
    have shape : new.hasStructure = n.hasStructure := by
      simp only [hasStructure, keywords, parts, Parts.isBare_map]
    refine wellFormed_iff.mpr ⟨⟨?_, ?_⟩, ?_⟩
    · rw [reference, shape]
      exact own.bare
    · rw [requiredNames, keywords, parts, Parts.propertyEntries_map, Entries.keys_mapValues]
      exact own.declared
    · intro child listed
      rw [children_map parts] at listed
      obtain ⟨old, inside, rfl⟩ := List.mem_map.mp listed
      exact ih old inside (below old inside)

theorem Reworked.trans {S T : Metadata → Metadata → Prop} {last : SchemaNode} (second : Reworked S last new)
    (first : Reworked R new n) (compose : ∀ a b c, S a b → R b c → T a c) : Reworked T last n := by
  induction first generalizing last with
  | @node new n f keywords reference metadata parts _ ih =>
    cases second with
    | @node _ _ h keywords' reference' metadata' parts' below =>
      refine .node (keywords'.trans keywords) (reference'.trans reference) (compose _ _ _ metadata' metadata)
        (f := h ∘ f) ?_ ?_
      · rw [parts', parts, Parts.map_map]
      · intro child inside
        refine ih child inside (below (f child) ?_)
        rw [children_map parts]
        exact List.mem_map_of_mem inside

theorem remarked_clear (n : SchemaNode) : Remarked n.clearCircular n := by
  induction n using children_induction with
  | step n ih =>
    rw [clearCircular_eq]
    exact .node rfl rfl rfl rfl ih

def annotatedPart (members : List String) (n : SchemaNode) : SchemaNode :=
  if members = [] then n.clearCircular else n.clearCircular.markCircular members

theorem annotateCircular_eq (members : List String) (n : SchemaNode) : n.annotateCircular members =
    { n with
      parts := n.parts.map (annotatedPart members)
      metadata := { n.metadata with circularReferences := members.map schemaRef } } := by
  unfold annotateCircular annotatedPart
  split
  · rename_i empty
    rw [clearCircular_eq, empty]
    rfl
  · simp only [clearCircular_eq n, Parts.map_map]
    rfl

theorem annotatedPart_eq (members : List String) (n : SchemaNode) : n.annotatedPart members =
    { n with
      parts := n.parts.map (annotatedPart members)
      metadata := { n.metadata with
        circularReferences := n.reference.toList.filter fun target => (schemaNameOf? target).any members.contains } } := by
  by_cases empty : members = []
  · have part : annotatedPart members = clearCircular := by
      funext child
      simp [annotatedPart, empty]
    have unmarked : n.reference.toList.filter (fun target => (schemaNameOf? target).any members.contains) = [] := by
      apply List.filter_eq_nil_iff.mpr
      intro target _
      cases schemaNameOf? target <;> simp [empty]
    rw [part, unmarked, clearCircular_eq]
  · have part : annotatedPart members = markCircular members ∘ clearCircular := by
      funext child
      simp [annotatedPart, empty]
    have marks : n.clearCircular.ownCircular members =
        n.reference.toList.filter fun target => (schemaNameOf? target).any members.contains := by
      rw [clearCircular_eq]
      unfold ownCircular
      cases n.reference with
      | none => rfl
      | some target => simp [List.filter_cons]
    rw [part, ← marks, Function.comp_apply, markCircular_eq, clearCircular_eq n, Parts.map_map]

theorem children_annotatedPart (members : List String) (n : SchemaNode) :
    (n.annotatedPart members).children = n.children.map (annotatedPart members) := by
  rw [annotatedPart_eq]
  exact children_map rfl

theorem remarked_annotatedPart (members : List String) (n : SchemaNode) : Remarked (n.annotatedPart members) n := by
  induction n using children_induction with
  | step n ih =>
    rw [annotatedPart_eq]
    exact .node rfl rfl rfl rfl ih

theorem refersTo_annotatedPart : (n.annotatedPart members).RefersTo name ↔ n.RefersTo name :=
  (remarked_annotatedPart members n).refersTo

theorem closesCycle_annotatedPart :
    (n.annotatedPart members).closesCycle = true ↔ ∃ name ∈ members, n.RefersTo name := by
  induction n using children_induction with
  | step n ih =>
    have marked : (n.annotatedPart members).metadata.circularReferences ≠ [] ↔
        ∃ target ∈ n.reference, ∃ name ∈ members, schemaNameOf? target = some name := by
      rw [annotatedPart_eq]
      simp [List.filter_eq_nil_iff, Option.any_eq_true, and_comm]
    rw [closesCycle_iff, marked, children_annotatedPart]
    constructor
    · rintro (⟨target, own, name, listed, named⟩ | ⟨_, below, closes⟩)
      · exact ⟨name, listed, refersTo_iff.mpr (.inl ⟨target, own, named⟩)⟩
      · obtain ⟨child, inside, rfl⟩ := List.mem_map.mp below
        obtain ⟨name, listed, refers⟩ := (ih child inside).mp closes
        exact ⟨name, listed, refersTo_iff.mpr (.inr ⟨child, inside, refers⟩)⟩
    · rintro ⟨name, listed, refers⟩
      rcases refersTo_iff.mp refers with ⟨target, own, named⟩ | ⟨child, inside, refers⟩
      · exact .inl ⟨target, own, name, listed, named⟩
      · exact .inr ⟨_, List.mem_map_of_mem inside, (ih child inside).mpr ⟨name, listed, refers⟩⟩

end SchemaNode

namespace Document

variable {d : Document}

theorem schemas_mapSchemas (f : String → SchemaNode → SchemaNode) (d : Document) :
    (d.mapSchemas f).schemas = d.schemas.map fun entry => (entry.1, f entry.1 entry.2) := by
  unfold schemas mapSchemas
  rw [List.filterMap_map, List.map_filterMap]
  refine List.filterMap_congr fun component _ => ?_
  cases component <;> rfl

theorem names_mapSchemas (f : String → SchemaNode → SchemaNode) (d : Document) :
    (d.mapSchemas f).schemas.map Prod.fst = d.schemas.map Prod.fst := by
  rw [schemas_mapSchemas, List.map_map]
  rfl

theorem schemas_analyze (d : Document) :
    d.analyze.schemas = d.schemas.map fun entry => (entry.1, annotated d.dependencyGraphOf entry.1 entry.2) :=
  schemas_mapSchemas _ d

theorem keys_schemas_analyze (d : Document) : d.analyze.schemas.map Prod.fst = d.schemas.map Prod.fst :=
  names_mapSchemas _ d

theorem schema?_eq (d : Document) (name : String) : d.schema? name = Entries.get? d.schemas name := by
  unfold schema? Entries.get?
  induction d.schemas with
  | nil => rfl
  | cons entry rest ih =>
    obtain ⟨other, node⟩ := entry
    by_cases same : other = name
    · subst same
      simp
    · simpa [List.lookup_cons, same, beq_eq_false_iff_ne.mpr (Ne.symm same)] using ih

theorem dependencyMap_distinct (d : Document) : d.dependencyMap.Distinct := Entries.ofList_distinct _

def knownDependencies (d : Document) (n : SchemaNode) : List String :=
  n.schemaDependencies.filter (d.schemas.map Prod.fst).contains

theorem mem_knownDependencies :
    name ∈ d.knownDependencies n ↔ n.RefersTo name ∧ name ∈ d.schemas.map Prod.fst := by
  unfold knownDependencies
  rw [List.mem_filter, SchemaNode.mem_schemaDependencies, List.contains_iff_mem]

theorem dependencyMap_eq (distinct : Entries.Distinct d.schemas) :
    d.dependencyMap = Entries.mapValues d.knownDependencies d.schemas :=
  Entries.ofList_of_distinct (by simpa [Entries.Distinct, Entries.keys, Function.comp_def] using distinct)

theorem keys_dependencyMap (distinct : Entries.Distinct d.schemas) :
    d.dependencyMap.keys = d.schemas.map Prod.fst := by
  rw [dependencyMap_eq distinct, Entries.keys_mapValues]
  rfl

theorem edge_dependencyGraphOf (distinct : Entries.Distinct d.schemas) (listed : (source, node) ∈ d.schemas) :
    d.dependencyGraphOf.Edge source target ↔ node.RefersTo target ∧ target ∈ d.schemas.map Prod.fst := by
  unfold dependencyGraphOf
  rw [DependencyGraph.edge_ofMap, keys_dependencyMap distinct, dependencyMap_eq distinct, Entries.get?_mapValues,
    Entries.get?_of_mem distinct listed, Option.map_some, Option.getD_some, mem_knownDependencies]
  exact and_iff_left_of_imp And.right

theorem closed_dependencyGraphOf (d : Document) : d.dependencyGraphOf.Closed := DependencyGraph.closed_ofMap _

theorem names_dependencyGraphOf (distinct : Entries.Distinct d.schemas) :
    d.dependencyGraphOf.names = d.schemas.map Prod.fst := by
  unfold dependencyGraphOf
  rw [DependencyGraph.names_ofMap, keys_dependencyMap distinct]

-- Of a component that stands twice the map keeps one, and the names no longer agree.
theorem distinct_of_verified (sound : d.analyze.WellFormed) : Entries.Distinct d.schemas := by
  have names : d.schemas.map Prod.fst = d.dependencyMap.keys := (keys_schemas_analyze d).symm.trans sound.names
  unfold Entries.Distinct Entries.keys
  rw [names]
  exact d.dependencyMap_distinct

theorem annotated_eq (g : DependencyGraph) (name : String) (n : SchemaNode) : annotated g name n =
    { n with
      parts := n.parts.map (SchemaNode.annotatedPart (g.cycleMembers name))
      metadata := { n.metadata with
        dependencies := { n.metadata.dependencies with referencedBy := g.dependents name }
        circularReferences := (g.cycleMembers name).map schemaRef } } := by
  unfold annotated
  rw [SchemaNode.annotateCircular_eq]

theorem remarked_annotated (g : DependencyGraph) (name : String) (node : SchemaNode) :
    SchemaNode.Remarked (annotated g name node) node := by
  rw [annotated_eq]
  exact .node rfl rfl rfl rfl fun child _ => SchemaNode.remarked_annotatedPart _ child

-- The schemas among `names` that some references are to, in their order and as often as
-- they occur.
def occurrences (names references : List String) : List String :=
  (references.filterMap schemaNameOf?).filter names.contains

theorem mem_occurrences : name ∈ occurrences names references ↔
    (∃ text ∈ references, schemaNameOf? text = some name) ∧ name ∈ names := by
  simp [occurrences, List.mem_filter, List.mem_filterMap]

theorem occurrences_eraseDups (names references : List String) :
    (occurrences names references.eraseDups).eraseDups = (occurrences names references).eraseDups := by
  unfold occurrences
  rw [← eraseDups_filter, eraseDups_filterMap, eraseDups_filter]

theorem knownDependencies_eq (d : Document) (n : SchemaNode) :
    d.knownDependencies n = (occurrences (d.schemas.map Prod.fst) n.visitedReferences).eraseDups := by
  unfold knownDependencies SchemaNode.schemaDependencies SchemaNode.subtreeReferences
  rw [firstAppearances_eq_eraseDups, firstAppearances_eq_eraseDups, eraseDups_filterMap, eraseDups_filter]
  rfl

theorem nodes_analyze (distinct : Entries.Distinct d.schemas) {entry : String × SchemaNode}
    (listed : entry ∈ d.analyze.schemas) : d.analyze.dependencyGraph.nodes.get? entry.1 =
      some (occurrences (d.analyze.schemas.map Prod.fst) entry.2.visitedReferences).eraseDups := by
  rw [schemas_analyze] at listed
  obtain ⟨old, inside, rfl⟩ := List.mem_map.mp listed
  change d.dependencyMap.get? old.1 = _
  rw [dependencyMap_eq distinct, Entries.get?_mapValues, Entries.get?_of_mem distinct inside, Option.map_some,
    knownDependencies_eq, keys_schemas_analyze, (remarked_annotated _ _ _).visitedReferences]

theorem analyze_wellFormed (distinct : Entries.Distinct d.schemas) (sound : ∀ entry ∈ d.schemas, entry.2.WellFormed) :
    d.analyze.WellFormed := by
  have closed := d.closed_dependencyGraphOf
  have keys := keys_dependencyMap distinct
  refine ⟨?_, ?_, ?_, rfl, ?_, ?_⟩
  · exact (keys_schemas_analyze d).trans keys.symm
  · exact DependencyGraph.topologicalOrder_nodup closed
  · intro name
    exact (DependencyGraph.mem_topologicalOrder closed).trans (by rw [dependencyGraphOf, DependencyGraph.names_ofMap]; rfl)
  · intro name marked
    have listed : name ∈ d.schemas.map Prod.fst := (List.mem_filter.mp marked).1
    rwa [← keys] at listed
  · intro entry listed
    rw [schemas_analyze] at listed
    obtain ⟨old, below, rfl⟩ := List.mem_map.mp listed
    exact (remarked_annotated _ _ _).wellFormed (sound old below)

end Document
end SchemaAtlas
