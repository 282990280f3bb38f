import SchemaAtlas.Proofs.Analysis

namespace SchemaAtlas

namespace Parts

theorem map_congr {f h : α → β} {p : Parts α} (same : ∀ part ∈ p.toList, f part = h part) : p.map f = p.map h := by
  rw [← mapEach_eq_map, ← mapEach_eq_map]
  congr 1
  funext part inside
  exact same part inside

end Parts

def Metadata.withoutMarks (m : Metadata) : Metadata := { m with circularReferences := [] }

namespace SchemaNode

variable {n : SchemaNode} {f : Metadata → Metadata}

def mapMetadata (f : Metadata → Metadata) (n : SchemaNode) : SchemaNode :=
  { n with
    parts := n.parts.mapEach fun child _ => child.mapMetadata f
    metadata := f n.metadata }
termination_by sizeOf n
decreasing_by exact sizeOf_child_lt ‹_›

theorem mapMetadata_eq (f : Metadata → Metadata) (n : SchemaNode) :
    n.mapMetadata f = { n with parts := n.parts.map (mapMetadata f), metadata := f n.metadata } := by
  rw [mapMetadata, Parts.mapEach_eq_map]

theorem reworked_mapMetadata (f : Metadata → Metadata) (n : SchemaNode) :
    Reworked (fun new old => new = f old) (n.mapMetadata f) n := by
  induction n using children_induction with
  | step n ih =>
    rw [mapMetadata_eq]
    exact .node rfl rfl rfl rfl ih

theorem Reworked.mapMetadata {R : Metadata → Metadata → Prop} (reworked : Reworked R new n)
    (unseen : ∀ m m', R m m' → f m = f m') : new.mapMetadata f = n.mapMetadata f := by
  induction reworked with
  | @node new n pass keywords reference metadata parts _ ih =>
    rw [mapMetadata_eq, mapMetadata_eq f n, keywords, reference, unseen _ _ metadata, parts, Parts.map_map]
    congr 1
    exact Parts.map_congr ih

def withoutMarks (n : SchemaNode) : SchemaNode := n.mapMetadata Metadata.withoutMarks

theorem clearCircular_eq_withoutMarks (n : SchemaNode) : n.clearCircular = n.withoutMarks := by
  unfold withoutMarks
  induction n using children_induction with
  | step n ih =>
    rw [clearCircular_eq, mapMetadata_eq, Parts.map_congr ih]
    rfl

theorem withoutMarks_idem (n : SchemaNode) : n.withoutMarks.withoutMarks = n.withoutMarks := by
  refine (reworked_mapMetadata Metadata.withoutMarks n).mapMetadata ?_
  rintro _ _ rfl
  rfl

theorem withoutMarks_annotatedPart (members : List String) (n : SchemaNode) :
    (n.annotatedPart members).withoutMarks = n.withoutMarks := by
  unfold withoutMarks
  induction n using children_induction with
  | step n ih =>
    rw [annotatedPart_eq, mapMetadata_eq, mapMetadata_eq _ n, Parts.map_map]
    congr 1
    exact Parts.map_congr ih

theorem annotatedPart_withoutMarks (members : List String) (n : SchemaNode) :
    n.withoutMarks.annotatedPart members = n.annotatedPart members := by
  -- Marking starts from a cleared tree.
  unfold annotatedPart
  simp only [clearCircular_eq_withoutMarks, withoutMarks_idem]

-- A schema component without what an analysis writes: the marks of all its nodes, and the
-- dependents, which only the root of a component lists.
def unannotated (n : SchemaNode) : SchemaNode :=
  { n with parts := n.parts.map withoutMarks, metadata := n.metadata.unmarked }

theorem remarked_unannotated (n : SchemaNode) : Remarked n.unannotated n :=
  .node rfl rfl rfl rfl fun child _ => clearCircular_eq_withoutMarks child ▸ remarked_clear child

end SchemaNode

namespace Document

variable {d : Document} {f : String → SchemaNode → SchemaNode}

theorem unannotated_annotated (g : DependencyGraph) (name : String) (n : SchemaNode) :
    (annotated g name n).unannotated = n.unannotated := by
  rw [annotated_eq]
  unfold SchemaNode.unannotated
  dsimp only
  rw [Parts.map_map]
  congr 1
  exact Parts.map_congr fun part _ => SchemaNode.withoutMarks_annotatedPart _ part

theorem annotated_unannotated (g : DependencyGraph) (name : String) (n : SchemaNode) :
    annotated g name n.unannotated = annotated g name n := by
  rw [annotated_eq, annotated_eq]
  unfold SchemaNode.unannotated
  dsimp only
  rw [Parts.map_map]
  congr 1
  exact Parts.map_congr fun part _ => SchemaNode.annotatedPart_withoutMarks _ part

theorem mapSchemas_mapSchemas (f h : String → SchemaNode → SchemaNode) (d : Document) :
    (d.mapSchemas f).mapSchemas h = d.mapSchemas fun name n => h name (f name n) := by
  unfold mapSchemas
  dsimp only
  rw [List.map_map]
  congr 1
  refine List.map_congr_left fun component _ => ?_
  cases component <;> rfl

theorem dependencyMap_mapSchemas (kept : ∀ name n, (f name n).visitedReferences = n.visitedReferences) :
    (d.mapSchemas f).dependencyMap = d.dependencyMap := by
  unfold dependencyMap
  rw [names_mapSchemas, schemas_mapSchemas]
  dsimp only
  rw [List.map_map]
  congr 1
  refine List.map_congr_left fun entry _ => ?_
  simp only [Function.comp_apply, SchemaNode.schemaDependencies, SchemaNode.subtreeReferences, kept]

theorem dependencyGraphOf_analyze (d : Document) : d.analyze.dependencyGraphOf = d.dependencyGraphOf :=
  congrArg DependencyGraph.ofMap (dependencyMap_mapSchemas fun name n => (remarked_annotated _ name n).visitedReferences)

def unanalyzed (d : Document) : Document :=
  { d.mapSchemas fun _ n => n.unannotated with dependencyGraph := {}, schemaNames := [], enums := [] }

theorem analyze_unanalyzed (d : Document) : d.unanalyzed.analyze = d.analyze := by
  have map : d.unanalyzed.dependencyMap = d.dependencyMap :=
    dependencyMap_mapSchemas fun _ n => (SchemaNode.remarked_unannotated n).visitedReferences
  have graph : d.unanalyzed.dependencyGraphOf = d.dependencyGraphOf := congrArg DependencyGraph.ofMap map
  have names : d.unanalyzed.schemas.map Prod.fst = d.schemas.map Prod.fst := names_mapSchemas _ d
  have components : (d.unanalyzed.mapSchemas (annotated d.dependencyGraphOf)).components =
      (d.mapSchemas (annotated d.dependencyGraphOf)).components := by
    change ((d.mapSchemas fun _ n => n.unannotated).mapSchemas _).components = _
    rw [mapSchemas_mapSchemas]
    simp only [annotated_unannotated]
  have enums : (d.unanalyzed.mapSchemas (annotated d.dependencyGraphOf)).enumSummaries =
      (d.mapSchemas (annotated d.dependencyGraphOf)).enumSummaries := by
    unfold enumSummaries schemas
    rw [components]
  unfold analyze
  dsimp only
  rw [map, graph, names, components, enums]
  rfl

theorem unanalyzed_analyze (d : Document) : d.analyze.unanalyzed = d.unanalyzed := by
  have components : ((d.mapSchemas (annotated d.dependencyGraphOf)).mapSchemas fun _ n => n.unannotated) =
      d.mapSchemas fun _ n => n.unannotated := by
    rw [mapSchemas_mapSchemas]
    simp only [unannotated_annotated]
  unfold unanalyzed
  exact congrArg (fun marked : Document =>
    { marked with dependencyGraph := {}, schemaNames := [], enums := [] }) components

theorem analyze_forgets (d : Document) : d.analyze.analyze = d.analyze ∧ d.analyze.unanalyzed = d.unanalyzed ∧
    ∀ other : Document, other.unanalyzed = d.unanalyzed → other.analyze = d.analyze := by
  have forgets : ∀ other : Document, other.unanalyzed = d.unanalyzed → other.analyze = d.analyze := by
    intro other same
    rw [← analyze_unanalyzed other, same, analyze_unanalyzed]
  exact ⟨forgets d.analyze (unanalyzed_analyze d), unanalyzed_analyze d, forgets⟩

-- A component that holds a list of itself, with whatever an earlier analysis left at its
-- root and at the reference far down, in the summary and in the names.
def listOfSelf (root leaf : Metadata) (summary : DependencySummary) (names : List String) : Document where
  sourceFormatVersion := "3.1.0"
  components :=
    let items : SchemaNode := { reference := some (schemaRef "Node"), metadata := leaf }
    let children : SchemaNode := { keywords := { type := some .array }, parts := { items := some items } }
    [.schema "Node"
      { keywords := { type := some .object }, parts := { properties := some [("children", children)] }, metadata := root }]
  dependencyGraph := summary
  schemaNames := names

def unanalyzedList : Document := listOfSelf {} {} {} []

def staleList : Document :=
  listOfSelf { dependencies := { referencedBy := ["Gone"] }, circularReferences := [schemaRef "Gone"] }
    { circularReferences := [schemaRef "Gone"] } { topologicalOrder := ["Gone"], circularReferences := ["Gone"] } ["Gone"]

theorem unanalyzed_listOfSelf (root leaf : Metadata) (summary : DependencySummary) (names : List String) :
    (listOfSelf root leaf summary names).unanalyzed = listOfSelf root.unmarked leaf.withoutMarks {} [] := by
  have items : SchemaNode.withoutMarks { reference := some (schemaRef "Node"), metadata := leaf } =
      { reference := some (schemaRef "Node"), metadata := leaf.withoutMarks } := by
    rw [SchemaNode.withoutMarks, SchemaNode.mapMetadata_eq]
    rfl
  have children (child : SchemaNode) :
      SchemaNode.withoutMarks { keywords := { type := some .array }, parts := { items := some child } } =
        { keywords := { type := some .array }, parts := { items := some child.withoutMarks } } := by
    rw [SchemaNode.withoutMarks, SchemaNode.mapMetadata_eq]
    rfl
  simp only [listOfSelf, unanalyzed, mapSchemas, Component.mapSchema, SchemaNode.unannotated, Parts.map, children, items,
    List.map_cons, List.map_nil, Option.map_some, Option.map_none]

theorem analyze_forgets_stale : staleList.unanalyzed = unanalyzedList.unanalyzed ∧
    staleList.schemaNames ≠ unanalyzedList.schemaNames ∧ staleList.analyze = unanalyzedList.analyze := by
  have same : staleList.unanalyzed = unanalyzedList.unanalyzed := by
    unfold staleList unanalyzedList
    rw [unanalyzed_listOfSelf, unanalyzed_listOfSelf]
    rfl
  exact ⟨same, by decide, (analyze_forgets unanalyzedList).2.2 staleList same⟩

end Document
end SchemaAtlas
