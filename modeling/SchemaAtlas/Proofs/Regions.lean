import SchemaAtlas.Proofs.Analysis

namespace SchemaAtlas
namespace Document

variable {d : Document} {regions : List Region} {r : Region}

theorem regions_ok : d.regions = .ok regions ↔
    d.WellFormed ∧ d.dependencyGraph.topologicalOrder.filterMap d.region? = regions := by
  unfold Document.regions
  rw [check_ok, verify_ok]
  simp only [pure, Except.pure, Except.ok.injEq]

theorem region?_some (found : d.region? name = some r) : r.name = name ∧ (name, r.schema) ∈ d.schemas ∧
    r.dependencies = (d.dependencyGraph.nodes.get? name).getD [] := by
  unfold region? at found
  obtain ⟨node, held, rfl⟩ := Option.map_eq_some_iff.mp found
  rw [schema?_eq] at held
  exact ⟨rfl, Entries.mem_of_get? held, rfl⟩

theorem exists_region? (listed : name ∈ Entries.keys d.schemas) : ∃ r, d.region? name = some r := by
  obtain ⟨node, held⟩ := Entries.exists_get? listed
  rw [← schema?_eq] at held
  exact ⟨_, by rw [region?, held]; rfl⟩

theorem regions_names (accepted : d.regions = .ok regions) :
    regions.map Region.name = d.dependencyGraph.topologicalOrder := by
  obtain ⟨sound, rfl⟩ := regions_ok.mp accepted
  rw [List.map_filterMap]
  refine (List.filterMap_congr fun name listed => ?_).trans List.filterMap_some
  have known : name ∈ d.schemas.map Prod.fst := sound.names ▸ (sound.ordered name).mp listed
  obtain ⟨r, found⟩ := exists_region? known
  rw [found, Option.map_some, (region?_some found).1]

theorem exists_region (accepted : d.regions = .ok regions) (listed : name ∈ d.schemas.map Prod.fst) :
    ∃ r ∈ regions, r.name = name := by
  obtain ⟨sound, _⟩ := regions_ok.mp accepted
  rw [sound.names, ← sound.ordered, ← regions_names accepted] at listed
  exact List.mem_map.mp listed

theorem mem_regions (accepted : d.regions = .ok regions) (inside : r ∈ regions) : (r.name, r.schema) ∈ d.schemas := by
  obtain ⟨_, rfl⟩ := regions_ok.mp accepted
  obtain ⟨name, _, found⟩ := List.mem_filterMap.mp inside
  obtain ⟨rfl, held, _⟩ := region?_some found
  exact held

theorem regions_schemas (distinct : Entries.Distinct d.schemas) (accepted : d.regions = .ok regions) :
    (regions.map fun r => (r.name, r.schema)).Perm d.schemas := by
  have once : (regions.map fun r => (r.name, r.schema)).Nodup := by
    refine List.Nodup.of_map Prod.fst ?_
    rw [List.map_map]
    exact regions_names accepted ▸ (regions_ok.mp accepted).1.once
  refine (List.perm_ext_iff_of_nodup once (List.Nodup.of_map _ distinct)).mpr fun entry => ?_
  constructor
  · intro listed
    obtain ⟨r, inside, rfl⟩ := List.mem_map.mp listed
    exact mem_regions accepted inside
  · intro listed
    obtain ⟨r, inside, named⟩ := exists_region accepted (List.mem_map_of_mem (f := Prod.fst) listed)
    have shown := Entries.get?_of_mem distinct (mem_regions accepted inside)
    rw [named, Entries.get?_of_mem distinct listed] at shown
    exact List.mem_map.mpr ⟨r, inside, Prod.ext named (Option.some.inj shown).symm⟩

-- The boundary lets the document through: it is well formed, no schema name comes twice,
-- every check passes, and it is handed on as one region for each schema component, in the
-- order of the summary.
structure Accepted (d : Document) : Prop where
  sound : d.WellFormed
  distinct : Entries.Distinct d.schemas
  verified : d.verify = .ok ()
  regions : ∃ regions, d.regions = .ok regions ∧ regions.map Region.name = d.dependencyGraph.topologicalOrder ∧
    (regions.map fun r => (r.name, r.schema)).Perm d.schemas

theorem WellFormed.accepted (sound : d.WellFormed) (distinct : Entries.Distinct d.schemas) : d.Accepted := by
  have given := regions_ok.mpr ⟨sound, rfl⟩
  exact ⟨sound, distinct, verify_ok.mpr sound, _, given, regions_names given, regions_schemas distinct given⟩

-- The boundary accepts a document exactly where its summary names its schemas and every
-- node of its schemas can be emitted; a document that it accepts names no schema twice.
theorem regions_iff (once : d.dependencyGraph.nodes.Distinct) :
    ((∃ regions, d.regions = .ok regions) ↔
      d.schemas.map Prod.fst = d.schemaNames ∧
      d.dependencyGraph.topologicalOrder.Nodup ∧
      (∀ name, name ∈ d.dependencyGraph.topologicalOrder ↔ name ∈ d.schemaNames) ∧
      d.dependencyGraph.nodes.keys = d.schemaNames ∧
      (∀ name ∈ d.dependencyGraph.circularReferences, name ∈ d.schemaNames) ∧
      ∀ entry ∈ d.schemas, ∀ inner, SchemaNode.Inside inner entry.2 →
        (∀ target ∈ inner.reference, inner = { reference := some target, metadata := inner.metadata } ∧
          (ComponentRef.ofText? target).isSome = true) ∧
        ∀ name ∈ inner.requiredNames, name ∈ inner.parts.propertyEntries.keys) ∧
    ∀ regions, d.regions = .ok regions →
      (d.schemas.map Prod.fst).Nodup ∧ (regions.map fun r => (r.name, r.schema)).Perm d.schemas := by
  refine ⟨?_, fun regions accepted => ?_⟩
  · simp only [← SchemaNode.emittable_iff]
    constructor
    · rintro ⟨regions, accepted⟩
      obtain ⟨sound, _⟩ := regions_ok.mp accepted
      exact ⟨sound.names, sound.once, sound.ordered, sound.nodes, sound.circular, sound.schemas⟩
    · rintro ⟨names, order, ordered, nodes, circular, schemas⟩
      exact ⟨_, regions_ok.mpr ⟨⟨names, order, ordered, nodes, circular, schemas⟩, rfl⟩⟩
  · obtain ⟨sound, _⟩ := regions_ok.mp accepted
    have distinct : (d.schemas.map Prod.fst).Nodup := by
      rw [sound.names, ← sound.nodes]
      exact once
    exact ⟨distinct, regions_schemas distinct accepted⟩

def oneProperty (part : SchemaNode) : Document where
  sourceFormatVersion := "3.1.0"
  components :=
    [.schema "Node"
      { keywords := { type := some .object, required := some ["next"] }, parts := { properties := some [("next", part)] } }]
  dependencyGraph := { nodes := [("Node", ["Node"])], topologicalOrder := ["Node"], circularReferences := ["Node"] }
  schemaNames := ["Node"]

-- A reference may stand there, but not with a title beside it.
theorem regions_iff_oneProperty :
    (∃ regions, (oneProperty (.ofReference (schemaRef "Node"))).regions = .ok regions ∧
      (regions.map fun r => (r.name, r.schema)).Perm (oneProperty (.ofReference (schemaRef "Node"))).schemas) ∧
    ¬ ∃ regions, (oneProperty { keywords := { title := some "Next" }, reference := some (schemaRef "Node") }).regions =
      .ok regions := by
  have once (part : SchemaNode) : (oneProperty part).dependencyGraph.nodes.Distinct := List.nodup_singleton _
  constructor
  · have accepted : ∃ regions, (oneProperty (.ofReference (schemaRef "Node"))).regions = .ok regions := by
      rw [(regions_iff (once _)).1]
      refine ⟨rfl, List.nodup_singleton _, by simp [oneProperty], rfl, by simp [oneProperty], ?_⟩
      simp only [← SchemaNode.emittable_iff]
      intro entry listed
      cases List.mem_singleton.mp listed
      refine SchemaNode.wellFormed_iff.mpr ⟨⟨by simp, ?_⟩, ?_⟩
      · simp [SchemaNode.requiredNames, Parts.propertyEntries, Entries.keys]
      · intro child inside
        cases List.mem_singleton.mp inside
        exact SchemaNode.wellFormed_ofReference (by decide +kernel)
    obtain ⟨regions, given⟩ := accepted
    exact ⟨regions, given, ((regions_iff (once _)).2 regions given).2⟩
  · rw [(regions_iff (once _)).1]
    rintro ⟨_, _, _, _, _, schemas⟩
    obtain ⟨bare, _⟩ := schemas _ List.mem_cons_self _ (.down List.mem_cons_self .here)
    have untitled := congrArg (fun n : SchemaNode => n.keywords.title) (bare _ rfl).1
    cases untitled

structure Shows (d : Document) (node : SchemaNode) (r : Region) : Prop where
  listed : (r.name, node) ∈ d.schemas
  schema : r.schema = annotated d.dependencyGraphOf r.name node
  dependencies : r.dependencies = d.knownDependencies node

theorem exists_shown (accepted : d.analyze.regions = .ok regions) (inside : r ∈ regions) :
    ∃ node, d.Shows node r := by
  obtain ⟨sound, rfl⟩ := regions_ok.mp accepted
  have distinct := distinct_of_verified sound
  obtain ⟨name, _, found⟩ := List.mem_filterMap.mp inside
  obtain ⟨rfl, held, dependencies⟩ := region?_some found
  rw [schemas_analyze] at held
  obtain ⟨⟨other, node⟩, listed, same⟩ := List.mem_map.mp held
  obtain ⟨named, schema⟩ := Prod.mk.inj same
  dsimp only at named
  subst named
  refine ⟨node, listed, schema.symm, dependencies.trans ?_⟩
  change (d.dependencyMap.get? r.name).getD [] = _
  rw [dependencyMap_eq distinct, Entries.get?_mapValues, Entries.get?_of_mem distinct listed]
  rfl

namespace Shows

theorem edge (shown : d.Shows node r) (distinct : Entries.Distinct d.schemas) :
    d.dependencyGraphOf.Edge r.name name ↔ name ∈ r.dependencies := by
  rw [edge_dependencyGraphOf distinct shown.listed, shown.dependencies, mem_knownDependencies]

theorem needsLazy (shown : d.Shows node r) : r.needsLazy = true ↔ d.dependencyGraphOf.OnCycle r.name := by
  have marks : r.schema.metadata.circularReferences = (d.dependencyGraphOf.cycleMembers r.name).map schemaRef := by
    rw [shown.schema, annotated_eq]
  rw [Region.needsLazy, marks, ← DependencyGraph.cycleMembers_ne_nil d.closed_dependencyGraphOf]
  simp

theorem properties (shown : d.Shows node r) : r.schema.parts.propertyEntries.get? p =
    (node.parts.propertyEntries.get? p).map (SchemaNode.annotatedPart (d.dependencyGraphOf.cycleMembers r.name)) := by
  have parts : r.schema.parts = node.parts.map (SchemaNode.annotatedPart (d.dependencyGraphOf.cycleMembers r.name)) := by
    rw [shown.schema, annotated_eq]
  rw [parts, Parts.propertyEntries_map, Entries.get?_mapValues]

theorem property (shown : d.Shows node r) (declared : r.schema.parts.propertyEntries.get? p = some part) :
    ∃ old ∈ node.children, old.annotatedPart (d.dependencyGraphOf.cycleMembers r.name) = part := by
  rw [shown.properties] at declared
  obtain ⟨old, held, marked⟩ := Option.map_eq_some_iff.mp declared
  exact ⟨old, Parts.mem_toList_of_property (Entries.mem_of_get? held), marked⟩

theorem propertyNeedsLazy (shown : d.Shows node r) (declared : r.schema.parts.propertyEntries.get? p = some part) :
    r.propertyNeedsLazy p = true ↔ ∃ name ∈ d.dependencyGraphOf.cycleMembers r.name, part.RefersTo name := by
  obtain ⟨old, _, rfl⟩ := shown.property declared
  simp only [Region.propertyNeedsLazy, declared, Option.any_some, SchemaNode.closesCycle_annotatedPart,
    SchemaNode.refersTo_annotatedPart]

theorem refers (shown : d.Shows node r) (declared : r.schema.parts.propertyEntries.get? p = some part)
    (refers : part.RefersTo name) : node.RefersTo name := by
  obtain ⟨old, inside, rfl⟩ := shown.property declared
  exact SchemaNode.refersTo_iff.mpr (.inr ⟨old, inside, SchemaNode.refersTo_annotatedPart.mp refers⟩)

end Shows

theorem listing_content (ran : listingEmitter.run d.analyze = .ok listing) :
    listing.schemaCount = d.schemas.length ∧
    listing.content = String.join (d.analyze.dependencyGraph.topologicalOrder.map fun name =>
      name ++ (if d.dependencyGraphOf.cycleMembers name = [] then "" else " (lazy)") ++ "\n") := by
  unfold Emitter.run at ran
  obtain ⟨regions, accepted, listed⟩ := bind_ok.mp ran
  obtain rfl := Except.ok.inj listed
  obtain ⟨sound, _⟩ := regions_ok.mp accepted
  constructor
  · have distinct : Entries.Distinct d.analyze.schemas := by
      rw [Entries.Distinct, Entries.keys, keys_schemas_analyze]
      exact distinct_of_verified sound
    simpa [schemas_analyze] using (regions_schemas distinct accepted).length_eq
  · rw [← regions_names accepted, List.map_map]
    refine congrArg String.join (List.map_congr_left fun r inside => ?_)
    obtain ⟨node, shown⟩ := exists_shown accepted inside
    have marked := shown.needsLazy.trans (DependencyGraph.cycleMembers_ne_nil d.closed_dependencyGraphOf).symm
    simp [Region.line, marked]

def holding (property target : String) : SchemaNode :=
  { keywords := { type := some .object }, parts := { properties := some [(property, .ofReference (schemaRef target))] } }

def owned : Document where
  sourceFormatVersion := "3.1.0"
  components := [.schema "Owner" (holding "tree" "Tree"), .schema "Tree" (holding "children" "Tree")]

example : (listingEmitter.run owned.analyze).toOption.map Emission.content = some "Tree (lazy)\nOwner\n" := by
  decide +kernel

end Document
end SchemaAtlas
