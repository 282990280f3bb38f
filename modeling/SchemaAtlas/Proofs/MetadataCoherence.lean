import SchemaAtlas.Proofs.Build
import SchemaAtlas.Proofs.DerivedMetadata
import SchemaAtlas.Proofs.ScriptDocument

namespace SchemaAtlas

namespace OpenApi

variable {descend : Descent} {p : Place} {m : Members} {value : Json} {node : SchemaNode}

def Coheres (descend : Descent) : Prop := ∀ place value node, descend place value = .ok node →
  node.CoherentFrom place.depth ∧ node.metadata.required = place.required

theorem coherentFrom_finish
    (required : ∀ entry ∈ node.parts.propertyEntries, entry.2.metadata.required = true ↔ entry.1 ∈ node.requiredNames)
    (unlisted : node.parts.properties = none → node.keywords.required = none)
    (below : ∀ child ∈ node.children, child.CoherentFrom (p.depth + 1)) :
    (p.finish node nullable).CoherentFrom p.depth :=
  SchemaNode.CoherentFrom.finalize required unlisted below

theorem coherentFrom_plain (properties : node.parts.properties = none) (unlisted : node.keywords.required = none)
    (below : ∀ child ∈ node.children, child.CoherentFrom (p.depth + 1)) :
    (p.finish node nullable).CoherentFrom p.depth := by
  refine coherentFrom_finish ?_ (fun _ => unlisted) below
  simp [Parts.propertyEntries, properties]

theorem readBody_coheres (coheres : Coheres descend) (accepted : readBody descend p m type nullable = .ok node) :
    node.CoherentFrom p.depth ∧ node.metadata.required = p.required := by
  obtain ⟨keywords, parts, discriminator, _, inParts, rfl⟩ := readBody_parts accepted
  obtain ⟨declared, held⟩ := readParts_listed inParts
  refine ⟨coherentFrom_finish ?_ ?_ ?_, rfl⟩
  · intro entry listed
    obtain ⟨source, _, name, place, _, flag, read⟩ := exists_of_forall₂ declared listed
    have own : entry.2.metadata.required = (m.texts "required").contains entry.1 := by
      rw [(coheres place source.2 entry.2 read).2, flag, name]
    have inside : entry.1 ∈ Entries.keys parts.propertyEntries := List.mem_map_of_mem listed
    rw [own, List.contains_iff_mem]
    exact ⟨fun named => mem_requiredAmong.mpr ⟨named, inside⟩, fun named => (mem_requiredAmong.mp named).1⟩
  · intro none_
    have none_ : parts.properties = none := none_
    simp [requiredAmong, none_, Entries.contains]
  · intro child listed
    obtain ⟨value, _, place, deeper, read⟩ := exists_of_forall₂ held listed
    rw [← deeper]
    exact (coheres place value child read).1

theorem readUnion_coheres (coheres : Coheres descend) (accepted : readUnion descend p m list nullable = .ok node) :
    node.CoherentFrom p.depth ∧ node.metadata.required = p.required := by
  obtain ⟨members, keywords, unlisted, _, read, rfl⟩ := readUnion_parts accepted
  refine ⟨coherentFrom_plain rfl unlisted ?_, rfl⟩
  intro child listed
  have member : child ∈ members := by
    simpa [SchemaNode.children, Parts.toList, Parts.propertyEntries, Parts.additionalNode] using listed
  obtain ⟨place, type, deeper, body⟩ := read child member
  rw [← deeper]
  exact (readBody_coheres coheres body).1

theorem Level.coheres (coheres : Coheres descend) (level : Level descend p value node) :
    node.CoherentFrom p.depth ∧ node.metadata.required = p.required := by
  cases level with
  | anything => exact ⟨coherentFrom_plain rfl rfl fun _ listed => (List.not_mem_nil listed).elim, rfl⟩
  | reference => exact ⟨coherentFrom_plain rfl rfl fun _ listed => (List.not_mem_nil listed).elim, rfl⟩
  | body _ read => exact readBody_coheres coheres read
  | union _ _ read => exact readUnion_coheres coheres read

theorem readWithin_coheres (levels : Nat) : Coheres (readWithin levels) := by
  induction levels with
  | zero =>
    intro place value node accepted
    cases accepted
  | succ levels ih =>
    intro place value node accepted
    exact (readLevel_parts accepted).2.coheres ih

theorem readSchema_coheres : Coheres readSchema := fun _ value node accepted =>
  readWithin_coheres _ _ value node accepted

theorem build_coherent (built : build maxDepth source = .ok d) : d.Coherent := by
  obtain ⟨document, inComponents, _, rfl⟩ := build_parts built
  apply Document.analyze_coherent
  rw [Document.coherent_iff]
  intro entry listed
  obtain ⟨place, value, top, read⟩ := readComponents_read inComponents listed
  rw [← top]
  exact (readSchema_coheres place value entry.2 read).1

end OpenApi

namespace SchemaNode

variable {n : SchemaNode}

theorem Tidy.coherent (tidy : n.Tidy) (depth : Nat) : (n.finalizeTree depth).CoherentFrom depth := by
  induction n using children_induction generalizing depth with
  | step n ih =>
    have own := tidy.own
    rw [finalizeTree_eq]
    refine CoherentFrom.finalize ?_ ?_ ?_
    · intro entry listed
      rw [Parts.propertyEntries_map] at listed
      obtain ⟨old, inside, rfl⟩ := List.mem_map.mp listed
      rw [(reworked_finalizeTree old.2 (depth + 1)).metadata, requiredNames, own.required, requiredOf_iff]
      constructor
      · exact fun required => ⟨old, inside, rfl, required⟩
      · rintro ⟨other, member, same, required⟩
        have found := Entries.get?_of_mem own.distinct member
        rw [same, Entries.get?_of_mem own.distinct inside] at found
        rw [Option.some.inj found]
        exact required
    · intro none_
      have none_ : n.parts.properties = none := by simpa [Parts.map] using none_
      simp [own.required, Parts.propertyEntries, none_, Builder.requiredOf]
    · intro child listed
      rw [children, Parts.toList_map] at listed
      obtain ⟨old, inside, rfl⟩ := List.mem_map.mp listed
      exact ih old inside (tidy.below old inside) (depth + 1)

end SchemaNode

namespace Builder

theorem outcome_coherent (settings : ParseSettings) (r : Survey) : (r.outcome settings).document.Coherent := by
  obtain ⟨document, same, schemas⟩ := outcome_parts settings r
  rw [same]
  apply Document.analyze_coherent
  rw [Document.coherent_iff, schemas]
  intro entry listed
  obtain ⟨old, inside, rfl⟩ := List.mem_map.mp listed
  obtain ⟨lowered, tidy, final⟩ := emitted_tidy inside
  rw [← final]
  exact tidy.coherent 0

end Builder

-- Whichever way a document comes about, what is derived at each node of its schema
-- components is what the tree gives.
theorem documents_coherent :
    (∀ maxDepth source d, OpenApi.build maxDepth source = .ok d → d.Coherent) ∧
    (∀ settings root, ((Builder.Survey.ofTree settings root).outcome settings).document.Coherent) ∧
    ∀ settings source, (Builder.parse settings source).document.Coherent := by
  refine ⟨?_, ?_, ?_⟩
  · intro maxDepth source d built
    exact OpenApi.build_coherent built
  · intro settings root
    exact Builder.outcome_coherent settings _
  · intro settings source
    exact Builder.outcome_coherent settings _

theorem documents_coherent_pet : ∃ d, OpenApi.build 4 OpenApi.petDescription = .ok d ∧
    (d.schemas.map fun entry => (entry.1, entry.2.metadata.dependencies.references)) =
      [("Pet", [schemaRef "Owner"]), ("Owner", [schemaRef "Pet"])] ∧ d.Coherent := by
  have references : (OpenApi.build 4 OpenApi.petDescription).toOption.map (fun d =>
      d.schemas.map fun entry => (entry.1, entry.2.metadata.dependencies.references)) =
        some [("Pet", [schemaRef "Owner"]), ("Owner", [schemaRef "Pet"])] := by decide +kernel
  cases built : OpenApi.build 4 OpenApi.petDescription with
  | error failure => simp [built, Except.toOption] at references
  | ok d =>
    rw [built] at references
    exact ⟨d, rfl, Option.some.inj references, documents_coherent.1 4 _ d built⟩

end SchemaAtlas
