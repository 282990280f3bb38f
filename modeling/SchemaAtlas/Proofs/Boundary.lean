import SchemaAtlas.Proofs.Outcome
import SchemaAtlas.Proofs.SchemaTree

namespace SchemaAtlas

namespace Parts

theorem mem_indexed {members : Option (List α)} :
    (∃ label, (label, part) ∈ indexed start members) ↔ part ∈ members.getD [] := by
  unfold indexed
  generalize members.getD [] = items
  simp only [List.mem_mapIdx, Prod.mk.injEq]
  constructor
  · rintro ⟨_, index, bound, _, rfl⟩
    exact List.getElem_mem bound
  · intro inside
    obtain ⟨index, bound, same⟩ := List.getElem_of_mem inside
    exact ⟨_, index, bound, rfl, same⟩

theorem indexed_map (f : α → β) (start : String) (members : Option (List α)) :
    indexed start (members.map (List.map f)) = (indexed start members).map fun entry => (entry.1, f entry.2) := by
  unfold indexed
  rw [getD_map]
  simp [List.mapIdx_eq_zipIdx_map, List.zipIdx_map]

theorem labelled_map (f : α → β) (p : Parts α) :
    (p.map f).labelled = p.labelled.map fun entry => (entry.1, f entry.2) := by
  unfold labelled
  rw [propertyEntries_map, additionalNode_map, items_map]
  simp [map, indexed_map, Entries.mapValues, Function.comp_def]

theorem mem_labelled {p : Parts α} : (∃ label, (label, part) ∈ p.labelled) ↔ part ∈ p.toList := by
  unfold labelled toList
  simp only [List.mem_append, exists_or, mem_indexed]
  simp
  tauto

theorem isBare_iff {p : Parts α} : p.isBare = true ↔ p = {} := by
  cases p
  simp [isBare, and_assoc]

end Parts

theorem Keywords.isBare_iff {k : Keywords} : k.isBare = true ↔ k = {} := by
  cases k
  simp [isBare, and_assoc]

namespace SchemaNode

variable {n : SchemaNode}

-- What an emitter may rely on at one node: a reference carries nothing else and reads
-- as a component reference, and what is required is declared.
structure Emittable (n : SchemaNode) : Prop where
  bare : ∀ target ∈ n.reference, n.hasStructure = false ∧ (ComponentRef.ofText? target).isSome = true
  declared : ∀ name ∈ n.requiredNames, name ∈ n.parts.propertyEntries.keys

def WellFormed (n : SchemaNode) : Prop := ∀ inner, Inside inner n → inner.Emittable

theorem wellFormed_iff : n.WellFormed ↔ n.Emittable ∧ ∀ child ∈ n.children, child.WellFormed := everywhere_iff

theorem WellFormed.congr {new : SchemaNode} (sound : n.WellFormed) (keywords : new.keywords = n.keywords)
    (parts : new.parts = n.parts) (reference : new.reference = n.reference) : new.WellFormed := by
  obtain ⟨own, deeper⟩ := wellFormed_iff.mp sound
  refine wellFormed_iff.mpr ⟨⟨?_, ?_⟩, ?_⟩
  · rw [reference, hasStructure, keywords, parts]
    exact own.bare
  · rw [requiredNames, keywords, parts]
    exact own.declared
  · rw [children, parts]
    exact deeper

theorem hasStructure_of_type (typed : n.keywords.type = some type) : n.hasStructure = true := by
  simp [hasStructure, Keywords.isBare, typed]

theorem hasStructure_of_enum (listed : n.keywords.enum = some values) : n.hasStructure = true := by
  simp [hasStructure, Keywords.isBare, listed]

theorem hasStructure_of_prefixItems (listed : n.parts.prefixItems = some members) : n.hasStructure = true := by
  simp [hasStructure, Parts.isBare, listed]

theorem hasStructure_eq_false : n.hasStructure = false ↔ n = { reference := n.reference, metadata := n.metadata } := by
  unfold hasStructure
  rw [Bool.not_eq_false', Bool.and_eq_true, Keywords.isBare_iff, Parts.isBare_iff]
  cases n
  simp

theorem emittable_iff : n.Emittable ↔
    (∀ target ∈ n.reference, n = { reference := some target, metadata := n.metadata } ∧
      (ComponentRef.ofText? target).isSome = true) ∧
    ∀ name ∈ n.requiredNames, name ∈ n.parts.propertyEntries.keys := by
  have bare : ∀ target ∈ n.reference,
      (n.hasStructure = false ↔ n = { reference := some target, metadata := n.metadata }) := by
    intro target same
    rw [hasStructure_eq_false, Option.mem_def.mp same]
  constructor
  · intro own
    exact ⟨fun target same => ⟨(bare target same).mp (own.bare target same).1, (own.bare target same).2⟩, own.declared⟩
  · intro own
    exact ⟨fun target same => ⟨(bare target same).mpr (own.1 target same).1, (own.1 target same).2⟩, own.2⟩

theorem wellFormed_ofReference (reads : (ComponentRef.ofText? target).isSome = true) :
    (ofReference target).WellFormed := by
  refine wellFormed_iff.mpr ⟨⟨?_, by simp [ofReference, requiredNames]⟩, by simp [children_ofReference]⟩
  rintro _ ⟨⟩
  exact ⟨rfl, reads⟩

theorem checkAt_ok : n.checkAt schema path = .ok () ↔ n.Emittable := by
  have declared : (∀ name ∈ n.requiredNames, n.declares name = true) ↔
      ∀ name ∈ n.requiredNames, name ∈ n.parts.propertyEntries.keys := by
    simp only [declares, Entries.contains_iff]
  unfold checkAt
  cases same : n.reference with
  | none =>
    simp only [forM_ok, require_ok, declared]
    exact ⟨fun all => ⟨by simp [same], all⟩, fun all => all.declared⟩
  | some target =>
    simp only [check_ok, forM_ok, require_ok, declared]
    constructor
    · rintro ⟨bare, reads, all⟩
      refine ⟨?_, all⟩
      rw [same]
      rintro _ ⟨⟩
      exact ⟨by simpa using bare, reads⟩
    · intro all
      obtain ⟨bare, reads⟩ := all.bare target same
      exact ⟨by simp [bare], reads, all.declared⟩

theorem verify_eq (schema : String) (n : SchemaNode) (path : String) : n.verify schema path =
    (n.checkAt schema path >>= fun _ =>
      n.parts.labelled.forM fun entry => entry.2.verify schema (path ++ entry.1)) := by
  rw [verify]
  simp only [Parts.mapEach_eq_map, Parts.labelled_map, List.forM_eq_forM, List.forM_map]

theorem verify_ok : n.verify schema path = .ok () ↔ n.WellFormed := by
  induction n using children_induction generalizing path with
  | step n ih =>
    rw [verify_eq, wellFormed_iff, check_ok, checkAt_ok, forM_ok]
    constructor
    · rintro ⟨own, deeper⟩
      refine ⟨own, fun child inside => ?_⟩
      obtain ⟨label, listed⟩ := Parts.mem_labelled.mpr inside
      exact (ih child inside).mp (deeper _ listed)
    · rintro ⟨own, deeper⟩
      refine ⟨own, fun entry listed => ?_⟩
      have inside : entry.2 ∈ n.children := Parts.mem_labelled.mp ⟨entry.1, listed⟩
      exact (ih entry.2 inside).mpr (deeper _ inside)

end SchemaNode

theorem firstRepeated_none {items : List String} :
    firstRepeated? seen items = none ↔ items.Nodup ∧ ∀ item ∈ items, item ∉ seen := by
  induction items generalizing seen with
  | nil => simp [firstRepeated?]
  | cons item rest ih =>
    unfold firstRepeated?
    by_cases listed : item ∈ seen
    · simp [listed]
    · simp only [List.contains_iff_mem, listed, if_false, ih, List.nodup_cons, List.mem_cons, not_or]
      constructor
      · rintro ⟨nodup, outside⟩
        refine ⟨⟨fun inside => (outside item inside).1 rfl, nodup⟩, ?_⟩
        rintro other (rfl | inside)
        · exact listed
        · exact (outside other inside).2
      · rintro ⟨⟨fresh, nodup⟩, outside⟩
        refine ⟨nodup, fun other inside => ⟨?_, outside other (.inr inside)⟩⟩
        rintro rfl
        exact fresh inside

namespace Document

structure WellFormed (d : Document) : Prop where
  names : d.schemas.map Prod.fst = d.schemaNames
  once : d.dependencyGraph.topologicalOrder.Nodup
  ordered : ∀ name, name ∈ d.dependencyGraph.topologicalOrder ↔ name ∈ d.schemaNames
  nodes : d.dependencyGraph.nodes.keys = d.schemaNames
  circular : ∀ name ∈ d.dependencyGraph.circularReferences, name ∈ d.schemaNames
  schemas : ∀ entry ∈ d.schemas, entry.2.WellFormed

variable {d : Document}

theorem checkSummary_ok : d.checkSummary = .ok () ↔
    d.schemas.map Prod.fst = d.schemaNames ∧ d.dependencyGraph.topologicalOrder.Nodup ∧
    (∀ name, name ∈ d.dependencyGraph.topologicalOrder ↔ name ∈ d.schemaNames) ∧
    d.dependencyGraph.nodes.keys = d.schemaNames ∧
    ∀ name ∈ d.dependencyGraph.circularReferences, name ∈ d.schemaNames := by
  have once : firstRepeated? [] d.dependencyGraph.topologicalOrder = none ↔
      d.dependencyGraph.topologicalOrder.Nodup := by
    rw [firstRepeated_none]
    simp
  have known : (d.dependencyGraph.circularReferences.find? fun name => !d.schemaNames.contains name) = none ↔
      ∀ name ∈ d.dependencyGraph.circularReferences, name ∈ d.schemaNames := by
    rw [List.find?_eq_none]
    simp
  have covers : (d.dependencyGraph.topologicalOrder.all d.schemaNames.contains &&
      d.schemaNames.all d.dependencyGraph.topologicalOrder.contains) = true ↔
      ∀ name, name ∈ d.dependencyGraph.topologicalOrder ↔ name ∈ d.schemaNames := by
    simp only [Bool.and_eq_true, List.all_eq_true, List.contains_iff_mem]
    exact ⟨fun both name => ⟨both.1 name, both.2 name⟩, fun same => ⟨fun name => (same name).mp, fun name => (same name).mpr⟩⟩
  rw [← once, ← known, ← covers]
  unfold checkSummary
  simp only [check_ok, require_ok, beq_iff_eq]
  cases firstRepeated? [] d.dependencyGraph.topologicalOrder with
  | some name => simp [check_ok]
  | none =>
    simp only [check_ok, require_ok, beq_iff_eq, true_and]
    cases d.dependencyGraph.circularReferences.find? fun name => !d.schemaNames.contains name with
    | some name => simp
    | none => simp [pure, Except.pure]

theorem verify_ok : d.verify = .ok () ↔ d.WellFormed := by
  unfold verify
  rw [check_ok, checkSummary_ok, forM_ok]
  simp only [SchemaNode.verify_ok]
  constructor
  · rintro ⟨⟨names, once, ordered, nodes, circular⟩, schemas⟩
    exact ⟨names, once, ordered, nodes, circular, schemas⟩
  · rintro ⟨names, once, ordered, nodes, circular, schemas⟩
    exact ⟨⟨names, once, ordered, nodes, circular⟩, schemas⟩

end Document
end SchemaAtlas
