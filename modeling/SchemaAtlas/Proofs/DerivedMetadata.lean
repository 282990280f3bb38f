import SchemaAtlas.Proofs.Analysis
import SchemaAtlas.Proofs.FirstAppearances

namespace SchemaAtlas

namespace SchemaNode

inductive Below (inner : SchemaNode) : Nat → SchemaNode → Prop where
  | here : Below inner 0 inner
  | down {node child : SchemaNode} : child ∈ node.children → Below inner steps child → Below inner (steps + 1) node

-- What is derived at a node agrees with the tree: the references of its subtree, its
-- depth, its presence, and which of its properties are required.
structure Coherent (n : SchemaNode) (depth : Nat) : Prop where
  references : n.metadata.dependencies.references = n.visitedReferences.eraseDups
  depth : n.metadata.dependencies.depth = depth
  presence : n.metadata.chain.presence = .ofFlags (!n.metadata.required) n.metadata.nullable
  required : ∀ entry ∈ n.parts.propertyEntries, entry.2.metadata.required = true ↔ entry.1 ∈ n.requiredNames
  unlisted : n.parts.properties = none → n.keywords.required = none

def CoherentFrom (depth : Nat) (n : SchemaNode) : Prop :=
  ∀ steps inner, Below inner steps n → inner.Coherent (depth + steps)

variable {n new : SchemaNode}

theorem coherentFrom_iff :
    n.CoherentFrom depth ↔ n.Coherent depth ∧ ∀ child ∈ n.children, child.CoherentFrom (depth + 1) := by
  constructor
  · intro all
    refine ⟨all 0 n .here, ?_⟩
    intro child listed steps inner below
    have deeper := all (steps + 1) inner (.down listed below)
    rwa [Nat.add_assoc, Nat.add_comm 1]
  · rintro ⟨own, deeper⟩ steps inner below
    cases below with
    | here => exact own
    | @down steps _ child listed below =>
      have inside := deeper child listed steps inner below
      rwa [Nat.add_assoc, Nat.add_comm 1] at inside

theorem visitedReferences_finalize : (n.finalize depth).visitedReferences = n.visitedReferences :=
  visitedReferences_congr rfl rfl

theorem CoherentFrom.finalize
    (required : ∀ entry ∈ n.parts.propertyEntries, entry.2.metadata.required = true ↔ entry.1 ∈ n.requiredNames)
    (unlisted : n.parts.properties = none → n.keywords.required = none)
    (below : ∀ child ∈ n.children, child.CoherentFrom (depth + 1)) : (n.finalize depth).CoherentFrom depth := by
  refine coherentFrom_iff.mpr ⟨⟨?_, rfl, rfl, required, unlisted⟩, below⟩
  rw [visitedReferences_finalize]
  exact firstAppearances_eq_eraseDups _

theorem Remarked.coherentFrom (remarked : Remarked new n) (coherent : n.CoherentFrom depth) :
    new.CoherentFrom depth := by
  induction remarked generalizing depth with
  | @node new n f keywords reference metadata parts below ih =>
    have walk : new.visitedReferences = n.visitedReferences :=
      (Reworked.node keywords reference metadata parts below).visitedReferences
    obtain ⟨own, deeper⟩ := coherentFrom_iff.mp coherent
    simp only [Metadata.unmarked, Metadata.mk.injEq, NodeDependencies.mk.injEq] at metadata
    obtain ⟨flag, null, ⟨references, _, level⟩, chain, _⟩ := metadata
    refine coherentFrom_iff.mpr ⟨⟨?_, ?_, ?_, ?_, ?_⟩, ?_⟩
    · rw [references, walk, own.references]
    · rw [level, own.depth]
    · rw [chain, flag, null, own.presence]
    · intro entry listed
      rw [parts, Parts.propertyEntries_map] at listed
      obtain ⟨old, inside, rfl⟩ := List.mem_map.mp listed
      have marks := (below old.2 (Parts.mem_toList_of_property inside)).metadata
      have kept : (f old.2).metadata.required = old.2.metadata.required := (Metadata.mk.inj marks).1
      rw [requiredNames, keywords, kept]
      exact own.required old inside
    · intro none_
      rw [parts, Parts.map, Option.map_eq_none_iff] at none_
      rw [keywords, own.unlisted none_]
    · intro child listed
      rw [children_map parts] at listed
      obtain ⟨old, inside, rfl⟩ := List.mem_map.mp listed
      exact ih old inside (deeper old inside)

end SchemaNode

namespace Document

def Coherent (d : Document) : Prop :=
  ∀ entry ∈ d.schemas, ∀ steps inner, SchemaNode.Below inner steps entry.2 → inner.Coherent steps

variable {d : Document}

theorem coherent_iff : d.Coherent ↔ ∀ entry ∈ d.schemas, entry.2.CoherentFrom 0 := by
  simp only [Coherent, SchemaNode.CoherentFrom, Nat.zero_add]

theorem analyze_coherent (coherent : d.Coherent) : d.analyze.Coherent := by
  rw [coherent_iff] at coherent ⊢
  intro entry listed
  rw [schemas_analyze] at listed
  obtain ⟨old, inside, rfl⟩ := List.mem_map.mp listed
  exact (remarked_annotated _ _ _).coherentFrom (coherent old inside)

end Document
end SchemaAtlas
