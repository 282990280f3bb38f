import SchemaAtlas.Builder.Lowering.Object
import SchemaAtlas.Proofs.Boundary
import SchemaAtlas.Proofs.Pointer

namespace SchemaAtlas
namespace SchemaNode

open Builder

variable {n : SchemaNode}

-- How the lowering writes a node: a reference stands alone and is the one to a name, no
-- two properties share a name, and the required list is the one that the properties give.
structure Orderly (n : SchemaNode) : Prop where
  bare : n.reference ≠ none → n.hasStructure = false
  named : ∀ target ∈ n.reference, ∃ name, name ≠ "" ∧ target = schemaRef name
  distinct : n.parts.propertyEntries.Distinct
  required : n.keywords.required = requiredOf n.parts.propertyEntries

def Tidy (n : SchemaNode) : Prop := n.Everywhere Orderly

theorem tidy_iff : n.Tidy ↔ n.Orderly ∧ ∀ child ∈ n.children, child.Tidy := everywhere_iff

theorem Tidy.own (tidy : n.Tidy) : n.Orderly := (tidy_iff.mp tidy).1

theorem Tidy.below (tidy : n.Tidy) : ∀ child ∈ n.children, child.Tidy := (tidy_iff.mp tidy).2

theorem Tidy.congr {new : SchemaNode} (tidy : n.Tidy) (keywords : new.keywords = n.keywords)
    (parts : new.parts = n.parts) (reference : new.reference = n.reference) : new.Tidy := by
  obtain ⟨own, deeper⟩ := tidy_iff.mp tidy
  refine tidy_iff.mpr ⟨⟨?_, ?_, ?_, ?_⟩, ?_⟩
  · rw [reference, hasStructure, keywords, parts]
    exact own.bare
  · rw [reference]
    exact own.named
  · rw [parts]
    exact own.distinct
  · rw [keywords, parts]
    exact own.required
  · rw [children, parts]
    exact deeper

theorem tidy_plain (plain : n.reference = none) (distinct : n.parts.propertyEntries.Distinct)
    (required : n.keywords.required = requiredOf n.parts.propertyEntries) (below : ∀ child ∈ n.children, child.Tidy) :
    n.Tidy :=
  tidy_iff.mpr ⟨⟨fun linked => absurd plain linked, by simp [plain], distinct, required⟩, below⟩

theorem Tidy.plain (tidy : n.Tidy) (structured : n.hasStructure = true) : n.reference = none := by
  by_contra linked
  have bare := tidy.own.bare linked
  rw [structured] at bare
  cases bare

theorem tidy_ofReference (named : name ≠ "") : (ofReference (schemaRef name)).Tidy := by
  refine tidy_iff.mpr ⟨⟨fun _ => rfl, ?_, List.nodup_nil, rfl⟩, by simp [children_ofReference]⟩
  rintro _ ⟨⟩
  exact ⟨name, named, rfl⟩

theorem requiredOf_iff {properties : Entries SchemaNode} : name ∈ (requiredOf properties).getD [] ↔
    ∃ entry ∈ properties, entry.1 = name ∧ entry.2.metadata.required = true := by
  unfold requiredOf
  dsimp only
  split
  · rename_i none_
    simp only [List.map_eq_nil_iff, List.filter_eq_nil_iff] at none_
    simp only [Option.getD_none, List.not_mem_nil, false_iff, not_exists, not_and]
    exact fun entry listed _ => none_ entry listed
  · simp [List.mem_filter, and_comm]

theorem Tidy.wellFormed (tidy : n.Tidy) : n.WellFormed := by
  intro inner inside
  have own := tidy inner inside
  refine ⟨?_, ?_⟩
  · intro target linked
    obtain ⟨name, named, rfl⟩ := own.named target linked
    rw [ofText?_schemaRef named]
    exact ⟨own.bare (by rw [Option.mem_def.mp linked]; simp), rfl⟩
  · intro name listed
    rw [requiredNames, own.required] at listed
    obtain ⟨entry, inside, rfl, _⟩ := requiredOf_iff.mp listed
    exact List.mem_map_of_mem inside

end SchemaNode
end SchemaAtlas
