import SchemaAtlas.Proofs.Boundary
import SchemaAtlas.Proofs.SchemaReading

namespace SchemaAtlas
namespace OpenApi

variable {descend : Descent} {p : Place} {m : Members} {node : SchemaNode}

theorem wellFormed_finish (sound : node.WellFormed) : (p.finish node nullable).WellFormed := sound.congr rfl rfl rfl

theorem mem_requiredAmong : name ∈ (requiredAmong m properties).getD [] ↔
    name ∈ m.texts "required" ∧ name ∈ Entries.keys (properties.getD []) := by
  unfold requiredAmong
  dsimp only
  rw [← Entries.contains_iff, ← List.mem_filter]
  split
  · rename_i none_
    rw [none_]
    rfl
  · rfl

def Sound (descend : Descent) : Prop := ∀ place value node, descend place value = .ok node → node.WellFormed

theorem readBody_wellFormed (sound : Sound descend) (accepted : readBody descend p m type nullable = .ok node) :
    node.WellFormed := by
  obtain ⟨keywords, parts, discriminator, _, inParts, rfl⟩ := readBody_parts accepted
  refine wellFormed_finish (SchemaNode.wellFormed_iff.mpr ⟨⟨by simp, ?_⟩, ?_⟩)
  · exact fun name listed => (mem_requiredAmong.mp listed).2
  · intro child listed
    obtain ⟨place, value, read⟩ := readParts_mem inParts listed
    exact sound place value child read

theorem readUnion_wellFormed (sound : Sound descend) (accepted : readUnion descend p m list nullable = .ok node) :
    node.WellFormed := by
  obtain ⟨members, keywords, none_required, _, read, rfl⟩ := readUnion_parts accepted
  refine wellFormed_finish (SchemaNode.wellFormed_iff.mpr ⟨⟨by simp, ?_⟩, ?_⟩)
  · simp [SchemaNode.requiredNames, none_required]
  · intro child listed
    have member : child ∈ members := by
      simpa [SchemaNode.children, Parts.toList, Parts.propertyEntries, Parts.additionalNode] using listed
    obtain ⟨place, type, _, body⟩ := read child member
    exact readBody_wellFormed sound body

theorem Level.wellFormed (sound : Sound descend) (level : Level descend p value node) : node.WellFormed := by
  cases level with
  | anything =>
    refine wellFormed_finish (SchemaNode.wellFormed_iff.mpr ⟨⟨by simp, by simp [SchemaNode.requiredNames]⟩, ?_⟩)
    intro child listed
    cases listed
  | reference _ resolved =>
    obtain ⟨reference, reads, _⟩ := resolve_parts resolved
    exact wellFormed_finish (SchemaNode.wellFormed_ofReference (by rw [reads]; rfl))
  | body _ read => exact readBody_wellFormed sound read
  | union _ _ read => exact readUnion_wellFormed sound read

theorem readWithin_wellFormed (levels : Nat) : Sound (readWithin levels) := by
  induction levels with
  | zero =>
    intro place value node accepted
    cases accepted
  | succ levels ih =>
    intro place value node accepted
    exact (readLevel_parts accepted).2.wellFormed ih

theorem readSchema_wellFormed : Sound readSchema := fun _ value node accepted =>
  readWithin_wellFormed _ _ value node accepted

end OpenApi
end SchemaAtlas
