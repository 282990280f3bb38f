import SchemaAtlas.Builder.Constraint
import SchemaAtlas.Proofs.TidyNodes

namespace SchemaAtlas
namespace Builder

open SchemaNode

variable {n node : SchemaNode} {call : Call}

theorem tidy_pushValidation (tidy : n.Tidy) : (pushValidation n text).Tidy := tidy.congr rfl rfl rfl

theorem tidy_withKeywords (tidy : n.Tidy) (plain : n.reference = none)
    (required : k.required = n.keywords.required) : (withKeywords n k).Tidy :=
  tidy_plain plain tidy.own.distinct (required.trans tidy.own.required) tidy.below

theorem tidy_addPattern (tidy : n.Tidy) (plain : n.reference = none) :
    (addPattern n pattern).Tidy := by
  unfold addPattern
  split
  · exact tidy_withKeywords tidy plain rfl
  · exact tidy_pushValidation tidy

theorem required_setBound (bound : Bound) : (bound.set value k).required = k.required := by
  cases bound <;> rfl

theorem constrainText_tidy (tidy : n.Tidy) (plain : n.reference = none)
    (accepted : constrainText n call = .ok (some node)) : node.Tidy := by
  unfold constrainText at accepted
  dsimp only at accepted
  split at accepted
  · obtain ⟨count, _, accepted⟩ := bind_ok.mp accepted
    cases accepted
    exact tidy_withKeywords tidy plain rfl
  · split at accepted
    · cases accepted
      exact tidy_withKeywords tidy plain rfl
    · split at accepted
      · cases accepted
        exact tidy_withKeywords tidy plain rfl
      · obtain ⟨pattern, _, accepted⟩ := bind_ok.mp accepted
        obtain ⟨text, rfl, rfl⟩ := Option.map_eq_some_iff.mp (Except.ok.inj accepted)
        exact tidy_addPattern tidy plain

theorem constrainNumber_tidy (tidy : n.Tidy) (plain : n.reference = none)
    (accepted : constrainNumber n call = .ok (some node)) : node.Tidy := by
  unfold constrainNumber at accepted
  dsimp only at accepted
  split at accepted
  · obtain ⟨value, _, accepted⟩ := bind_ok.mp accepted
    cases accepted
    exact tidy_withKeywords tidy plain (required_setBound _)
  · cases accepted
    exact tidy_withKeywords tidy plain (required_setBound _)
  · split at accepted
    · cases accepted
      exact tidy_withKeywords tidy plain rfl
    · cases accepted

theorem constrainArray_tidy (tidy : n.Tidy) (plain : n.reference = none)
    (accepted : constrainArray n call = .ok (some node)) : node.Tidy := by
  unfold constrainArray at accepted
  dsimp only at accepted
  split at accepted
  · obtain ⟨count, _, accepted⟩ := bind_ok.mp accepted
    cases accepted
    exact tidy_withKeywords tidy plain rfl
  · split at accepted
    · cases accepted
      exact tidy_withKeywords tidy plain rfl
    · cases accepted

theorem constrain_tidy (tidy : n.Tidy) (accepted : constrain n call = .ok (some node)) :
    node.Tidy := by
  unfold constrain at accepted
  split at accepted
  · exact constrainText_tidy tidy (tidy.plain (hasStructure_of_type ‹_›)) accepted
  · exact constrainNumber_tidy tidy (tidy.plain (hasStructure_of_type ‹_›)) accepted
  · exact constrainNumber_tidy tidy (tidy.plain (hasStructure_of_type ‹_›)) accepted
  · exact constrainArray_tidy tidy (tidy.plain (hasStructure_of_type ‹_›)) accepted
  · cases accepted

end Builder
end SchemaAtlas
