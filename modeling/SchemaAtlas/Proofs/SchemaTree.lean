import Mathlib.Data.List.Basic
import SchemaAtlas.Proofs.Entries
import SchemaAtlas.Graph.Cycle
import SchemaAtlas.Emission.Region

namespace SchemaAtlas

namespace Parts

theorem propertyEntries_map (f : α → β) (p : Parts α) :
    (p.map f).propertyEntries = p.propertyEntries.mapValues f := by
  unfold propertyEntries map Entries.mapValues
  cases p.properties <;> rfl

theorem additionalNode_map (f : α → β) (p : Parts α) : (p.map f).additionalNode = p.additionalNode.map f := by
  unfold additionalNode map
  rcases p.additional with _ | _ | _ <;> rfl

theorem items_map (f : α → β) (p : Parts α) : (p.map f).items.toList = p.items.toList.map f := by
  unfold map
  cases p.items <;> rfl

theorem getD_map (f : α → β) (members : Option (List α)) :
    (members.map (List.map f)).getD [] = (members.getD []).map f := by
  cases members <;> rfl

theorem mem_toList {p : Parts α} : part ∈ p.toList ↔
    (∃ entry ∈ p.propertyEntries, entry.2 = part) ∨ p.items = some part ∨ part ∈ p.prefixItems.getD [] ∨
    p.additional = some (.inr part) ∨ part ∈ p.allOf.getD [] ∨ part ∈ p.oneOf.getD [] ∨ part ∈ p.anyOf.getD [] := by
  have additional : part ∈ p.additionalNode ↔ p.additional = some (.inr part) := by
    unfold additionalNode
    rcases p.additional with _ | _ | node <;> simp [eq_comm]
  simp only [toList, List.mem_append, List.mem_map, Option.mem_toList, additional, or_assoc]

theorem toList_map (f : α → β) (p : Parts α) : (p.map f).toList = p.toList.map f := by
  have properties : (p.map f).propertyEntries.map Prod.snd = (p.propertyEntries.map Prod.snd).map f := by
    rw [propertyEntries_map]
    simp [Entries.mapValues]
  unfold toList
  rw [properties, items_map, additionalNode_map]
  simp only [map, getD_map, List.map_append]

theorem map_map (f : α → β) (h : β → γ) (p : Parts α) : (p.map f).map h = p.map (h ∘ f) := by
  have additional : (p.additional.map (mapAdditional f)).map (mapAdditional h) =
      p.additional.map (mapAdditional (h ∘ f)) := by
    rcases p.additional with _ | _ | _ <;> rfl
  simp only [map, Parts.mk.injEq, Option.map_map, additional, true_and]
  refine ⟨?_, ?_, ?_, ?_, ?_⟩ <;> congr 1 <;> funext members <;> simp

end Parts

namespace SchemaNode

theorem children_induction {P : SchemaNode → Prop} (step : ∀ n, (∀ child ∈ n.children, P child) → P n)
    (n : SchemaNode) : P n :=
  step n fun child _ => children_induction step child
termination_by sizeOf n
decreasing_by exact sizeOf_child_lt ‹_›

inductive Inside (inner : SchemaNode) : SchemaNode → Prop where
  | here : Inside inner inner
  | down {node child : SchemaNode} : child ∈ node.children → Inside inner child → Inside inner node

def Everywhere (P : SchemaNode → Prop) (n : SchemaNode) : Prop := ∀ inner, Inside inner n → P inner

theorem everywhere_iff {P : SchemaNode → Prop} :
    n.Everywhere P ↔ P n ∧ ∀ child ∈ n.children, child.Everywhere P := by
  constructor
  · intro all
    exact ⟨all n .here, fun child listed inner inside => all inner (.down listed inside)⟩
  · rintro ⟨own, deeper⟩ inner inside
    cases inside with
    | here => exact own
    | down listed inside => exact deeper _ listed inner inside

variable {n : SchemaNode}

theorem everywhere_of_children {P : SchemaNode → Prop} (root : P n)
    (below : n.Everywhere fun inner => ∀ child ∈ inner.children, P child) : n.Everywhere P := by
  intro inner inside
  induction inside with
  | here => exact root
  | down listed _ ih =>
    obtain ⟨own, deeper⟩ := everywhere_iff.mp below
    exact ih (own _ listed) (deeper _ listed)

theorem visitedReferences_eq (n : SchemaNode) :
    n.visitedReferences = n.reference.toList ++ (n.children.map visitedReferences).flatten := by
  rw [visitedReferences]
  simp

theorem visitedReferences_congr {new : SchemaNode} (reference : new.reference = n.reference)
    (parts : new.parts = n.parts) : new.visitedReferences = n.visitedReferences := by
  rw [visitedReferences_eq, visitedReferences_eq n, children, children, reference, parts]

theorem clearCircular_eq (n : SchemaNode) : n.clearCircular =
    { n with parts := n.parts.map clearCircular, metadata := { n.metadata with circularReferences := [] } } := by
  rw [clearCircular, Parts.mapEach_eq_map]

theorem markCircular_eq (members : List String) (n : SchemaNode) : n.markCircular members =
    { n with
      parts := n.parts.map (markCircular members)
      metadata := { n.metadata with circularReferences := n.ownCircular members } } := by
  rw [markCircular, Parts.mapEach_eq_map]

theorem closesCycle_eq (n : SchemaNode) :
    n.closesCycle = (n.metadata.circularReferences != [] || n.children.any closesCycle) := by
  rw [closesCycle]
  simp

def RefersTo (n : SchemaNode) (name : String) : Prop := ∃ target ∈ n.visitedReferences, schemaNameOf? target = some name

theorem refersTo_iff : n.RefersTo name ↔
    (∃ target ∈ n.reference, schemaNameOf? target = some name) ∨ ∃ child ∈ n.children, child.RefersTo name := by
  unfold RefersTo
  rw [visitedReferences_eq]
  constructor
  · rintro ⟨target, listed, named⟩
    rcases List.mem_append.mp listed with own | deeper
    · exact .inl ⟨target, by simpa using own, named⟩
    · obtain ⟨_, mapped, inside⟩ := List.mem_flatten.mp deeper
      obtain ⟨child, below, rfl⟩ := List.mem_map.mp mapped
      exact .inr ⟨child, below, target, inside, named⟩
  · rintro (⟨target, own, named⟩ | ⟨child, below, target, inside, named⟩)
    · exact ⟨target, List.mem_append_left _ (by simpa using own), named⟩
    · refine ⟨target, List.mem_append_right _ ?_, named⟩
      exact List.mem_flatten.mpr ⟨_, List.mem_map_of_mem below, inside⟩

theorem children_ofReference (target : String) : (ofReference target).children = [] := rfl

theorem refersTo_ofReference : (ofReference target).RefersTo name ↔ schemaNameOf? target = some name := by
  rw [refersTo_iff, children_ofReference]
  simp [ofReference]

theorem closesCycle_iff : n.closesCycle = true ↔
    n.metadata.circularReferences ≠ [] ∨ ∃ child ∈ n.children, child.closesCycle = true := by
  rw [closesCycle_eq]
  simp

end SchemaNode
end SchemaAtlas
