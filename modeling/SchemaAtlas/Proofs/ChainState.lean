import SchemaAtlas.Builder.Lowering.Object
import SchemaAtlas.Proofs.Constraints

namespace SchemaAtlas
namespace Builder

open SchemaNode

variable {n addition : SchemaNode} {s : State} {properties : Entries SchemaNode}

theorem tidy_ofParts (required : k.required = none) (properties : p.properties = none)
    (below : ∀ child ∈ p.toList, child.Tidy) : ({ keywords := k, parts := p } : SchemaNode).Tidy := by
  have empty : p.propertyEntries = [] := by simp [Parts.propertyEntries, properties]
  refine tidy_plain rfl ?_ ?_ below
  · rw [empty]
    exact List.nodup_nil
  · rw [empty]
    exact required

theorem tidy_ofType (type : SchemaType) : (ofType type).Tidy :=
  tidy_ofParts rfl rfl (by simp [Parts.mem_toList, Parts.propertyEntries])

theorem tidy_ofFormat (type : SchemaType) (format : String) : (ofFormat type format).Tidy :=
  tidy_ofParts rfl rfl (by simp [Parts.mem_toList, Parts.propertyEntries])

namespace State

theorem tidy_start (tidy : n.Tidy) : (start n).node.Tidy := tidy

theorem tidy_finish (tidy : s.node.Tidy) : s.finish.Tidy := tidy.congr rfl rfl rfl

theorem tidy_annotated (tidy : n.Tidy) : (annotated n).Tidy ∧ (annotated n).reference = none := by
  unfold annotated isReference
  cases same : n.reference with
  | none => exact ⟨tidy, same⟩
  | some target =>
    refine ⟨tidy_ofParts rfl rfl ?_, rfl⟩
    intro child listed
    obtain rfl : child = n := by simpa [Parts.mem_toList, Parts.propertyEntries] using listed
    exact tidy

theorem tidy_annotate {f : Keywords → Keywords} (tidy : s.node.Tidy)
    (required : ∀ k, (f k).required = k.required) :
    (s.annotate fun n => { n with keywords := f n.keywords }).node.Tidy := by
  obtain ⟨tidy, plain⟩ := tidy_annotated tidy
  exact tidy_withKeywords tidy plain (required _)

theorem tidy_describe (tidy : s.node.Tidy) : (s.describe text).node.Tidy :=
  tidy_annotate (f := fun k => { k with description := some text }) tidy fun _ => rfl

theorem tidy_setDefault (tidy : s.node.Tidy) : (s.setDefault value).node.Tidy :=
  tidy_annotate (f := fun k => { k with default := some value }) tidy fun _ => rfl

theorem tidy_setReadOnly (tidy : s.node.Tidy) : s.setReadOnly.node.Tidy :=
  tidy_annotate (f := fun k => { k with readOnly := true }) tidy fun _ => rfl

theorem tidy_wrapArray (tidy : s.node.Tidy) : s.wrapArray.node.Tidy := by
  refine tidy_ofParts rfl rfl ?_
  intro child listed
  obtain rfl : s.finish = child := by simpa [Parts.mem_toList, Parts.propertyEntries] using listed
  exact tidy_finish tidy

theorem tidy_wrapAny (tidy : s.node.Tidy) (other : n.Tidy) : (s.wrapAny n).node.Tidy := by
  refine tidy_ofParts rfl rfl ?_
  intro child listed
  obtain rfl | rfl : child = s.finish ∨ child = n := by
    simpa [Parts.mem_toList, Parts.propertyEntries] using listed
  · exact tidy_finish tidy
  · exact other

theorem tidy_wrapAll (tidy : s.node.Tidy) (other : n.Tidy) : (s.wrapAll n).node.Tidy := by
  refine tidy_ofParts rfl rfl ?_
  intro child listed
  obtain rfl | rfl : child = s.finish ∨ child = n := by
    simpa [Parts.mem_toList, Parts.propertyEntries] using listed
  · exact tidy_finish tidy
  · exact other

end State

theorem tidy_syncRequired (plain : n.reference = none) (distinct : n.parts.propertyEntries.Distinct)
    (below : ∀ child ∈ n.children, child.Tidy) : (syncRequired n).Tidy :=
  tidy_plain plain distinct rfl below

theorem mem_children_withProperties (listed : child ∈ (withProperties n properties).children) :
    (∃ entry ∈ properties, entry.2 = child) ∨ child ∈ n.children := by
  rcases Parts.mem_toList.mp listed with member | other
  · exact .inl member
  · exact .inr (Parts.mem_toList.mpr (.inr other))

theorem tidy_withProperties (tidy : n.Tidy) (plain : n.reference = none) (distinct : properties.Distinct)
    (members : ∀ entry ∈ properties, entry.2.Tidy) : (withProperties n properties).Tidy := by
  refine tidy_syncRequired plain distinct ?_
  intro child listed
  rcases mem_children_withProperties listed with ⟨entry, inside, rfl⟩ | old
  · exact members entry inside
  · exact tidy.below child old

theorem tidy_objectNode (distinct : properties.Distinct) (members : ∀ entry ∈ properties, entry.2.Tidy) :
    (objectNode properties).Tidy :=
  tidy_withProperties (tidy_ofType .object) rfl distinct members

theorem mem_children_withAdditional (listed : child ∈ (withAdditional n additional).children) :
    additional = some (.inr child) ∨ child ∈ n.children := by
  rcases Parts.mem_toList.mp listed with member | item | listed | given | other
  · exact .inr (Parts.mem_toList.mpr (.inl member))
  · exact .inr (Parts.mem_toList.mpr (.inr (.inl item)))
  · exact .inr (Parts.mem_toList.mpr (.inr (.inr (.inl listed))))
  · exact .inl given
  · exact .inr (Parts.mem_toList.mpr (.inr (.inr (.inr (.inr other)))))

theorem tidy_withAdditional (tidy : n.Tidy) (plain : n.reference = none)
    (node : ∀ child, additional = some (.inr child) → child.Tidy) : (withAdditional n additional).Tidy := by
  refine tidy_plain plain tidy.own.distinct tidy.own.required ?_
  intro child listed
  rcases mem_children_withAdditional listed with new | old
  · exact node child new
  · exact tidy.below child old

theorem mem_children_of_property (listed : entry ∈ n.parts.propertyEntries) : entry.2 ∈ n.children :=
  Parts.mem_toList_of_property listed

theorem mem_children_of_additional (given : n.parts.additional = some (.inr child)) : child ∈ n.children :=
  Parts.mem_toList.mpr (.inr (.inr (.inr (.inl given))))

theorem tidy_merge (tidy : n.Tidy) (plain : n.reference = none) (added : addition.Tidy) :
    (merge n addition).Tidy := by
  have additional : ∀ child, addition.parts.additional.or n.parts.additional = some (.inr child) →
      child.Tidy := by
    intro child given
    cases same : addition.parts.additional with
    | none =>
      rw [same, Option.none_or] at given
      exact tidy.below child (mem_children_of_additional given)
    | some other =>
      rw [same, Option.some_or] at given
      exact added.below child (mem_children_of_additional (same.trans given))
  refine tidy_withProperties (tidy_withAdditional tidy plain additional) plain
    (Entries.foldl_insert_distinct tidy.own.distinct) fun entry listed => ?_
  rcases Entries.mem_foldl_insert listed with old | new
  · exact tidy.below _ (mem_children_of_property old)
  · exact added.below _ (mem_children_of_property new)

def partialParts (p : Parts SchemaNode) : Parts SchemaNode :=
  { p with
    properties := (p.map deepPartial).properties.map fun entries =>
      entries.map fun (name, node) => (name, setRequired false node)
    items := p.items.map deepPartial }

theorem deepPartial_eq (n : SchemaNode) : deepPartial n =
    if n.parts.properties.isSome then syncRequired { n with parts := partialParts n.parts }
    else { n with parts := partialParts n.parts } := by
  rw [deepPartial, Parts.mapEach_eq_map]
  rfl

theorem propertyEntries_partialParts (p : Parts SchemaNode) : (partialParts p).propertyEntries =
    p.propertyEntries.map fun entry => (entry.1, setRequired false (deepPartial entry.2)) := by
  unfold partialParts Parts.map Parts.propertyEntries
  cases p.properties <;> simp

theorem mem_partialParts (listed : child ∈ (partialParts p).toList) :
    child ∈ p.toList ∨ ∃ old ∈ p.toList, child = deepPartial old ∨ child = setRequired false (deepPartial old) := by
  rcases Parts.mem_toList.mp listed with ⟨entry, member, rfl⟩ | item | other
  · rw [propertyEntries_partialParts] at member
    obtain ⟨old, inside, rfl⟩ := List.mem_map.mp member
    exact .inr ⟨old.2, Parts.mem_toList_of_property inside, .inr rfl⟩
  · obtain ⟨old, given, rfl⟩ := Option.map_eq_some_iff.mp item
    exact .inr ⟨old, Parts.mem_toList.mpr (.inr (.inl given)), .inl rfl⟩
  · exact .inl (Parts.mem_toList.mpr (.inr (.inr other)))

theorem deepPartial_leaf (properties : n.parts.properties = none) (items : n.parts.items = none) :
    deepPartial n = n := by
  have same : partialParts n.parts = n.parts := by
    unfold partialParts
    simp only [Parts.map, properties, items, Option.map_none]
    rw [← properties, ← items]
  rw [deepPartial_eq, if_neg (by simp [properties]), same]
  cases n
  rfl

theorem distinct_partialParts (distinct : p.propertyEntries.Distinct) : (partialParts p).propertyEntries.Distinct := by
  unfold Entries.Distinct Entries.keys at distinct ⊢
  rwa [propertyEntries_partialParts, List.map_map]

theorem tidy_deepPartial (tidy : n.Tidy) : (deepPartial n).Tidy := by
  induction n using children_induction with
  | step n ih =>
    by_cases plain : n.reference = none
    · have below : ∀ child ∈ (partialParts n.parts).toList, child.Tidy := by
        intro child listed
        rcases mem_partialParts listed with old | ⟨old, inside, rfl | rfl⟩
        · exact tidy.below child old
        · exact ih old inside (tidy.below old inside)
        · exact (ih old inside (tidy.below old inside)).congr rfl rfl rfl
      have distinct := distinct_partialParts tidy.own.distinct
      rw [deepPartial_eq]
      split
      · exact tidy_syncRequired plain distinct below
      · rename_i without
        refine tidy_plain plain distinct ?_ below
        have none_ : n.parts.properties = none := by simpa using without
        have empty : n.parts.propertyEntries = [] := by simp [Parts.propertyEntries, none_]
        have required := tidy.own.required
        simp only [propertyEntries_partialParts]
        rw [empty] at required ⊢
        exact required
    · have leaf : n.parts.isBare = true := by
        have bare := tidy.own.bare plain
        simp only [hasStructure, Bool.not_eq_false', Bool.and_eq_true] at bare
        exact bare.2
      simp only [Parts.isBare, Bool.and_eq_true, Option.isNone_iff_eq_none] at leaf
      rw [deepPartial_leaf (by tauto) (by tauto)]
      exact tidy

end Builder
end SchemaAtlas
