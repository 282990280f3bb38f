import SchemaAtlas.Proofs.Analysis

namespace SchemaAtlas

namespace DependencyGraph

variable {g : DependencyGraph}

theorem walk_found_nodup (dependencies : String → List String) (fuel : Nat) (path : List String) (w : CycleWalk)
    (name : String) (once : w.found.Nodup) : (walk dependencies fuel path w name).found.Nodup := by
  induction fuel generalizing path w name with
  | zero => exact once
  | succ fuel ih =>
    unfold walk
    split
    · exact foldl_appendNew_nodup once _
    · split
      · exact once
      · refine List.foldlRecOn (motive := fun w : CycleWalk => w.found.Nodup) _ _ once ?_
        intro w kept next _
        exact ih _ w next kept

theorem cycleMembers_nodup (g : DependencyGraph) (root : String) : (g.cycleMembers root).Nodup := by
  unfold cycleMembers
  dsimp only
  split
  · exact walk_found_nodup _ _ _ _ _ List.nodup_nil
  · exact List.nodup_nil

end DependencyGraph

namespace SchemaNode

variable {n : SchemaNode}

theorem mem_marks (members : List String) (n : SchemaNode) : (n.annotatedPart members).Everywhere fun inner =>
    ∀ mark, mark ∈ inner.metadata.circularReferences ↔
      inner.reference = some mark ∧ ∃ member ∈ members, schemaNameOf? mark = some member := by
  induction n using children_induction with
  | step n ih =>
    refine everywhere_iff.mpr ⟨?_, ?_⟩
    · intro mark
      rw [annotatedPart_eq]
      simp [List.mem_filter, Option.any_eq_true, and_comm]
    · intro child listed
      rw [children_annotatedPart] at listed
      obtain ⟨old, below, rfl⟩ := List.mem_map.mp listed
      exact ih old below

end SchemaNode

namespace DependencyGraph

-- What the detector says of a name, and what is marked with it. A name that is on no cycle has
-- no members; the members of any other are the name itself and names on cycles that it leads
-- to, each of them once. Below the root of a component a mark stands where a reference to a
-- member stands, and nowhere else.
theorem cycleMembers_sound (map : Entries (List String)) :
    (∀ root, ((ofMap map).cycleMembers root = [] ↔ ¬ (ofMap map).OnCycle root) ∧
      ((ofMap map).cycleMembers root ≠ [] → root ∈ (ofMap map).cycleMembers root) ∧
      ((ofMap map).cycleMembers root).Nodup ∧
      ∀ member ∈ (ofMap map).cycleMembers root, (ofMap map).Reaches root member ∧ (ofMap map).OnCycle member) ∧
    ∀ (d : Document) name node, (name, node) ∈ (d.mapSchemas (Document.annotated (ofMap map))).schemas →
      ∀ child ∈ node.children, child.Everywhere fun inner =>
        ∀ mark, mark ∈ inner.metadata.circularReferences ↔ inner.reference = some mark ∧
          ∃ member ∈ (ofMap map).cycleMembers name, schemaNameOf? mark = some member := by
  have closed := closed_ofMap map
  refine ⟨fun root => ⟨?_, ?_, cycleMembers_nodup _ root, ?_⟩, ?_⟩
  · rw [← cycleMembers_ne_nil closed, not_not]
  · intro members
    exact root_mem_cycleMembers closed ((cycleMembers_ne_nil closed).mp members)
  · intro member listed
    exact (cycleMembers_recordable listed).1
  · intro d name node listed child below
    rw [Document.schemas_mapSchemas] at listed
    obtain ⟨old, _, same⟩ := List.mem_map.mp listed
    obtain ⟨rfl, rfl⟩ := Prod.mk.inj same
    rw [Document.annotated_eq, SchemaNode.children_map rfl] at below
    obtain ⟨part, _, rfl⟩ := List.mem_map.mp below
    exact SchemaNode.mem_marks _ part

example : (ofMap [("In", ["A"]), ("A", ["B", "Out"]), ("B", ["A"]), ("Out", [])]).cycleMembers "A" = ["A", "B"] := by
  decide

end DependencyGraph
end SchemaAtlas
