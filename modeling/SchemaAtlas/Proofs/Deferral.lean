import SchemaAtlas.Proofs.Regions

namespace SchemaAtlas

theorem Before.mem_front (before : Before (front ++ item :: back) a item) : a ∈ front := by
  by_contra outside
  have far : front.length ≤ (front ++ item :: back).idxOf a := idxOf_not_mem_front outside
  have near : (front ++ item :: back).idxOf item ≤ front.length := by
    rw [List.idxOf_append]
    split
    · rename_i inside
      exact Nat.le_of_lt (List.idxOf_lt_length_of_mem inside)
    · simp
  have := before.2
  omega

namespace Document

variable {d : Document} {regions front back : List Region} {r : Region}

theorem before_or_onCycle (accepted : d.analyze.regions = .ok regions)
    (edge : d.dependencyGraphOf.Edge source target) :
    Before (regions.map Region.name) target source ∨
      d.dependencyGraphOf.Reaches target source ∧ d.dependencyGraphOf.Reaches source target := by
  by_cases back : d.dependencyGraphOf.Reaches target source
  · exact .inr ⟨back, .edge edge⟩
  · rw [regions_names accepted]
    exact .inl (DependencyGraph.before_of_edge d.closed_dependencyGraphOf edge back)

end Document

def linked (targets : Entries String) : SchemaNode := {
  keywords := { type := some .object }
  parts := { properties := some (targets.mapValues fun target => .ofReference (schemaRef target)) } }

theorem children_linked (targets : Entries String) :
    (linked targets).children = targets.values.map fun target => .ofReference (schemaRef target) := by
  simp [linked, SchemaNode.children, Parts.toList, Parts.propertyEntries, Parts.additionalNode, Entries.mapValues,
    Entries.values, Function.comp_def]

theorem visitedReferences_linked (targets : Entries String) :
    (linked targets).visitedReferences = targets.values.map schemaRef := by
  have leaf : ∀ target, (SchemaNode.ofReference (schemaRef target)).visitedReferences = [schemaRef target] := by
    intro target
    rw [SchemaNode.visitedReferences_eq, SchemaNode.children_ofReference]
    rfl
  rw [SchemaNode.visitedReferences_eq, children_linked, List.map_map]
  simp only [linked, Option.toList_none, List.nil_append, Function.comp_def, leaf]
  induction targets.values with
  | nil => rfl
  | cons _ _ ih => simpa using ih

theorem wellFormed_linked {targets : Entries String}
    (reads : ∀ target ∈ targets.values, (ComponentRef.ofText? (schemaRef target)).isSome = true) :
    (linked targets).WellFormed := by
  refine SchemaNode.wellFormed_iff.mpr ⟨⟨by simp [linked], by simp [linked, SchemaNode.requiredNames]⟩, ?_⟩
  intro child inside
  rw [children_linked] at inside
  obtain ⟨target, listed, rfl⟩ := List.mem_map.mp inside
  exact SchemaNode.wellFormed_ofReference (reads target listed)

theorem dependencyGraphOf_linked {d : Document} {links : Entries (Entries String)}
    (schemas : d.schemas = links.mapValues linked) :
    d.dependencyGraphOf = .ofMap (Entries.ofList (links.map fun entry => (entry.1,
      (firstAppearances ((firstAppearances (entry.2.values.map schemaRef)).filterMap schemaNameOf?)).filter
        links.keys.contains))) := by
  simp only [Document.dependencyGraphOf, Document.dependencyMap, schemas, Entries.mapValues, List.map_map,
    Function.comp_def, SchemaNode.schemaDependencies, SchemaNode.subtreeReferences, visitedReferences_linked]
  rfl

-- A ring of three with a shortcut: of the two ways from R back to R, the second joins
-- the first at Q. T lies on a cycle of its own.
def crossingLinks : Entries (Entries String) :=
  [("P", [("a", "Q")]), ("Q", [("a", "R")]), ("R", [("a", "S"), ("b", "P"), ("c", "T")]), ("S", [("a", "Q")]),
    ("T", [("a", "T")])]

def crossing : Document := {
  sourceFormatVersion := "3.0.0"
  components := crossingLinks.map fun entry => .schema entry.1 (linked entry.2) }

theorem schemas_crossing : crossing.schemas = crossingLinks.mapValues linked := rfl

theorem dependencyGraphOf_crossing : crossing.dependencyGraphOf =
    ⟨[("P", ["Q"]), ("Q", ["R"]), ("R", ["S", "P", "T"]), ("S", ["Q"]), ("T", ["T"])]⟩ := by
  rw [dependencyGraphOf_linked schemas_crossing]
  rfl

theorem regions_crossing : ∃ regions, crossing.analyze.regions = .ok regions ∧
    ∃ r ∈ regions, crossing.Shows (linked [("a", "S"), ("b", "P"), ("c", "T")]) r ∧ r.name = "R" := by
  have distinct : Entries.Distinct crossing.schemas := by unfold Entries.Distinct; decide
  have reads : ∀ entry ∈ crossingLinks, ∀ target ∈ entry.2.values,
      (ComponentRef.ofText? (schemaRef target)).isSome = true := by decide +kernel
  have sound : ∀ entry ∈ crossing.schemas, entry.2.WellFormed := by
    intro entry listed
    rw [schemas_crossing] at listed
    obtain ⟨link, inside, rfl⟩ := List.mem_map.mp listed
    exact wellFormed_linked (reads link inside)
  have accepted := Document.regions_ok.mpr ⟨Document.analyze_wellFormed distinct sound, rfl⟩
  have declared : "R" ∈ crossing.analyze.schemas.map Prod.fst := by
    rw [Document.keys_schemas_analyze]
    decide
  obtain ⟨r, inside, named⟩ := Document.exists_region accepted declared
  obtain ⟨node, shown⟩ := Document.exists_shown accepted inside
  have listed : ("R", node) ∈ crossing.schemas := named ▸ shown.listed
  have held : Entries.get? crossing.schemas "R" = some (linked [("a", "S"), ("b", "P"), ("c", "T")]) := rfl
  cases (Entries.get?_of_mem distinct listed).symm.trans held
  exact ⟨_, accepted, r, inside, shown, named⟩

namespace Document

variable {d : Document} {regions front back : List Region} {r : Region}

-- Whatever stands at its turn, each of its dependencies is emitted already, or shares
-- a cycle with it and both are deferred.
theorem emitted_or_deferred (accepted : d.analyze.regions = .ok regions) (turn : regions = front ++ r :: back)
    (depends : name ∈ r.dependencies) :
    ∃ dep ∈ regions, dep.name = name ∧ (dep ∈ front ∨
      d.dependencyGraphOf.CommonCycle r.name name ∧ r.needsLazy = true ∧ dep.needsLazy = true) := by
  have distinct := distinct_of_verified (regions_ok.mp accepted).1
  have inside : r ∈ regions := by simp [turn]
  obtain ⟨node, shown⟩ := exists_shown accepted inside
  have edge : d.dependencyGraphOf.Edge r.name name := (shown.edge distinct).mpr depends
  rcases before_or_onCycle accepted edge with before | ⟨there, here⟩
  · rw [turn, List.map_append, List.map_cons] at before
    obtain ⟨dep, early, named⟩ := List.mem_map.mp before.mem_front
    exact ⟨dep, by simp [turn, early], named, .inl early⟩
  · have known : name ∈ d.analyze.schemas.map Prod.fst := by
      rw [keys_schemas_analyze]
      exact ((edge_dependencyGraphOf distinct shown.listed).mp edge).2
    obtain ⟨dep, listed, rfl⟩ := exists_region accepted known
    obtain ⟨_, other⟩ := exists_shown accepted listed
    exact ⟨dep, listed, rfl, .inr ⟨⟨here, there⟩, shown.needsLazy.mpr (here.trans there),
      other.needsLazy.mpr (there.trans here)⟩⟩

theorem emitted_or_deferred_crossing : ∃ regions front r back, crossing.analyze.regions = .ok regions ∧
    regions = front ++ r :: back ∧ "P" ∈ r.dependencies ∧
    ∃ dep ∈ regions, dep.name = "P" ∧ (dep ∈ front ∨
      crossing.dependencyGraphOf.CommonCycle r.name "P" ∧ r.needsLazy = true ∧ dep.needsLazy = true) := by
  obtain ⟨regions, accepted, r, inside, shown, named⟩ := regions_crossing
  have distinct := distinct_of_verified (regions_ok.mp accepted).1
  have depends : "P" ∈ r.dependencies := by
    rw [← shown.edge distinct, named, dependencyGraphOf_crossing]
    unfold DependencyGraph.Edge
    decide
  obtain ⟨front, back, turn⟩ := List.append_of_mem inside
  exact ⟨regions, front, r, back, accepted, turn, depends, emitted_or_deferred accepted turn depends⟩

-- Which properties are deferred: those that refer to a recorded member of the cycles of
-- the region. A recorded member lies on a cycle that the region leads to. Each member
-- that refers back to the region is recorded, with a whole way to it, and a component
-- that stands too late shares a cycle with the region, which is then deferred itself.
theorem propertyNeedsLazy_recorded (accepted : d.analyze.regions = .ok regions) (inside : r ∈ regions)
    (declared : r.schema.parts.propertyEntries.get? p = some part) :
    (r.propertyNeedsLazy p = true ↔ ∃ name ∈ d.dependencyGraphOf.cycleMembers r.name, part.RefersTo name) ∧
    (r.propertyNeedsLazy p = true → r.needsLazy = true ∧ ∃ name, part.RefersTo name ∧
      d.dependencyGraphOf.Reaches r.name name ∧ d.dependencyGraphOf.OnCycle name) ∧
    (∀ name, d.dependencyGraphOf.Reaches r.name name → d.dependencyGraphOf.Edge name r.name →
      d.dependencyGraphOf.WayRecorded r.name name (d.dependencyGraphOf.cycleMembers r.name)) ∧
    (∀ name, part.RefersTo name → name = r.name ∨ d.dependencyGraphOf.Edge name r.name →
      r.propertyNeedsLazy p = true) ∧
    (∀ name, part.RefersTo name → name ∈ regions.map Region.name → ¬ Before (regions.map Region.name) name r.name →
      d.dependencyGraphOf.CommonCycle r.name name ∧ r.needsLazy = true) := by
  have sound := (regions_ok.mp accepted).1
  have distinct := distinct_of_verified sound
  have closed := d.closed_dependencyGraphOf
  obtain ⟨node, shown⟩ := exists_shown accepted inside
  have lazy := shown.propertyNeedsLazy declared
  have edge_of : ∀ name, part.RefersTo name → name ∈ d.schemas.map Prod.fst →
      d.dependencyGraphOf.Edge r.name name := fun name refers known =>
    (edge_dependencyGraphOf distinct shown.listed).mpr ⟨shown.refers declared refers, known⟩
  have recorded : ∀ name, d.dependencyGraphOf.Reaches r.name name → d.dependencyGraphOf.Edge name r.name →
      d.dependencyGraphOf.WayRecorded r.name name (d.dependencyGraphOf.cycleMembers r.name) :=
    fun name path back => DependencyGraph.cycleMembers_of_back closed (.inr path) back
  refine ⟨lazy, ?_, recorded, ?_, ?_⟩
  · intro marked
    obtain ⟨name, member, refers⟩ := lazy.mp marked
    obtain ⟨⟨path, cycle⟩, own⟩ := DependencyGraph.cycleMembers_recordable member
    exact ⟨shown.needsLazy.mpr own, name, refers, path, cycle⟩
  · intro name refers back
    have path : d.dependencyGraphOf.Edge r.name name := by
      refine edge_of name refers ?_
      rcases back with rfl | back
      · exact List.mem_map_of_mem (f := Prod.fst) shown.listed
      · rw [← names_dependencyGraphOf distinct]
        exact DependencyGraph.edge_declared back
    have back : d.dependencyGraphOf.Edge name r.name := by
      rcases back with rfl | back
      · exact path
      · exact back
    exact lazy.mpr ⟨name, (recorded name (.edge path) back).name_mem, refers⟩
  · intro name refers listed late
    rw [regions_names accepted, sound.ordered, ← sound.names, keys_schemas_analyze] at listed
    obtain ⟨there, here⟩ := (before_or_onCycle accepted (edge_of name refers listed)).resolve_left late
    exact ⟨⟨here, there⟩, shown.needsLazy.mpr (here.trans there)⟩

theorem propertyNeedsLazy_recorded_crossing : ∃ regions r part, crossing.analyze.regions = .ok regions ∧
    r ∈ regions ∧ r.schema.parts.propertyEntries.get? "a" = some part ∧ part.RefersTo "S" ∧
    r.propertyNeedsLazy "a" = true := by
  obtain ⟨regions, accepted, r, inside, shown, named⟩ := regions_crossing
  have declared := shown.properties (p := "a")
  have refers : SchemaNode.RefersTo (.annotatedPart (crossing.dependencyGraphOf.cycleMembers r.name)
      (.ofReference (schemaRef "S"))) "S" := by
    rw [SchemaNode.refersTo_annotatedPart, SchemaNode.refersTo_ofReference]
    decide +kernel
  have recorded : "S" ∈ crossing.dependencyGraphOf.cycleMembers r.name := by
    rw [named, dependencyGraphOf_crossing]
    decide +kernel
  exact ⟨regions, r, _, accepted, inside, declared, refers,
    (propertyNeedsLazy_recorded accepted inside declared).1.mpr ⟨"S", recorded, refers⟩⟩

-- The recorded members are not the members of the common cycles: T is recorded for R,
-- P is not, although P stands after R.
theorem propertyNeedsLazy_not_mutual : ∃ regions, crossing.analyze.regions = .ok regions ∧ ∃ r ∈ regions,
    (∃ part, r.schema.parts.propertyEntries.get? "c" = some part ∧ r.propertyNeedsLazy "c" = true ∧
      ∀ name, part.RefersTo name → ¬ crossing.dependencyGraphOf.CommonCycle r.name name) ∧
    (∃ part, r.schema.parts.propertyEntries.get? "b" = some part ∧ r.propertyNeedsLazy "b" = false ∧
      ∃ name, part.RefersTo name ∧ crossing.dependencyGraphOf.CommonCycle r.name name ∧
        ¬ Before (regions.map Region.name) name r.name) := by
  obtain ⟨regions, accepted, r, inside, shown, named⟩ := regions_crossing
  have members : crossing.dependencyGraphOf.cycleMembers r.name = ["R", "S", "Q", "T"] := by
    rw [named, dependencyGraphOf_crossing]
    rfl
  have order : regions.map Region.name = ["S", "T", "R", "Q", "P"] := by
    rw [regions_names accepted]
    change crossing.dependencyGraphOf.topologicalOrder = _
    rw [dependencyGraphOf_crossing]
    decide +kernel
  have third : r.schema.parts.propertyEntries.get? "c" =
      some ((SchemaNode.ofReference (schemaRef "T")).annotatedPart ["R", "S", "Q", "T"]) := members ▸ shown.properties
  have second : r.schema.parts.propertyEntries.get? "b" =
      some ((SchemaNode.ofReference (schemaRef "P")).annotatedPart ["R", "S", "Q", "T"]) := members ▸ shown.properties
  have to_T : schemaNameOf? (schemaRef "T") = some "T" := by decide +kernel
  have to_P : schemaNameOf? (schemaRef "P") = some "P" := by decide +kernel
  refine ⟨regions, accepted, r, inside, ⟨_, third, ?_, ?_⟩, ⟨_, second, ?_, "P", ?_, ?_, ?_⟩⟩
  · rw [shown.propertyNeedsLazy third, members]
    exact ⟨"T", by decide, by rw [SchemaNode.refersTo_annotatedPart, SchemaNode.refersTo_ofReference, to_T]⟩
  · intro name refers
    rw [SchemaNode.refersTo_annotatedPart, SchemaNode.refersTo_ofReference, to_T] at refers
    cases refers
    rw [dependencyGraphOf_crossing, named]
    rintro ⟨_, back⟩
    exact absurd (back.stays ["T"] (by decide) (by decide)) (by decide)
  · rw [← Bool.not_eq_true, shown.propertyNeedsLazy second, members]
    rintro ⟨name, recorded, refers⟩
    rw [SchemaNode.refersTo_annotatedPart, SchemaNode.refersTo_ofReference, to_P] at refers
    cases refers
    revert recorded
    decide
  · rw [SchemaNode.refersTo_annotatedPart, SchemaNode.refersTo_ofReference, to_P]
  · rw [dependencyGraphOf_crossing, named]
    refine ⟨.edge ?_, .step (b := "Q") ?_ (.edge ?_)⟩ <;> (unfold DependencyGraph.Edge; decide)
  · rw [order, named]
    decide

end Document
end SchemaAtlas
