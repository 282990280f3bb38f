import SchemaAtlas.Proofs.Build

namespace SchemaAtlas

namespace OpenApi

variable {descend : Descent} {p : Place} {m : Members} {value : Json} {node : SchemaNode}

-- A descent under which a node refers to what its source refers to, in the same order. A
-- list of types repeats the source, so the walks agree up to repetitions only.
def Follows (descend : Descent) : Prop := ∀ place value node, descend place value = .ok node →
  node.visitedReferences.eraseDups = value.schemaReferences.eraseDups

theorem visitedReferences_finish : (p.finish node nullable).visitedReferences = node.visitedReferences :=
  SchemaNode.visitedReferences_congr rfl rfl

theorem visitedReferences_ofParts (k : Keywords) (parts : Parts SchemaNode) :
    ({ keywords := k, parts := parts } : SchemaNode).visitedReferences =
      (parts.toList.map SchemaNode.visitedReferences).flatten := by
  rw [SchemaNode.visitedReferences_eq]
  rfl

theorem readBody_follows (follows : Follows descend) (plain : (Json.object m).get? "$ref" = none)
    (accepted : readBody descend p m type nullable = .ok node) :
    node.visitedReferences.eraseDups = (Json.object m).schemaReferences.eraseDups := by
  obtain ⟨keywords, parts, discriminator, _, inParts, rfl⟩ := readBody_parts accepted
  rw [visitedReferences_finish, visitedReferences_ofParts, Json.schemaReferences_plain plain]
  apply eraseDups_flatten_congr
  rw [List.forall₂_map_left_iff, List.forall₂_map_right_iff]
  refine (readParts_listed inParts).2.flip.imp ?_
  rintro child inner ⟨place, _, read⟩
  exact follows place inner child read

theorem readUnion_follows (follows : Follows descend) (plain : (Json.object m).get? "$ref" = none)
    (several : 1 < list.types.length) (accepted : readUnion descend p m list nullable = .ok node) :
    node.visitedReferences.eraseDups = (Json.object m).schemaReferences.eraseDups := by
  obtain ⟨members, keywords, _, length, read, rfl⟩ := readUnion_parts accepted
  rw [visitedReferences_finish, visitedReferences_ofParts]
  have alone : ({ oneOf := some members } : Parts SchemaNode).toList = members := by
    simp [Parts.toList, Parts.propertyEntries, Parts.additionalNode]
  rw [alone]
  apply eraseDups_flatten_const
  · intro none_
    rw [List.map_eq_nil_iff.mp none_, List.length_nil] at length
    omega
  · intro walk listed
    obtain ⟨member, inside, rfl⟩ := List.mem_map.mp listed
    obtain ⟨place, type, _, body⟩ := read member inside
    exact readBody_follows follows plain body

theorem referenceOf_ok (found : referenceOf p value = .ok reference) :
    value.get? "$ref" = reference.map Json.string := by
  unfold referenceOf at found
  split at found
  · rename_i missing
    cases found
    exact missing
  · rename_i text given
    cases found
    exact given
  · cases found

theorem Level.follows (follows : Follows descend) (level : Level descend p value node) :
    node.visitedReferences.eraseDups = value.schemaReferences.eraseDups := by
  cases level with
  | anything =>
    rw [visitedReferences_finish, visitedReferences_ofParts, Json.schemaReferences_flag]
    rfl
  | reference found _ =>
    rw [Json.schemaReferences_linked (referenceOf_ok found), visitedReferences_finish, SchemaNode.visitedReferences_eq,
      SchemaNode.children_ofReference]
    rfl
  | body found read => exact readBody_follows follows (referenceOf_ok found) read
  | union found several read => exact readUnion_follows follows (referenceOf_ok found) several read

theorem readWithin_follows (levels : Nat) : Follows (readWithin levels) := by
  induction levels with
  | zero =>
    intro place value node accepted
    cases accepted
  | succ levels ih =>
    intro place value node accepted
    exact (readLevel_parts accepted).2.follows ih

theorem readSchema_follows : Follows readSchema := fun _ value node accepted =>
  readWithin_follows _ _ value node accepted

-- What a built document says a schema depends on is what the source of that schema refers
-- to: the schemas of the document that it refers to, each once and at its first
-- appearance, in the tree of the node as in the source. A reference names a schema of the
-- document where it decodes to its name.
theorem build_dependencies (distinct : source.KeysDistinct) (built : build maxDepth source = .ok d) :
    ∀ entry ∈ d.schemas, ∃ schema dependencies,
      Pointer.find? source ["components", "schemas", entry.1] = some schema ∧
      d.dependencyGraph.nodes.get? entry.1 = some dependencies ∧
      (∀ name, name ∈ dependencies ↔
        (∃ text, schema.Refers text ∧ schemaNameOf? text = some name) ∧ name ∈ d.schemas.map Prod.fst) ∧
      dependencies.Nodup ∧
      dependencies = (Document.occurrences (d.schemas.map Prod.fst) entry.2.visitedReferences).eraseDups ∧
      dependencies = (Document.occurrences (d.schemas.map Prod.fst) schema.schemaReferences).eraseDups := by
  obtain ⟨document, inComponents, _, rfl⟩ := build_parts built
  have once : Entries.Distinct document.schemas := readComponents_distinct distinct inComponents
  intro entry listed
  have recorded := Document.nodes_analyze once listed
  rw [Document.schemas_analyze] at listed
  obtain ⟨old, inside, rfl⟩ := List.mem_map.mp listed
  obtain ⟨place, schema, found, read⟩ := readComponents_found distinct inComponents inside
  have follows := readSchema_follows place schema old.2 read
  have walks : (Document.occurrences (document.analyze.schemas.map Prod.fst)
      (Document.annotated document.dependencyGraphOf old.1 old.2).visitedReferences).eraseDups =
      (Document.occurrences (document.analyze.schemas.map Prod.fst) schema.schemaReferences).eraseDups := by
    rw [(Document.remarked_annotated _ _ _).visitedReferences, ← Document.occurrences_eraseDups, follows,
      Document.occurrences_eraseDups]
  refine ⟨schema, _, found, recorded, ?_, eraseDups_nodup _, rfl, walks⟩
  intro name
  rw [walks, List.mem_eraseDups, Document.mem_occurrences]
  simp only [Json.mem_schemaReferences]

-- A schema of two types, so its properties are read twice. One dependency stands twice,
-- one under an escaped name, one is its own, and one is of another document.
def branchingDescription : Json := .object [
  ("openapi", .string "3.1.0"),
  ("components", .object [("schemas", .object [
    ("Tree", .object [
      ("type", Json.ofStrings ["object", "array"]),
      ("properties", .object [
        ("leaf", .object [("allOf", .array [.object [("$ref", .string "#/components/schemas/a~1b")]])]),
        ("next", .object [("$ref", .string "#/components/schemas/Tree")])]),
      ("items", .object [("$ref", .string "#/components/schemas/a~1b")]),
      ("additionalProperties", .object [("$ref", .string "#/x-ext/abc/components/schemas/Leaf")])]),
    ("a/b", .object [("additionalProperties", .bool true)]),
    ("Leaf", .object [("type", .string "string")])])])]

theorem build_dependencies_branching : branchingDescription.KeysDistinct ∧
    ∃ d schema, build 4 branchingDescription = .ok d ∧
      Pointer.find? branchingDescription ["components", "schemas", "Tree"] = some schema ∧
      d.dependencyGraph.nodes.get? "Tree" = some ["a/b", "Tree"] ∧
      ∃ text, schema.Refers text ∧ schemaNameOf? text = some "a/b" := by
  have distinct : branchingDescription.KeysDistinct := by
    simp [branchingDescription, Json.ofStrings, Entries.Distinct, Entries.keys, Json.KeysDistinct.bool]
  have outcome : (build 4 branchingDescription).toOption.map (fun d =>
      (d.schemas.map Prod.fst, d.dependencyGraph.nodes.get? "Tree")) =
        some (["Tree", "a/b", "Leaf"], some ["a/b", "Tree"]) := by decide +kernel
  cases built : build 4 branchingDescription with
  | error failure => simp [built, Except.toOption] at outcome
  | ok d =>
    rw [built] at outcome
    obtain ⟨names, recorded⟩ := Prod.mk.inj (Option.some.inj outcome)
    obtain ⟨entry, listed, named⟩ := List.mem_map.mp (names ▸ List.mem_cons_self : "Tree" ∈ d.schemas.map Prod.fst)
    obtain ⟨schema, dependencies, found, kept, follows, _⟩ := build_dependencies distinct built entry listed
    rw [named] at found kept
    obtain rfl := Option.some.inj (kept.symm.trans recorded)
    exact ⟨distinct, d, schema, rfl, found, recorded, ((follows "a/b").mp List.mem_cons_self).1⟩

end OpenApi
end SchemaAtlas
