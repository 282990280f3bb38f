import SchemaAtlas.Proofs.ReferenceClosure

namespace SchemaAtlas
namespace OpenApi

open SchemaNode

variable {source : Json} {ceiling level : Nat} {n new child node : SchemaNode} {d : Document}

theorem depth_remarked (remarked : Remarked new n) :
    new.metadata.dependencies.depth = n.metadata.dependencies.depth := by
  have unmarked : new.metadata.unmarked.dependencies.depth = n.metadata.unmarked.dependencies.depth := by
    rw [remarked.metadata]
  exact unmarked

theorem Nests.remarked (nests : Nests source ceiling level n) (remarked : Remarked new n) :
    Nests source ceiling level new := by
  induction nests generalizing new with
  | plain inside recorded settles _ ih =>
    have same := depth_remarked remarked
    cases remarked with
    | node _ reference _ parts marked =>
      refine .plain inside (same.trans recorded) (by rwa [reference]) ?_
      intro child listed
      rw [children_map parts] at listed
      obtain ⟨old, below, rfl⟩ := List.mem_map.mp listed
      exact ih old below (marked old below)
  | union inside recorded plain alone several leads alternates deeper leaf _ ih =>
    have same := depth_remarked remarked
    cases remarked with
    | @node _ _ f _ reference _ parts marked =>
      rw [children_union alone] at marked
      refine .union inside (same.trans recorded) (reference.trans plain) (parts.trans (by rw [alone]; rfl)) ?_ leads
        alternates ?_ ?_ ?_
      · rwa [List.length_map]
      · intro member listed
        obtain ⟨old, below, rfl⟩ := List.mem_map.mp listed
        exact (depth_remarked (marked old below)).trans (deeper old below)
      · intro member listed
        obtain ⟨old, below, rfl⟩ := List.mem_map.mp listed
        exact (marked old below).reference.trans (leaf old below)
      · intro member listed child inner
        obtain ⟨old, below, rfl⟩ := List.mem_map.mp listed
        cases marked old below with
        | node _ _ _ parts marked =>
          rw [children_map parts] at inner
          obtain ⟨first, held, rfl⟩ := List.mem_map.mp inner
          exact ih old below first held (marked first held)

-- One level past the ceiling: an alternative for one of several types that the source lists,
-- below a node that stands at the ceiling, with nothing below it.
structure Overhangs (source : Json) (ceiling : Nat) (n child : SchemaNode) : Prop where
  last : n.metadata.dependencies.depth = ceiling
  alternative : ∃ members, n.parts = { oneOf := some members } ∧ 1 < members.length ∧ child ∈ members
  bare : child.children = []
  listed : ∃ tokens value i, source.Leads tokens value ∧ value.Alternates i

-- Each part stands one level deeper than its node and no deeper than the ceiling, unless
-- it overhangs.
def StepsDown (source : Json) (ceiling : Nat) (n : SchemaNode) : Prop :=
  ∀ child ∈ n.children, child.metadata.dependencies.depth = n.metadata.dependencies.depth + 1 ∧
    (child.metadata.dependencies.depth ≤ ceiling ∨ Overhangs source ceiling n child)

theorem Nests.depth (nests : Nests source ceiling level n) : n.metadata.dependencies.depth = level ∧ level ≤ ceiling := by
  cases nests with
  | plain inside recorded _ _ => exact ⟨recorded, inside⟩
  | union inside recorded _ _ _ _ _ _ _ _ => exact ⟨recorded, inside⟩

theorem stepsDown_of_nests (recorded : n.metadata.dependencies.depth = level)
    (below : ∀ child ∈ n.children, Nests source ceiling (level + 1) child) : StepsDown source ceiling n := by
  intro child listed
  obtain ⟨deeper, inside⟩ := (below child listed).depth
  rw [recorded, deeper]
  exact ⟨rfl, .inl inside⟩

theorem Nests.stepsDown (nests : Nests source ceiling level n) : n.Everywhere (StepsDown source ceiling) := by
  induction nests with
  | plain _ recorded _ below ih => exact everywhere_iff.mpr ⟨stepsDown_of_nests recorded below, ih⟩
  | @union _ _ level _ members _ inside recorded _ alone several leads alternates deeper _ below ih =>
    refine everywhere_iff.mpr ⟨?_, ?_⟩
    · intro member listed
      rw [children_union alone] at listed
      refine ⟨by rw [deeper member listed, recorded], ?_⟩
      by_cases fits : level + 1 ≤ ceiling
      · exact .inl (by rwa [deeper member listed])
      -- Without room for the alternatives there is none for parts of them.
      · refine .inr ⟨by omega, ⟨members, alone, several, listed⟩, ?_, _, _, _, leads, alternates⟩
        refine List.eq_nil_iff_forall_not_mem.mpr fun child inner => ?_
        have room := (below member listed child inner).depth.2
        omega
    · intro member listed
      rw [children_union alone] at listed
      exact everywhere_iff.mpr ⟨stepsDown_of_nests (deeper member listed) (below member listed), ih member listed⟩

theorem Document.nest_analyze {document : Document} (nest : AllNest source ceiling document.roots) :
    AllNest source ceiling document.analyze.roots := by
  intro root listed
  rcases Document.roots_analyze listed with old | ⟨name, old, inside, rfl⟩
  · exact nest root old
  · obtain ⟨level, nests⟩ := nest old inside
    exact ⟨level, nests.remarked (Document.remarked_annotated _ _ _)⟩

-- The ceiling holds of every root and of all that is read as a schema of its own. What
-- passes it is an alternative for one of several types, by one level; where the source
-- lists several types nowhere, nothing does.
theorem build_depth (distinct : source.KeysDistinct) (built : build maxDepth source = .ok d) :
    (∀ root ∈ d.roots, root.metadata.dependencies.depth ≤ maxDepth) ∧
    d.Everywhere (StepsDown source maxDepth) ∧
    (d.Everywhere fun inner => inner.metadata.dependencies.depth ≤ maxDepth + 1) ∧
    ((∀ tokens value i, source.Leads tokens value → ¬ value.Alternates i) →
      d.Everywhere fun inner => inner.metadata.dependencies.depth ≤ maxDepth) := by
  obtain ⟨document, rfl, given⟩ := (build_nests maxDepth distinct).given built
  have nest := Document.nest_analyze given
  have top : ∀ root ∈ document.analyze.roots, root.metadata.dependencies.depth ≤ maxDepth := by
    intro root listed
    obtain ⟨_, nests⟩ := nest root listed
    rw [nests.depth.1]
    exact nests.depth.2
  have steps : document.analyze.Everywhere (StepsDown source maxDepth) := by
    intro root listed
    obtain ⟨_, nests⟩ := nest root listed
    exact nests.stepsDown
  refine ⟨top, steps, ?_, ?_⟩
  · intro root listed
    refine everywhere_of_children (Nat.le_succ_of_le (top root listed)) fun inner inside child below => ?_
    obtain ⟨deeper, room | hangs⟩ := steps root listed inner inside child below
    · exact Nat.le_succ_of_le room
    · rw [deeper, hangs.last]
  · intro single root listed
    refine everywhere_of_children (top root listed) fun inner inside child below => ?_
    obtain ⟨_, room | hangs⟩ := steps root listed inner inside child below
    · exact room
    · obtain ⟨_, _, _, leads, alternates⟩ := hangs.listed
      exact absurd alternates (single _ _ _ leads)

def severalTypes : Json := .object [("type", Json.ofStrings ["string", "integer"])]

def layeredDescription (schema : Json) : Json := .object [
  ("openapi", .string "3.0.0"),
  ("components", .object [("schemas", .object [
    ("A", .object [("properties", .object [("a", schema)])]),
    ("B", schema)])])]

theorem build_depth_layered : (layeredDescription severalTypes).KeysDistinct ∧
    ∃ d, build 1 (layeredDescription severalTypes) = .ok d ∧
      d.Everywhere (StepsDown (layeredDescription severalTypes) 1) ∧
      d.Everywhere fun inner => inner.metadata.dependencies.depth ≤ 2 := by
  have distinct : (layeredDescription severalTypes).KeysDistinct := by
    simp [layeredDescription, severalTypes, Json.ofStrings, Entries.Distinct, Entries.keys]
  have builds : (build 1 (layeredDescription severalTypes)).isOk = true := by decide +kernel
  cases built : build 1 (layeredDescription severalTypes) with
  | error failure => simp [built, Except.isOk, Except.toBool] at builds
  | ok d =>
    obtain ⟨_, steps, deepest, _⟩ := build_depth distinct built
    exact ⟨distinct, d, rfl, steps, deepest⟩

-- The alternatives for the types of the property stand two levels down, where nothing is
-- allowed past the first.
theorem build_depth_exceeded : (layeredDescription severalTypes).KeysDistinct ∧
    ∃ d, build 1 (layeredDescription severalTypes) = .ok d ∧
      ¬ d.Everywhere fun inner => inner.metadata.dependencies.depth ≤ 1 := by
  have distinct : (layeredDescription severalTypes).KeysDistinct := by
    simp [layeredDescription, severalTypes, Json.ofStrings, Entries.Distinct, Entries.keys]
  have deep : ((build 1 (layeredDescription severalTypes)).toOption.map fun d =>
      d.roots.all fun root => root.children.all fun child => child.children.all fun inner =>
        inner.metadata.dependencies.depth ≤ 1) = some false := by decide +kernel
  cases built : build 1 (layeredDescription severalTypes) with
  | error failure => simp [built, Except.toOption] at deep
  | ok d =>
    refine ⟨distinct, d, rfl, fun all => ?_⟩
    simp only [built, Except.toOption, Option.map_some, Option.some.injEq, List.all_eq_false, Bool.not_eq_true,
      decide_eq_false_iff_not] at deep
    obtain ⟨root, listed, child, below, inner, deepest, past⟩ := deep
    exact past (all root listed inner (.down below (.down deepest .here)))

end OpenApi
end SchemaAtlas
