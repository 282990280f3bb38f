import SchemaAtlas.Proofs.Build
import SchemaAtlas.Proofs.PlacedOperations

namespace SchemaAtlas

namespace SchemaNode

variable {n new : SchemaNode}

def OfReference (Q : Option String → Prop) (n : SchemaNode) : Prop := Q n.reference

theorem Reworked.everywhere {Q : Option String → Prop} (reworked : Reworked R new n)
    (all : n.Everywhere (OfReference Q)) : new.Everywhere (OfReference Q) := by
  induction reworked with
  | @node new n f _ reference _ parts _ ih =>
    obtain ⟨own, below⟩ := everywhere_iff.mp all
    refine everywhere_iff.mpr ⟨?_, ?_⟩
    · unfold OfReference at own ⊢
      rwa [reference]
    · intro child listed
      rw [children_map parts] at listed
      obtain ⟨old, inside, rfl⟩ := List.mem_map.mp listed
      exact ih old inside (below old inside)

end SchemaNode

namespace Document

variable {d : Document}

theorem roots_analyze (listed : root ∈ d.analyze.roots) :
    root ∈ d.roots ∨ ∃ name, ∃ old ∈ d.roots, root = annotated d.dependencyGraphOf name old := by
  rcases List.mem_append.mp listed with component | operation
  · obtain ⟨c, marked, hangs⟩ := List.mem_flatMap.mp component
    obtain ⟨old, inside, rfl⟩ := List.mem_map.mp marked
    cases old with
    | schema name node =>
      obtain rfl := List.mem_singleton.mp hangs
      refine .inr ⟨name, node, ?_, rfl⟩
      exact List.mem_append_left _ (List.mem_flatMap.mpr ⟨_, inside, List.mem_singleton_self node⟩)
    | _ => exact .inl (List.mem_append_left _ (List.mem_flatMap.mpr ⟨_, inside, hangs⟩))
  · exact .inl (List.mem_append_right _ operation)

theorem Everywhere.analyze {Q : Option String → Prop} (all : d.Everywhere (SchemaNode.OfReference Q)) :
    d.analyze.Everywhere (SchemaNode.OfReference Q) := by
  intro root listed
  rcases roots_analyze listed with old | ⟨name, old, inside, rfl⟩
  · exact all root old
  · exact (remarked_annotated _ _ _).everywhere (all old inside)

end Document

namespace OpenApi

variable {source value inner : Json} {start : Place} {members : Members} {d : Document}

theorem get?_of_step? (found : Pointer.step? value token = some inner) (named : Pointer.index? token = none) :
    value.get? token = some inner := by
  cases value with
  | object entries => exact found
  | array items => simp [Pointer.step?, named] at found
  | _ => cases found

theorem find?_component (known : Pointer.index? token = none)
    (found : Pointer.find? source ["components", token, name] = some value) : ∃ all section_,
      source.get? "components" = some all ∧ all.get? token = some section_ ∧ Pointer.step? section_ name = some value := by
  obtain ⟨all, first, found⟩ := Option.bind_eq_some_iff.mp found
  obtain ⟨section_, second, found⟩ := Option.bind_eq_some_iff.mp found
  obtain ⟨_, third, same⟩ := Option.bind_eq_some_iff.mp found
  cases same
  exact ⟨all, section_, get?_of_step? first (by decide), get?_of_step? second known, third⟩

theorem readSection_member {read : Place → Json → String → Except Failure Component}
    (accepted : readSection start members kind read = .ok found) (held : members.get? kind.segment = some section_)
    (listed : Pointer.step? section_ name = some value) :
    ∃ component ∈ found, read (start.at_ ["components", kind.segment, name]) value name = .ok component := by
  rcases readSection_parts accepted with ⟨_, missing⟩ | ⟨entries, inside, all⟩
  · cases missing.symm.trans held
  · cases inside.symm.trans held
    obtain ⟨component, inside, read⟩ := exists_of_forall₂ all.flip (Entries.mem_of_get? listed)
    exact ⟨component, inside, read⟩

theorem readComponents_schema (accepted : readComponents start = .ok components)
    (found : Pointer.find? start.root ["components", "schemas", name] = some value) :
    ∃ node, Component.schema name node ∈ components ∧ ∃ place, readSchema place value = .ok node := by
  obtain ⟨all, section_, held, inner, listed⟩ := find?_component (by decide) found
  rcases readComponents_parts accepted with ⟨_, missing⟩ | ⟨members, schemas, _, _, _, _, held', inSchemas, _, _, _, _, rfl⟩
  · cases missing.symm.trans held
  · cases held'.symm.trans held
    obtain ⟨component, inside, read⟩ := readSection_member inSchemas inner listed
    obtain ⟨node, one, rfl⟩ := map_ok.mp read
    refine ⟨node, ?_, _, one⟩
    simp only [List.mem_append]
    exact .inl (.inl (.inl (.inl inside)))

theorem build_settled (built : build maxDepth source = .ok d)
    (found : Pointer.find? source ["components", "schemas", name] = some value) (plain : value.get? "$ref" = none) :
    ∃ node, (name, node) ∈ d.schemas ∧ node.reference = none := by
  obtain ⟨document, inComponents, _, rfl⟩ := build_parts built
  obtain ⟨node, inside, place, read⟩ := readComponents_schema inComponents found
  have listed : (name, node) ∈ document.schemas := List.mem_filterMap.mpr ⟨_, inside, rfl⟩
  refine ⟨Document.annotated document.dependencyGraphOf name node, ?_, ?_⟩
  · rw [Document.schemas_analyze]
    exact List.mem_map.mpr ⟨(name, node), listed, rfl⟩
  · rw [(Document.remarked_annotated _ _ _).reference]
    exact readSchema_plain read plain

-- A reference that reads as a schema reference, and in this document stands for the one
-- schema of its name, which is no reference itself.
structure Resolves (d : Document) (target : String) (r : ComponentRef) : Prop where
  reads : ComponentRef.ofText? target = some r
  kind : r.kind = .schemas
  standing : r.origin = .standard → ∃ node, (r.name, node) ∈ d.schemas ∧ d.schema? r.name = some node ∧ node.reference = none

-- Every reference in a built document resolves, in whatever record and however deep it
-- stands.
theorem build_references_resolve (distinct : source.KeysDistinct) (built : build maxDepth source = .ok d) :
    d.Everywhere fun inner => ∀ target ∈ inner.reference, ∃ r, Resolves d target r := by
  have settled : d.Everywhere fun inner => ∀ target ∈ inner.reference, ∃ r, Settles source .schemas target r := by
    obtain ⟨document, rfl, closed⟩ := (build_reports maxDepth distinct).given built
    exact Document.Everywhere.analyze (Q := fun reference => ∀ target ∈ reference, ∃ r, Settles source .schemas target r) closed
  intro root listed inner inside target own
  obtain ⟨r, settles⟩ := settled root listed inner inside target own
  refine ⟨r, settles.reads, settles.fits, ?_⟩
  intro standard
  obtain ⟨value, found, plain⟩ := settles.found standard
  obtain ⟨node, held, free⟩ := build_settled built found plain
  refine ⟨node, held, ?_, free⟩
  rw [Document.schema?_eq]
  exact Entries.get?_of_mem (build_wellFormed distinct built).2 held

-- A response refers to a schema whose name is escaped in the text, and that schema refers
-- to one of another document.
def linkedDescription : Json := .object [
  ("openapi", .string "3.1.0"),
  ("paths", .object [("/pets", .object [("get", .object [("responses", .object [
    ("200", .object [("content", .object [("application/json", .object [
      ("schema", .object [("$ref", .string "#/components/schemas/a~1b")])])])])])])])]),
  ("components", .object [("schemas", .object [
    ("a/b", .object [("items", .object [("$ref", .string "#/x-ext/abc/components/schemas/E")])])])])]

theorem build_references_resolve_linked : linkedDescription.KeysDistinct ∧
    ∃ d node r, build 4 linkedDescription = .ok d ∧ node ∈ d.roots ∧ node.reference = some "#/components/schemas/a~1b" ∧
      Resolves d "#/components/schemas/a~1b" r := by
  have distinct : linkedDescription.KeysDistinct := by
    simp [linkedDescription, Entries.Distinct, Entries.keys]
  have references : (build 4 linkedDescription).toOption.map (fun d => d.roots.map SchemaNode.reference) =
      some [none, some "#/components/schemas/a~1b"] := by decide +kernel
  cases built : build 4 linkedDescription with
  | error failure => simp [built, Except.toOption] at references
  | ok d =>
    rw [built] at references
    have listed : d.roots.map SchemaNode.reference = [none, some "#/components/schemas/a~1b"] := Option.some.inj references
    have own : some "#/components/schemas/a~1b" ∈ d.roots.map SchemaNode.reference := by
      rw [listed]
      exact List.mem_cons_of_mem _ List.mem_cons_self
    obtain ⟨node, listed, refers⟩ := List.mem_map.mp own
    obtain ⟨r, resolves⟩ := build_references_resolve distinct built node listed node .here _ refers
    exact ⟨distinct, d, node, r, rfl, listed, refers, resolves⟩

end OpenApi
end SchemaAtlas
