import SchemaAtlas.OpenApi.Build
import SchemaAtlas.Proofs.JsonKeys
import SchemaAtlas.Proofs.Regions
import SchemaAtlas.Proofs.SchemaShape

namespace SchemaAtlas
namespace OpenApi

variable {start : Place} {members : Members} {read : Place → Json → String → Except Failure Component}

theorem readSection_parts (accepted : readSection start members kind read = .ok found) :
    (found = [] ∧ members.get? kind.segment = none) ∨ ∃ entries, members.get? kind.segment = some (.object entries) ∧
      List.Forall₂ (fun entry component =>
        read (start.at_ ["components", kind.segment, entry.1]) entry.2 entry.1 = .ok component) entries found := by
  unfold readSection at accepted
  split at accepted
  · rename_i missing
    cases accepted
    exact .inl ⟨rfl, missing⟩
  · rename_i entries held
    exact .inr ⟨entries, held, mapM_ok.mp accepted⟩
  · cases accepted

theorem readSection_other (accepted : readSection start members kind read = .ok found)
    (other : ∀ place value name component, read place value name = .ok component → component.asSchema? = none) :
    found.filterMap Component.asSchema? = [] := by
  refine List.filterMap_eq_nil_iff.mpr fun component listed => ?_
  rcases readSection_parts accepted with ⟨rfl, _⟩ | ⟨entries, _, all⟩
  · cases listed
  · obtain ⟨entry, _, one⟩ := exists_of_forall₂ all listed
    exact other _ entry.2 entry.1 component one

theorem wrapped_ok {check : Except Failure Unit} {body : Except Failure α} {wrap : α → Component} :
    (check >>= fun _ => body >>= fun a => pure (wrap a)) = .ok component ↔
      check = .ok () ∧ ∃ a, body = .ok a ∧ wrap a = component := by
  rw [check_ok, bind_ok]
  simp only [pure, Except.pure, Except.ok.injEq]

theorem wrapped_other {check : Except Failure Unit} {body : Except Failure α} {wrap : α → Component}
    (plain : ∀ a, (wrap a).asSchema? = none)
    (accepted : (check >>= fun _ => body >>= fun a => pure (wrap a)) = .ok component) : component.asSchema? = none := by
  obtain ⟨_, a, _, rfl⟩ := wrapped_ok.mp accepted
  exact plain a

def ReadComponent (start : Place) (source : String × Json) (entry : String × SchemaNode) : Prop :=
  source.1 = entry.1 ∧ readSchema (start.at_ ["components", "schemas", source.1]) source.2 = .ok entry.2

theorem schemas_of_section {entries : Entries Json} (all : List.Forall₂ (fun entry component =>
      schemaComponent (start.at_ ["components", "schemas", entry.1]) entry.2 entry.1 = .ok component) entries found) :
    List.Forall₂ (ReadComponent start) entries (found.filterMap Component.asSchema?) := by
  induction all with
  | nil => exact .nil
  | cons one _ ih =>
    obtain ⟨node, read, rfl⟩ := map_ok.mp one
    exact .cons ⟨rfl, read⟩ ih

theorem readComponents_parts (accepted : readComponents start = .ok components) :
    (components = [] ∧ start.root.get? "components" = none) ∨ ∃ members schemas parameters responses bodies schemes,
      start.root.get? "components" = some (.object members) ∧
      readSection start members .schemas schemaComponent = .ok schemas ∧
      readSection start members .parameters parameterComponent = .ok parameters ∧
      readSection start members .responses responseComponent = .ok responses ∧
      readSection start members .requestBodies requestBodyComponent = .ok bodies ∧
      readSection start members .securitySchemes securitySchemeComponent = .ok schemes ∧
      components = schemas ++ parameters ++ responses ++ bodies ++ schemes := by
  unfold readComponents at accepted
  split at accepted
  · rename_i missing
    cases accepted
    exact .inl ⟨rfl, missing⟩
  · rename_i value held
    split at accepted
    · rename_i members same
      cases Json.asObject?_some same
      obtain ⟨schemas, inSchemas, accepted⟩ := bind_ok.mp accepted
      obtain ⟨parameters, inParameters, accepted⟩ := bind_ok.mp accepted
      obtain ⟨responses, inResponses, accepted⟩ := bind_ok.mp accepted
      obtain ⟨bodies, inBodies, accepted⟩ := bind_ok.mp accepted
      obtain ⟨schemes, inSchemes, accepted⟩ := bind_ok.mp accepted
      cases accepted
      exact .inr ⟨members, schemas, parameters, responses, bodies, schemes, held, inSchemas, inParameters, inResponses,
        inBodies, inSchemes, rfl⟩
    · cases accepted

theorem readComponents_schemas (accepted : readComponents start = .ok components) :
    components.filterMap Component.asSchema? = [] ∨ ∃ members entries,
      start.root.get? "components" = some (.object members) ∧ Entries.get? members "schemas" = some (.object entries) ∧
      List.Forall₂ (ReadComponent start) entries (components.filterMap Component.asSchema?) := by
  rcases readComponents_parts accepted with ⟨rfl, _⟩ |
    ⟨members, schemas, parameters, responses, bodies, schemes, held, inSchemas, inParameters, inResponses, inBodies, inSchemes, rfl⟩
  · exact .inl rfl
  · simp only [List.filterMap_append, List.append_nil,
      readSection_other inParameters fun _ _ _ _ => wrapped_other fun _ => rfl,
      readSection_other inResponses fun _ _ _ _ => wrapped_other fun _ => rfl,
      readSection_other inBodies fun _ _ _ _ => wrapped_other fun _ => rfl,
      readSection_other inSchemes fun _ _ _ _ => wrapped_other fun _ => rfl]
    rcases readSection_parts inSchemas with ⟨rfl, _⟩ | ⟨entries, inside, all⟩
    · exact .inl rfl
    · exact .inr ⟨members, entries, held, inside, schemas_of_section all⟩

theorem keys_of_read {entries : Entries Json} (all : List.Forall₂ (ReadComponent start) entries schemas) :
    schemas.map Prod.fst = entries.keys := by
  induction all with
  | nil => rfl
  | cons one _ ih =>
    unfold Entries.keys at ih ⊢
    rw [List.map_cons, List.map_cons, ih, one.1]

theorem readComponents_distinct (distinct : start.root.KeysDistinct) (accepted : readComponents start = .ok components) :
    Entries.Distinct (components.filterMap Component.asSchema?) := by
  rcases readComponents_schemas accepted with none_ | ⟨members, entries, held, inside, all⟩
  · rw [none_]
    exact List.nodup_nil
  · have once := (Json.keysDistinct_object.mp ((distinct.get? held).get? inside)).1
    unfold Entries.Distinct at once ⊢
    rwa [← keys_of_read all] at once

theorem readComponents_read (accepted : readComponents start = .ok components)
    (listed : entry ∈ components.filterMap Component.asSchema?) :
    ∃ place value, place.depth = 0 ∧ readSchema place value = .ok entry.2 := by
  rcases readComponents_schemas accepted with none_ | ⟨members, entries, _, _, all⟩
  · rw [none_] at listed
    cases listed
  · obtain ⟨source, _, _, read⟩ := exists_of_forall₂ all listed
    exact ⟨_, source.2, rfl, read⟩

theorem readComponents_found (distinct : start.root.KeysDistinct) (accepted : readComponents start = .ok components)
    (listed : entry ∈ components.filterMap Component.asSchema?) : ∃ place value,
      Pointer.find? start.root ["components", "schemas", entry.1] = some value ∧ readSchema place value = .ok entry.2 := by
  rcases readComponents_schemas accepted with none_ | ⟨members, entries, held, inside, all⟩
  · rw [none_] at listed
    cases listed
  · obtain ⟨source, member, same, read⟩ := exists_of_forall₂ all listed
    have once := (Json.keysDistinct_object.mp ((distinct.get? held).get? inside)).1
    refine ⟨_, source.2, ?_, read⟩
    have root : Pointer.step? start.root "components" = some (.object members) := by
      cases whole : start.root with
      | object own =>
        rw [whole] at held
        exact held
      | _ =>
        rw [whole] at held
        cases held
    have section_ : Pointer.step? (.object members) "schemas" = some (.object entries) := inside
    have found : Pointer.step? (.object entries) entry.1 = some source.2 := by
      rw [← same]
      exact Entries.get?_of_mem once member
    simp only [Pointer.find?, root, section_, found, Option.bind_some]

theorem build_steps (built : build maxDepth source = .ok d) : ∃ root security document,
    source = .object root ∧
    Members.at? root "security" (readRequirements ((Place.start source maxDepth).at_ ["security"])) = .ok security ∧
    readComponents (Place.start source maxDepth) = .ok document.components ∧
    readPaths (Place.start source maxDepth) security = .ok document.operations ∧ Document.analyze document = d := by
  unfold build at built
  split at built
  · rename_i root same
    obtain ⟨version, _, built⟩ := bind_ok.mp built
    obtain ⟨security, inSecurity, built⟩ := bind_ok.mp built
    obtain ⟨components, inComponents, built⟩ := bind_ok.mp built
    obtain ⟨operations, inOperations, built⟩ := bind_ok.mp built
    exact ⟨root, security, _, Json.asObject?_some same, inSecurity, inComponents, inOperations, Except.ok.inj built⟩
  · cases built

theorem build_parts (built : build maxDepth source = .ok d) : ∃ document : Document,
    readComponents (Place.start source maxDepth) = .ok document.components ∧
    (∃ security, readPaths (Place.start source maxDepth) security = .ok document.operations) ∧ document.analyze = d := by
  obtain ⟨_, security, document, _, _, inComponents, inOperations, same⟩ := build_steps built
  exact ⟨document, inComponents, ⟨security, inOperations⟩, same⟩

theorem build_wellFormed (distinct : source.KeysDistinct) (built : build maxDepth source = .ok d) :
    d.WellFormed ∧ Entries.Distinct d.schemas := by
  obtain ⟨document, inComponents, _, rfl⟩ := build_parts built
  have once : Entries.Distinct document.schemas := readComponents_distinct distinct inComponents
  have sound : ∀ entry ∈ document.schemas, entry.2.WellFormed := by
    intro entry listed
    obtain ⟨place, value, _, read⟩ := readComponents_read inComponents listed
    exact readSchema_wellFormed place value entry.2 read
  refine ⟨Document.analyze_wellFormed once sound, ?_⟩
  unfold Entries.Distinct Entries.keys
  rw [Document.keys_schemas_analyze]
  exact once

-- What is built passes the boundary, and is handed on as one region for each schema
-- component, in the order of the summary.
theorem build_regions (distinct : source.KeysDistinct) (built : build maxDepth source = .ok d) :
    d.WellFormed ∧ d.verify = .ok () ∧ ∃ regions, d.regions = .ok regions ∧
      regions.map Region.name = d.dependencyGraph.topologicalOrder ∧
      (regions.map fun r => (r.name, r.schema)).Perm d.schemas := by
  obtain ⟨sound, once⟩ := build_wellFormed distinct built
  have accepted := Document.regions_ok.mpr ⟨sound, rfl⟩
  exact ⟨sound, Document.verify_ok.mpr sound, _, accepted, Document.regions_names accepted,
    Document.regions_schemas once accepted⟩

def petDescription : Json := .object [
  ("openapi", .string "3.1.0"),
  ("components", .object [("schemas", .object [
    ("Pet", .object [
      ("required", Json.ofStrings ["owner", "color"]),
      ("properties", .object [
        ("owner", .object [("$ref", .string "#/components/schemas/Owner")]),
        ("tag", .object [("type", Json.ofStrings ["string", "integer"])])])]),
    ("Owner", .object [
      ("properties", .object [("pets", .object [
        ("items", .object [("$ref", .string "#/components/schemas/Pet")])])])])])])]

theorem build_regions_pet : petDescription.KeysDistinct ∧ ∃ d regions, build 4 petDescription = .ok d ∧
    d.verify = .ok () ∧ d.regions = .ok regions ∧ regions.map Region.name = ["Owner", "Pet"] := by
  have distinct : petDescription.KeysDistinct := by
    simp [petDescription, Json.ofStrings, Entries.Distinct, Entries.keys]
  have order : (build 4 petDescription).toOption.map (·.dependencyGraph.topologicalOrder) = some ["Owner", "Pet"] := by
    decide +kernel
  cases built : build 4 petDescription with
  | error failure => simp [built, Except.toOption] at order
  | ok d =>
    obtain ⟨-, accepted, regions, given, names, -⟩ := build_regions distinct built
    rw [built] at order
    exact ⟨distinct, d, regions, rfl, accepted, given, names.trans (Option.some.inj order)⟩

end OpenApi
end SchemaAtlas
