import SchemaAtlas.Proofs.PlacedOperations

namespace SchemaAtlas
namespace OpenApi

variable {source : Json} {failure : Failure}

-- The path of an error leads to a value of the source. As a pointer it resolves, except
-- below an alternative for one of several types: there it never does.
theorem build_error_place (distinct : source.KeysDistinct) (failed : build maxDepth source = .error failure)
    (carried : failure.path? = some path) : ∃ tokens value, path = "#" ++ Pointer.render tokens ∧
      source.Leads tokens value ∧ (Pointer.lookup? source (Pointer.render tokens) = none ↔ source.Detours tokens) := by
  obtain ⟨tokens, value, written, leads⟩ := (build_reports maxDepth distinct).placed failed carried
  exact ⟨tokens, value, written, leads, leads.lookup?_none⟩

def boundDescription (type : Json) : Json := .object [
  ("openapi", .string "3.0.0"),
  ("components", .object [("schemas", .object [
    ("A", .object [("type", type), ("minimum", .string "x")])])])]

theorem boundDescription_stops (type : Json) (path : String)
    (stops : (match build 4 (boundDescription type) with
      | .error failure => failure.path?
      | .ok _ => none) = some path) :
    ∃ failure, build 4 (boundDescription type) = .error failure ∧ failure.path? = some path := by
  cases built : build 4 (boundDescription type) with
  | ok d => simp [built] at stops
  | error failure => exact ⟨failure, rfl, by simpa [built] using stops⟩

theorem build_error_place_single : (boundDescription (.string "number")).KeysDistinct ∧
    ∃ failure, build 4 (boundDescription (.string "number")) = .error failure ∧
      failure.path? = some "#/components/schemas/A/minimum" ∧
      ∃ tokens value, "#/components/schemas/A/minimum" = "#" ++ Pointer.render tokens ∧
        (boundDescription (.string "number")).Leads tokens value ∧
        (Pointer.lookup? (boundDescription (.string "number")) (Pointer.render tokens) = none ↔
          (boundDescription (.string "number")).Detours tokens) := by
  have distinct : (boundDescription (.string "number")).KeysDistinct := by
    simp [boundDescription, Entries.Distinct, Entries.keys]
  obtain ⟨failure, failed, carried⟩ :=
    boundDescription_stops (.string "number") "#/components/schemas/A/minimum" (by decide +kernel)
  exact ⟨distinct, failure, failed, carried, build_error_place distinct failed carried⟩

-- With two types the path names a member that the text at this position does not have.
theorem build_error_beside : ∃ failure, build 4 (boundDescription (Json.ofStrings ["string", "integer"])) = .error failure ∧
    failure.path? = some "#/components/schemas/A/type/0/minimum" ∧
    Pointer.lookup? (boundDescription (Json.ofStrings ["string", "integer"])) "/components/schemas/A/type/0/minimum" = none := by
  obtain ⟨failure, failed, carried⟩ :=
    boundDescription_stops (Json.ofStrings ["string", "integer"]) "#/components/schemas/A/type/0/minimum" (by decide +kernel)
  exact ⟨failure, failed, carried, by decide +kernel⟩

end OpenApi
end SchemaAtlas
