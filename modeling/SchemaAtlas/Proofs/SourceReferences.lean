import Mathlib.Data.List.Basic
import SchemaAtlas.Json.Basic
import SchemaAtlas.Proofs.Entries

namespace SchemaAtlas
namespace Json

-- Where a schema holds further schemas: under seven keywords, each in its own form.
inductive Holds (schema : Json) : Json → Prop where
  | property {inner : Json} : schema.get? "properties" = some (.object entries) → (name, inner) ∈ entries →
      Holds schema inner
  | item {inner : Json} : schema.get? "items" = some inner → Holds schema inner
  | additional {inner : Json} : schema.get? "additionalProperties" = some inner → Holds schema inner
  | member {inner : Json} : keyword ∈ ["prefixItems", "allOf", "oneOf", "anyOf"] →
      schema.get? keyword = some (.array members) → inner ∈ members → Holds schema inner

-- A schema refers to a text where it is that reference, or where a schema that it holds
-- refers to it. What stands beside or below a reference does not count.
inductive Refers (text : String) : Json → Prop where
  | here {schema : Json} : schema.get? "$ref" = some (.string text) → Refers text schema
  | down {schema inner : Json} : schema.get? "$ref" = none → Holds schema inner → Refers text inner →
      Refers text schema

def membersAt (schema : Json) (keyword : String) : List Json := ((schema.get? keyword).bind asArray?).getD []

def declaredProperties (schema : Json) : Entries Json := ((schema.get? "properties").bind asObject?).getD []

def additionalSchema (schema : Json) : List Json :=
  match schema.get? "additionalProperties" with
  | none | some (.bool _) => []
  | some inner => [inner]

def innerSchemas (schema : Json) : List Json :=
  schema.declaredProperties.map Prod.snd ++ (schema.get? "items").toList ++ schema.membersAt "prefixItems" ++
    schema.additionalSchema ++ schema.membersAt "allOf" ++ schema.membersAt "oneOf" ++ schema.membersAt "anyOf"

variable {schema inner : Json}

theorem mem_membersAt : inner ∈ schema.membersAt keyword ↔
    ∃ members, schema.get? keyword = some (.array members) ∧ inner ∈ members := by
  unfold membersAt
  cases schema.get? keyword with
  | none => simp
  | some value => cases value <;> simp [asArray?]

theorem mem_declaredProperties {entry : String × Json} : entry ∈ schema.declaredProperties ↔
    ∃ entries, schema.get? "properties" = some (.object entries) ∧ entry ∈ entries := by
  unfold declaredProperties
  cases schema.get? "properties" with
  | none => simp
  | some value => cases value <;> simp [asObject?]

theorem mem_additionalSchema : inner ∈ schema.additionalSchema ↔
    schema.get? "additionalProperties" = some inner ∧ ∀ flag, inner ≠ .bool flag := by
  unfold additionalSchema
  cases schema.get? "additionalProperties" with
  | none => simp
  | some value =>
    cases value with
    | bool flag =>
      simp only [List.not_mem_nil, Option.some.injEq, false_iff, not_and]
      intro same plain
      exact plain flag same.symm
    | _ =>
      simp only [List.mem_singleton, Option.some.injEq]
      constructor
      · rintro rfl
        exact ⟨rfl, by simp⟩
      · exact fun ⟨same, _⟩ => same.symm

theorem holds_of_mem (listed : inner ∈ schema.innerSchemas) : Holds schema inner := by
  simp only [innerSchemas, List.mem_append, Option.mem_toList, or_assoc] at listed
  rcases listed with property | item | prefixItem | additional | all | one | any
  · obtain ⟨entry, listed, rfl⟩ := List.mem_map.mp property
    obtain ⟨entries, given, inside⟩ := mem_declaredProperties.mp listed
    exact .property given inside
  · exact .item item
  · obtain ⟨members, given, inside⟩ := mem_membersAt.mp prefixItem
    exact .member (by simp) given inside
  · exact .additional (mem_additionalSchema.mp additional).1
  · obtain ⟨members, given, inside⟩ := mem_membersAt.mp all
    exact .member (by simp) given inside
  · obtain ⟨members, given, inside⟩ := mem_membersAt.mp one
    exact .member (by simp) given inside
  · obtain ⟨members, given, inside⟩ := mem_membersAt.mp any
    exact .member (by simp) given inside

theorem mem_of_holds (held : Holds schema inner) : inner ∈ schema.innerSchemas ∨ ∃ flag, inner = .bool flag := by
  simp only [innerSchemas, List.mem_append, Option.mem_toList]
  cases held with
  | property given inside =>
    have listed := List.mem_map_of_mem (f := Prod.snd) (mem_declaredProperties.mpr ⟨_, given, inside⟩)
    simp only [listed, true_or]
  | item given => simp [given]
  | additional given =>
    by_cases flag : ∃ flag, inner = .bool flag
    · exact .inr flag
    · have listed := mem_additionalSchema.mpr ⟨given, not_exists.mp flag⟩
      simp [listed]
  | member known given inside =>
    have listed := mem_membersAt.mpr ⟨_, given, inside⟩
    simp only [List.mem_cons, List.not_mem_nil, or_false] at known
    rcases known with rfl | rfl | rfl | rfl <;> simp [listed]

theorem sizeOf_get?_lt (found : schema.get? key = some inner) : sizeOf inner < sizeOf schema := by
  cases schema with
  | object entries =>
    have below := List.sizeOf_lt_of_mem (Entries.mem_of_get? found)
    simp only [Prod.mk.sizeOf_spec, object.sizeOf_spec] at below ⊢
    omega
  | _ => cases found

theorem sizeOf_held_lt (held : Holds schema inner) : sizeOf inner < sizeOf schema := by
  cases held with
  | property given inside =>
    have outer := sizeOf_get?_lt given
    have below := List.sizeOf_lt_of_mem inside
    simp only [Prod.mk.sizeOf_spec, object.sizeOf_spec] at below outer
    omega
  | item given => exact sizeOf_get?_lt given
  | additional given => exact sizeOf_get?_lt given
  | member _ given inside =>
    have outer := sizeOf_get?_lt given
    have below := List.sizeOf_lt_of_mem inside
    simp only [array.sizeOf_spec] at outer
    omega

def schemaReferences (schema : Json) : List String :=
  match schema.get? "$ref" with
  | some target => target.asString?.toList
  | none => (schema.innerSchemas.attach.map fun ⟨inner, _⟩ => inner.schemaReferences).flatten
termination_by sizeOf schema
decreasing_by exact sizeOf_held_lt (holds_of_mem ‹_›)

theorem schemaReferences_plain (plain : schema.get? "$ref" = none) :
    schema.schemaReferences = (schema.innerSchemas.map schemaReferences).flatten := by
  rw [schemaReferences, plain]
  simp

theorem schemaReferences_linked (linked : schema.get? "$ref" = some target) :
    schema.schemaReferences = target.asString?.toList := by
  rw [schemaReferences, linked]

theorem schemaReferences_flag (flag : Bool) : (bool flag).schemaReferences = [] := by
  rw [schemaReferences_plain rfl]
  rfl

theorem refers_of_mem (schema : Json) : ∀ text ∈ schema.schemaReferences, Refers text schema := by
  intro text listed
  cases linked : schema.get? "$ref" with
  | some target =>
    rw [schemaReferences_linked linked] at listed
    cases target with
    | string own =>
      obtain rfl : text = own := by simpa [asString?, eq_comm] using listed
      exact .here linked
    | _ => simp [asString?] at listed
  | none =>
    rw [schemaReferences_plain linked] at listed
    obtain ⟨_, mapped, inside⟩ := List.mem_flatten.mp listed
    obtain ⟨inner, below, rfl⟩ := List.mem_map.mp mapped
    have held := holds_of_mem below
    exact .down linked held (refers_of_mem inner text inside)
termination_by sizeOf schema
decreasing_by exact sizeOf_held_lt held

theorem mem_schemaReferences : text ∈ schema.schemaReferences ↔ Refers text schema := by
  constructor
  · exact refers_of_mem schema text
  · intro refers
    induction refers with
    | here linked => simp [schemaReferences_linked linked, asString?]
    | down plain held _ ih =>
      rcases mem_of_holds held with listed | ⟨flag, rfl⟩
      · rw [schemaReferences_plain plain]
        exact List.mem_flatten.mpr ⟨_, List.mem_map_of_mem listed, ih⟩
      · rw [schemaReferences_flag] at ih
        cases ih

end Json
end SchemaAtlas
